import Archivist.Proofs.Runs.Round
import Archivist.Proofs.Runs.Ownership
import Mathlib.Data.List.Induction
set_option autoImplicit false

namespace Archivist

/-- The run has come to an end by itself: it has neither panicked nor been given up. -/
def Outcome.IsReturned : Outcome → Prop
  | .failed _ (.error _) => True
  | .failed _ _ => False
  | _ => True

instance : DecidablePred Outcome.IsReturned := fun o =>
  match o with
  | .failed _ (.error _) | .noDirectory | .duplicate _ | .noDestination _ | .completed _ =>
    .isTrue trivial
  | .failed _ .panicked | .failed _ .cancelled | .failed _ .alreadyRan => .isFalse id

structure Policy.Assigned (p : Policy) (d : Dir) : Prop where
  directory : p.directory = some d
  destinations : p.destinations = none

namespace Handler

variable {p : Policy} {d : Dir}

/-! ## What the policy can answer -/

theorem selectOn_cases (unfixed : p.destinations = none)
    (next : Except ArchiveError (Option Dir)) :
    (∃ q d, q.Assigned d ∧ selectOn p next = (q, .selected d)) ∨
    (p.Idle ∧ selectOn p next = (p, .nothingToDo)) ∨
    (∃ q e, q.Idle ∧ selectOn p next = (q, .failed e)) := by
  unfold selectOn
  cases given : p.directory with
  | some d => exact .inl ⟨p, d, ⟨given, unfixed⟩, rfl⟩
  | none =>
    cases next with
    | error e => exact .inr (.inr ⟨_, e, Policy.idle_setDirectory (.inr unfixed), rfl⟩)
    | ok found =>
      cases found with
      | none => exact .inr (.inl ⟨⟨given, unfixed⟩, rfl⟩)
      | some d => exact .inl ⟨_, d, ⟨rfl, Policy.destinations_setDirectory unfixed _⟩, rfl⟩

theorem resolveOn_cases (assigned : p.Assigned d)
    (look : Dir → Search (Option (List Member))) :
    (∃ nodes, look d = .answer (some nodes) ∧
      resolveOn p look = ({ p with destinations := some (nodes.map (·.id)) }, .resolved)) ∨
    (∃ q, q.Idle ∧ resolveOn p look = (q, .noNodes)) ∨
    (∃ q e, q.Idle ∧ resolveOn p look = (q, .failed e)) ∨
    resolveOn p look = (p, .panicked) := by
  have dropped : (p.setDirectory none).Idle := Policy.idle_setDirectory (.inr assigned.destinations)
  unfold resolveOn
  rw [if_neg (by simp [assigned.destinations])]
  cases found : p.findOn look with
  | panicked => exact .inr (.inr (.inr rfl))
  | error e => exact .inr (.inr (.inl ⟨_, e, dropped, rfl⟩))
  | answer nodes =>
    cases nodes with
    | none => exact .inr (.inl ⟨_, dropped, rfl⟩)
    | some nodes =>
      have looked : look d = .answer (some nodes) := by
        unfold Policy.findOn Policy.requireDirectory at found
        rw [assigned.directory] at found
        cases finder : p.finder with
        | placement =>
          rw [finder] at found
          exact found
        | broken =>
          rw [finder] at found
          cases found
        | failing =>
          rw [finder] at found
          cases found
      unfold settle Policy.freeze
      dsimp only
      split
      · rename_i q fixed
        split at fixed
        · cases fixed
        · rw [if_neg (by simp [assigned.destinations])] at fixed
          exact .inl ⟨nodes, looked, by rw [← Except.ok.inj fixed]⟩
      · exact .inr (.inr (.inl ⟨_, _, dropped, rfl⟩))

theorem jobs_cases (directory : p.directory = some d) (w : World) :
    (∃ ids js, p.destinations = some ids ∧ (∀ j ∈ js, j.destination ∈ ids) ∧
      jobs p w = (p, .submitted, js)) ∨
    (∃ q e, q.Idle ∧ jobs p w = (q, .failed e, [])) := by
  have idle : (p.setDirectory none).Idle := Policy.idle_setDirectory (.inl (by simp [directory]))
  unfold jobs
  cases sent : p.send w with
  | error e => exact .inr ⟨_, e, idle, rfl⟩
  | ok js =>
    unfold Policy.send Policy.requireDirectory at sent
    rw [directory] at sent
    dsimp only [bind, Except.bind] at sent
    cases fixed : p.destinations with
    | none =>
      rw [fixed] at sent
      cases sent
    | some ids =>
      rw [fixed] at sent
      dsimp only at sent
      cases listed : p.files w.namespace_ d with
      | error e =>
        rw [listed] at sent
        cases sent
      | ok fs =>
        rw [listed] at sent
        refine .inl ⟨ids, js, rfl, ?_, rfl⟩
        rw [← Except.ok.inj sent]
        intro j hj
        obtain ⟨f, -, made⟩ := List.mem_flatMap.1 hj
        obtain ⟨id, chosen, rfl⟩ := List.mem_map.1 made
        exact List.mem_of_mem_filter chosen

theorem concludeOn_cases (directory : p.directory = some d)
    (archived : Dir → Except ArchiveError Bool) (moves : Dir → Dir → Bool) {js : List Job}
    (ended : ∀ j ∈ js, j.isDone = true) :
    (∃ q report, q.Idle ∧ report.done + report.failed = js.length ∧
      concludeOn p archived moves js = (q, .cleaned report)) ∨
    (∃ q e, q.Idle ∧ concludeOn p archived moves js = (q, .failed e)) := by
  have idle : (p.setDirectory none).Idle := Policy.idle_setDirectory (.inl (by simp [directory]))
  unfold concludeOn Policy.cleanupOn Policy.requireDirectory
  rw [directory]
  dsimp only [bind, Except.bind]
  cases archived d with
  | error e => exact .inr ⟨_, e, idle, rfl⟩
  | ok answer => exact .inl ⟨_, _, ⟨rfl, rfl⟩, Policy.done_add_failed ended p d answer _, rfl⟩

/-! ## What a handler makes of it -/

variable {h : Handler} {s : Stage}

theorem IsAt.react_eq (here : h.IsAt s) (undone : s ≠ .done) (r : Registry) (e : HandlerEvent) :
    h.react r e = h.advance r e := react_of_open here.unended (here.stage ▸ undone)

end Handler

namespace Round

variable {a₀ a : Round} {ms : List Move} {m : Move} {o : Outcome} {s : Stage}

/-! ## What has happened in a run -/

/-- At some point of a run a move came about as `P` says. -/
def Met (a : Round) (ms : List Move) (P : Round → Move → Prop) : Prop :=
  ∃ before m after, ms = before ++ m :: after ∧ P (a.run before) m

variable {P : Round → Move → Prop}

theorem Met.append (h : a.Met ms P) (more : List Move) : a.Met (ms ++ more) P := by
  obtain ⟨before, m, after, rfl, met⟩ := h
  exact ⟨before, m, after ++ more, by simp, met⟩

theorem Met.last (h : P (a.run ms) m) : a.Met (ms ++ [m]) P := ⟨ms, m, [], rfl, h⟩

def Finds (d : Dir) (nodes : List Member) (a : Round) (m : Move) : Prop :=
  a.handler.IsAt .registered ∧ a.handler.slot = some ⟨d, a.handler.owner⟩ ∧
    ∃ look, m = .resolve look ∧ look d = .answer (some nodes)

def Sends (js : List Job) (a : Round) (m : Move) : Prop :=
  a.handler.IsAt .destinationsResolved ∧
    ∃ w, m = .send w ∧ (Handler.jobs a.policy w).2 = (.submitted, js)

def Contested (d : Dir) (a : Round) (m : Move) : Prop :=
  a.handler.IsAt .directorySelected ∧ a.handler.directory = some d ∧
    ∃ r since, m = .register r since ∧ r.contains d = true

/-! ## What the policy holds -/

/-- What a run that has ended has left in its policy. -/
structure Left (a₀ : Round) (ms : List Move) (o : Outcome) (p : Policy) : Prop where
  destinations : o.IsReturned → p.destinations = none
  directory : o.IsReturned → ∀ d, p.directory = some d ↔ o = .duplicate d
  contested : ∀ d, o = .duplicate d → a₀.Met ms (Contested d)
  counted : ∀ r, o = .completed r → ∃ js, a₀.Met ms (Sends js) ∧ r.done + r.failed = js.length

theorem Left.append {p : Policy} (h : Left a₀ ms o p) (more : List Move) :
    Left a₀ (ms ++ more) o p where
  destinations := h.destinations
  directory := h.directory
  contested d eq := (h.contested d eq).append more
  counted r eq := by
    obtain ⟨js, sent, count⟩ := h.counted r eq
    exact ⟨js, sent.append more, count⟩

theorem Left.of_idle {p : Policy} (idle : p.Idle) (own : ∀ d, o ≠ .duplicate d)
    (counted : ∀ r, o = .completed r → ∃ js, a₀.Met ms (Sends js) ∧ r.done + r.failed = js.length) :
    Left a₀ ms o p where
  destinations _ := idle.destinations
  directory _ d := by simp [idle.directory, own d]
  contested d eq := absurd eq (own d)
  counted := counted

theorem left_failed {p : Policy} {d : Option Dir} {f : RunFault}
    (idle : ∀ e, f = .error e → p.Idle) : Left a₀ ms (.failed d f) p := by
  cases f with
  | error e => exact .of_idle (idle e rfl) (by simp) (by simp)
  | panicked | cancelled | alreadyRan => exact ⟨False.elim, False.elim, by simp, by simp⟩

def Working (a₀ : Round) (ms : List Move) (a : Round) : Prop :=
  ∃ d js, a.policy.directory = some d ∧ a₀.Met ms (Sends js) ∧ a.jobs.length = js.length

def Holds (a₀ : Round) (ms : List Move) (a : Round) : Stage → Prop
  | .start => a.policy.destinations = none
  | .directorySelected => ∃ d, a.handler.directory = some d ∧ a.policy.Assigned d
  | .registered => ∃ d, a.handler.directory = some d ∧
      a.handler.slot = some ⟨d, a.handler.owner⟩ ∧ a.policy.Assigned d
  | .destinationsResolved => ∃ d nodes, a₀.Met ms (Finds d nodes) ∧
      a.policy.directory = some d ∧ a.policy.destinations = some (nodes.map (·.id))
  | .jobsSubmitted | .waiting => Working a₀ ms a
  | .cleanup => Working a₀ ms a ∧ ∀ j ∈ a.jobs, j.isDone = true
  | .done => ∀ o, a.handler.outcome = some o → Left a₀ ms o a.policy

/-- What the policy of a run holds where the run stands after some moves. -/
def Stands (a₀ : Round) (ms : List Move) (a : Round) : Prop :=
  match a.handler.ending with
  | some o => Left a₀ ms o a.policy
  | none => Holds a₀ ms a a.handler.stage

theorem stands_iff_holds (here : a.handler.IsAt s) : Stands a₀ ms a ↔ Holds a₀ ms a s := by
  unfold Stands
  rw [here.unended, here.stage]

theorem stands_at (hopen : a.handler.ending = none) (stage : a.handler.stage = s)
    (holds : Holds a₀ ms a s) : Stands a₀ ms a := (stands_iff_holds ⟨hopen, stage⟩).2 holds

theorem stands_iff_left (closed : a.handler.ending = some o) :
    Stands a₀ ms a ↔ Left a₀ ms o a.policy := by
  unfold Stands
  rw [closed]

theorem Working.keep {b : Round} (h : Working a₀ ms a) (policy : b.policy = a.policy)
    (jobs : b.jobs.length = a.jobs.length) (more : List Move) : Working a₀ (ms ++ more) b := by
  obtain ⟨d, js, directory, sent, count⟩ := h
  exact ⟨d, js, by rw [policy, directory], sent.append more, by rw [jobs, count]⟩

section Others

variable {b : Round}

theorem Holds.keep (h : Holds a₀ ms a s) (policy : b.policy = a.policy)
    (handler : b.handler = a.handler) (jobs : b.jobs.length = a.jobs.length)
    (ended : (∀ j ∈ a.jobs, j.isDone = true) → ∀ j ∈ b.jobs, j.isDone = true) (more : List Move) :
    Holds a₀ (ms ++ more) b s := by
  cases s with
  | start =>
    unfold Holds at h ⊢
    rwa [policy]
  | directorySelected =>
    unfold Holds at h ⊢
    rwa [policy, handler]
  | registered =>
    unfold Holds at h ⊢
    rwa [policy, handler]
  | destinationsResolved =>
    obtain ⟨d, nodes, found, held⟩ := h
    unfold Holds
    rw [policy]
    exact ⟨d, nodes, found.append more, held⟩
  | jobsSubmitted => exact Working.keep h policy jobs more
  | waiting => exact Working.keep h policy jobs more
  | cleanup => exact ⟨h.1.keep policy jobs more, ended h.2⟩
  | done =>
    unfold Holds at h ⊢
    rw [policy, handler]
    exact fun o out => (h o out).append more

theorem Stands.keep (h : Stands a₀ ms a) (policy : b.policy = a.policy)
    (handler : b.handler = a.handler) (jobs : b.jobs.length = a.jobs.length)
    (ended : (∀ j ∈ a.jobs, j.isDone = true) → ∀ j ∈ b.jobs, j.isDone = true) (more : List Move) :
    Stands a₀ (ms ++ more) b := by
  unfold Stands at h ⊢
  rw [handler, policy]
  cases closed : a.handler.ending with
  | some o =>
    rw [closed] at h
    exact h.append more
  | none =>
    rw [closed] at h
    exact Holds.keep h policy handler jobs ended more

end Others

theorem Stands.mark (h : Stands a₀ ms a) (k : Nat) (m : Mark) (more : List Move) :
    Stands a₀ (ms ++ more) { a with jobs := a.jobs.modify k m.on } := by
  refine h.keep (b := { a with jobs := a.jobs.modify k m.on }) rfl rfl
    (List.length_modify ..) ?_ more
  intro ended j hj
  rw [List.mem_iff_getElem?] at hj
  obtain ⟨i, hget⟩ := hj
  rw [List.getElem?_modify] at hget
  obtain ⟨old, there, eq⟩ := Option.map_eq_some_iff.1 hget
  have closed := ended old (List.mem_of_getElem? there)
  rw [← eq]
  split
  · exact m.isDone_on closed
  · exact closed

/-! ## One step of the run -/

theorem Stands.select (h : Stands a₀ ms a) (here : a.handler.IsAt .start)
    (next : Except ArchiveError (Option Dir)) (ms' : List Move) :
    Stands a₀ ms' (a.asked (Handler.selectOn a.policy next)) := by
  have unfixed : a.policy.destinations = none := (stands_iff_holds here).1 h
  unfold asked tell
  rw [here.react_eq (by decide)]
  rcases Handler.selectOn_cases unfixed next with
    ⟨q, d, assigned, answer⟩ | ⟨idle, answer⟩ | ⟨q, e, idle, answer⟩
  · rw [answer, Handler.advance, if_pos here.stage]
    exact stands_at here.unended rfl ⟨d, rfl, assigned⟩
  · rw [answer, Handler.advance, if_pos here.stage]
    exact Left.of_idle idle (by simp) (by simp)
  · rw [answer]
    exact left_failed fun _ _ => idle

theorem Stands.register (h : Stands a₀ ms (a₀.run ms))
    (here : (a₀.run ms).handler.IsAt .directorySelected) (r : Registry) (since : Instant) :
    Stands a₀ (ms ++ [.register r since]) ((a₀.run ms).tell r (.register since)) := by
  obtain ⟨d, own, assigned⟩ := (stands_iff_holds here).1 h
  unfold tell
  rw [here.react_eq (by decide), Handler.advance, here.stage, own]
  dsimp only
  unfold Handler.register Registry.add
  dsimp only
  by_cases taken : r.contains d = true
  · rw [if_pos taken]
    have contested : a₀.Met (ms ++ [.register r since]) (Contested d) :=
      .last ⟨here, own, r, since, rfl, taken⟩
    refine Left.mk (fun _ => assigned.destinations) ?_ ?_ ?_
    · intro _ d'
      rw [assigned.directory, Option.some.injEq, Outcome.duplicate.injEq]
    · intro d' eq
      rw [← Outcome.duplicate.inj eq]
      exact contested
    · intro report eq
      cases eq
  · rw [if_neg taken]
    exact stands_at here.unended rfl ⟨d, own, rfl, assigned⟩

theorem Stands.resolve (h : Stands a₀ ms (a₀.run ms))
    (here : (a₀.run ms).handler.IsAt .registered) (look : Dir → Search (Option (List Member))) :
    Stands a₀ (ms ++ [.resolve look])
      ((a₀.run ms).asked (Handler.resolveOn (a₀.run ms).policy look)) := by
  obtain ⟨d, own, slot, assigned⟩ := (stands_iff_holds here).1 h
  unfold asked tell
  rw [here.react_eq (by decide)]
  rcases Handler.resolveOn_cases assigned look with
    ⟨nodes, found, answer⟩ | ⟨q, idle, answer⟩ | ⟨q, e, idle, answer⟩ | answer
  · rw [answer, Handler.advance, if_pos here.stage]
    have finds : a₀.Met (ms ++ [.resolve look]) (Finds d nodes) :=
      .last ⟨here, slot, look, rfl, found⟩
    exact stands_at here.unended rfl ⟨d, nodes, finds, assigned.directory, rfl⟩
  · rw [answer, Handler.advance, here.stage, own]
    exact Left.of_idle idle (by simp) (by simp)
  · rw [answer]
    exact left_failed fun _ _ => idle
  · rw [answer]
    exact left_failed (by simp)

theorem Stands.send (h : Stands a₀ ms (a₀.run ms))
    (here : (a₀.run ms).handler.IsAt .destinationsResolved) (w : World) :
    Stands a₀ (ms ++ [.send w]) ((a₀.run ms).handIn (Handler.jobs (a₀.run ms).policy w)) := by
  obtain ⟨d, nodes, -, directory, -⟩ := (stands_iff_holds here).1 h
  rcases Handler.jobs_cases directory w with ⟨ids, js, -, -, answer⟩ | ⟨q, e, idle, answer⟩
  · have sends : a₀.Met (ms ++ [.send w]) (Sends js) := .last ⟨here, w, rfl, by rw [answer]⟩
    rw [answer, handIn]
    unfold asked tell
    rw [here.react_eq (by decide), Handler.advance, if_pos here.stage]
    exact stands_at here.unended rfl ⟨d, js, directory, sends, rfl⟩
  · rw [answer]
    unfold handIn asked tell
    dsimp only
    rw [here.react_eq (by decide)]
    exact left_failed fun _ _ => idle

theorem Stands.wait (h : Stands a₀ ms a) (here : a.handler.IsAt .jobsSubmitted)
    (more : List Move) : Stands a₀ (ms ++ more) (a.tell {} .wait) := by
  have working : Working a₀ ms a := (stands_iff_holds here).1 h
  unfold tell
  rw [here.react_eq (by decide), Handler.advance, if_pos here.stage]
  exact stands_at here.unended rfl (working.keep rfl rfl more)

theorem Stands.jobsEnded (h : Stands a₀ ms a) (here : a.handler.IsAt .waiting)
    (ended : ∀ j ∈ a.jobs, j.isDone = true) (more : List Move) :
    Stands a₀ (ms ++ more) (a.tell {} .jobsEnded) := by
  have working : Working a₀ ms a := (stands_iff_holds here).1 h
  unfold tell
  rw [here.react_eq (by decide), Handler.advance, if_pos here.stage]
  exact stands_at here.unended rfl ⟨working.keep rfl rfl more, ended⟩

theorem Stands.conclude (h : Stands a₀ ms a) (here : a.handler.IsAt .cleanup)
    (archived : Dir → Except ArchiveError Bool) (moves : Dir → Dir → Bool) (more : List Move) :
    Stands a₀ (ms ++ more) (a.asked (Handler.concludeOn a.policy archived moves a.jobs)) := by
  obtain ⟨⟨d, js, directory, sent, count⟩, ended⟩ := (stands_iff_holds here).1 h
  unfold asked tell
  rw [here.react_eq (by decide)]
  rcases Handler.concludeOn_cases directory archived moves ended with
    ⟨q, report, idle, sum, answer⟩ | ⟨q, e, idle, answer⟩
  · rw [answer, Handler.advance, if_pos here.stage]
    refine Left.of_idle idle (by simp) ?_
    intro report' eq
    rw [← Outcome.completed.inj eq]
    exact ⟨js, sent.append more, sum.trans count⟩
  · rw [answer]
    exact left_failed fun _ _ => idle

theorem Stands.publish (h : Stands a₀ ms a) (closed : a.handler.ending = some o)
    (free : a.handler.slot = none) (more : List Move) :
    Stands a₀ (ms ++ more) (a.tell {} .publish) := by
  have left : Left a₀ ms o a.policy := (stands_iff_left closed).1 h
  unfold tell Handler.react
  rw [closed, free]
  refine stands_at (s := .done) rfl rfl ?_
  intro o' out
  rw [← Option.some.inj out]
  exact left.append more

theorem Stands.letGo (h : Stands a₀ ms a) (closed : a.handler.ending = some o)
    (more : List Move) : Stands a₀ (ms ++ more) (a.tell {} .letGo) := by
  have left : Left a₀ ms o a.policy := (stands_iff_left closed).1 h
  have same : (a.tell {} .letGo).handler.ending = some o := by
    unfold tell Handler.react
    rw [closed]
    cases a.handler.slot with
    | none => exact closed
    | some s => rfl
  exact (stands_iff_left same).2 (left.append more)

theorem stands_broken {e : HandlerEvent} {f : RunFault} (hopen : a.handler.ending = none)
    (undone : a.handler.stage ≠ .done) (ends : (a.handler.advance {} e).2 = a.handler.endFailed f)
    (broken : ∀ e, f ≠ .error e) : Stands a₀ ms (a.tell {} e) := by
  unfold tell
  rw [Handler.react_of_open hopen undone, ends]
  exact left_failed fun e eq => absurd eq (broken e)

theorem stands_step (h : Stands a₀ ms (a₀.run ms)) (m : Move) :
    Stands a₀ (ms ++ [m]) (a₀.run (ms ++ [m])) := by
  rw [run_concat, step]
  split
  case isFalse => exact h.keep rfl rfl rfl id [m]
  case isTrue fits =>
    cases m with
    | select next => exact h.select fits next _
    | register r since => exact h.register fits r since
    | resolve look => exact h.resolve fits look
    | send w => exact h.send fits w
    | mark k m => exact h.mark k m _
    | wait => exact h.wait fits _
    | jobsEnded => exact h.jobsEnded fits.1 fits.2 _
    | conclude archived moves => exact h.conclude fits archived moves _
    | panic => exact stands_broken fits.1 fits.2 rfl (by simp)
    | cancel => exact stands_broken fits.1 fits.2 rfl (by simp)
    | letGo =>
      obtain ⟨o, closed⟩ := Option.isSome_iff_exists.1 fits.1
      exact h.letGo closed _
    | publish =>
      obtain ⟨o, closed⟩ := Option.isSome_iff_exists.1 fits.1
      exact h.publish closed fits.2 _

/-- A run that starts without nodes stands well after any moves. -/
theorem stands_run (h : Stands a₀ [] a₀) (ms : List Move) : Stands a₀ ms (a₀.run ms) := by
  induction ms using List.reverseRecOn with
  | nil => exact h
  | append_singleton ms m ih => exact stands_step ih m

/-! ## What the handler of a run keeps -/

theorem handler_step (a : Round) (m : Move) :
    (a.step m).handler = a.handler ∨
      ∃ r e, (a.step m).handler = (a.handler.react r e).2 := by
  unfold step
  split
  · cases m with
    | mark k m => exact .inl rfl
    | send w =>
      rw [act]
      unfold handIn
      split
      · exact .inr ⟨_, _, rfl⟩
      · exact .inr ⟨_, _, rfl⟩
    | _ => exact .inr ⟨_, _, rfl⟩
  · exact .inl rfl

theorem sound_run (h : a.handler.Sound) (ms : List Move) : (a.run ms).handler.Sound := by
  induction ms generalizing a with
  | nil => exact h
  | cons m ms ih =>
    refine ih ?_
    rcases a.handler_step m with same | ⟨r, e, eq⟩
    · rwa [same]
    · rw [eq]
      exact (a.handler.react_step r e).sound h

theorem left_of_outcome (sound : a.handler.Sound) (h : Stands a₀ ms a)
    (out : a.handler.outcome = some o) : Left a₀ ms o a.policy := by
  have finished := sound.published (by simp [out])
  have held : Holds a₀ ms a .done := (stands_iff_holds ⟨(sound.done finished).1, finished⟩).1 h
  exact held o out

end Round
end Archivist
