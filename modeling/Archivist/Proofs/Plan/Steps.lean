import Archivist.Proofs.Plan.Planned
import Archivist.Proofs.Plan.Stages
set_option autoImplicit false

namespace Archivist

namespace Service

variable {s : Service} {id : RunId} {run : Run} {p q : Policy} {w : World}

/-- The service after some stages of a run, with nothing else happening. -/
def after (s : Service) (id : RunId) (n : Nat) : Service :=
  (List.range n).foldl (fun s _ => s.advance id) s

theorem after_succ (s : Service) (id : RunId) (n : Nat) :
    s.after id (n + 1) = (s.after id n).advance id := by
  unfold after
  rw [List.range_succ, List.foldl_append]
  rfl

theorem after_add (s : Service) (id : RunId) (m n : Nat) :
    s.after id (m + n) = (s.after id m).after id n := by
  induction n with
  | zero => rfl
  | succ n ih => rw [← Nat.add_assoc, after_succ, after_succ, ih]

theorem going_tell (going : s.runs[id]? = some run) (e : HandlerEvent) :
    (s.tell id e).runs[id]? =
      some { run with handler := (run.handler.react s.world.registry e).2 } := by
  unfold Service.tell
  rw [going]
  exact List.getElem?_set_self (List.getElem?_eq_some_iff.1 going).1

/-- Where a run stands, with its policy and the world. -/
structure At (s : Service) (id : RunId) (run : Run) (p : Policy) (w : World) : Prop where
  going : s.runs[id]? = some run
  policy : s.policies[run.policy]? = some p
  world : s.world = w

theorem At.setPolicy (h : s.At id run p w) (q : Policy) :
    (s.setPolicy run.policy q).At id run q w :=
  ⟨h.going, List.getElem?_set_self (List.getElem?_eq_some_iff.1 h.policy).1, h.world⟩

theorem At.tell (h : s.At id run p w) (e : HandlerEvent) :
    (s.tell id e).At id { run with handler := (run.handler.react w.registry e).2 } p
      { w with registry := (run.handler.react w.registry e).1 } := by
  obtain ⟨going, policy, rfl⟩ := h
  refine ⟨going_tell going e, ?_, ?_⟩
  · unfold Service.tell
    rw [going]
    exact policy
  · unfold Service.tell
    rw [going]
    rfl

theorem At.advance_eq (h : s.At id run p w) (hopen : run.handler.ending = none) :
    s.advance id = s.advanceWith id run p := by
  unfold Service.advance
  rw [h.going]
  dsimp only
  rw [if_neg (by simp [hopen]), h.policy]

theorem Keeps.after {js : List JobId} {I : Handler → Prop} (h : s.Keeps id js I)
    (kept : ∀ r h e, I h → I (h.react r e).2)
    (handed : ∀ h, I h → h.stage ≠ .destinationsResolved) (n : Nat) :
    (s.after id n).Keeps id js I := h.advances kept handed id n

theorem handed_of_published {o : Outcome} (h : Handler) (out : Handler.Published o h) :
    h.stage ≠ .destinationsResolved := by
  simp [out.stage]

theorem advance_of_closed {o : Outcome} (going : s.runs[id]? = some run)
    (closed : run.handler.ending = some o) :
    s.advance id = s.tell id (if run.handler.slot.isSome then .letGo else .publish) := by
  unfold Service.advance
  rw [going]
  dsimp only
  rw [if_pos (by simp [closed])]

theorem publish_of_closed {o : Outcome} (going : s.runs[id]? = some run)
    (closed : run.handler.ending = some o) (free : run.handler.slot = none) :
    (s.advance id).Keeps id run.jobs (Handler.Published o) := by
  have reacted : (run.handler.react s.world.registry .publish).2 =
      { run.handler with stage := .done, ending := none, outcome := some o } := by
    simp [Handler.react, closed, free]
  rw [advance_of_closed going closed, free]
  refine ⟨_, going_tell going .publish, rfl, ?_⟩
  rw [reacted]
  exact ⟨rfl, rfl, rfl⟩

theorem published {o : Outcome} (going : s.runs[id]? = some run)
    (closed : run.handler.ending = some o) :
    (s.after id 2).Keeps id run.jobs (Handler.Published o) := by
  have two : s.after id 2 = (s.advance id).advance id := rfl
  rw [two]
  cases holds : run.handler.slot with
  | none =>
    have out := publish_of_closed going closed holds
    exact out.advance (fun r _ e out => out.react r e) handed_of_published id
  | some slot =>
    have reacted : (run.handler.react s.world.registry .letGo).2 =
        { run.handler with slot := none } := by
      simp [Handler.react, closed, holds]
    have gone := going_tell going .letGo
    rw [reacted] at gone
    have out := publish_of_closed gone closed rfl
    rw [advance_of_closed going closed, holds]
    exact out

/-! ## Stage by stage -/

theorem At.asked (h : s.At id run p w) (hopen : run.handler.ending = none)
    (undone : run.handler.stage ≠ .done) {e : HandlerEvent} {r : Registry} {g : Handler}
    (advanced : run.handler.advance w.registry e = (r, g)) :
    ((s.setPolicy run.policy q).tell id e).At id { run with handler := g } q
      { w with registry := r } := by
  have told := (h.setPolicy q).tell e
  rwa [Handler.react_of_open hopen undone, advanced] at told

variable {e : HandlerEvent} {r : Registry} {g : Handler}

theorem At.select (h : s.At id run p w) (hopen : run.handler.ending = none)
    (start : run.handler.stage = .start) (answer : Handler.select p w = (q, e))
    (advanced : run.handler.advance w.registry e = (r, g)) :
    (s.advance id).At id { run with handler := g } q { w with registry := r } := by
  rw [h.advance_eq hopen, advanceWith, start]
  dsimp only
  rw [h.world, answer]
  exact h.asked hopen (by simp [start]) advanced

theorem At.register (h : s.At id run p w) (hopen : run.handler.ending = none)
    (selected : run.handler.stage = .directorySelected)
    (advanced : run.handler.advance w.registry (.register w.clock.now) = (r, g)) :
    (s.advance id).At id { run with handler := g } p { w with registry := r } := by
  have told := h.tell (.register w.clock.now)
  rw [Handler.react_of_open hopen (by simp [selected]), advanced] at told
  rw [h.advance_eq hopen, advanceWith, selected]
  dsimp only
  rw [h.world]
  exact told

theorem At.resolve (h : s.At id run p w) (hopen : run.handler.ending = none)
    (registered : run.handler.stage = .registered) (answer : Handler.resolve p w = (q, e))
    (advanced : run.handler.advance w.registry e = (r, g)) :
    (s.advance id).At id { run with handler := g } q { w with registry := r } := by
  rw [h.advance_eq hopen, advanceWith, registered]
  dsimp only
  rw [h.world, answer]
  exact h.asked hopen (by simp [registered]) advanced

/-! ## The first stages of a new run -/

def freshRun (id : RunId) (name : String) (policy : PolicyId) (x : Executor) : Run :=
  { handler := { owner := .run id, sectionName := name }, policy, executor := x }

theorem at_spawn {pid : PolicyId} (fresh : s.policies[pid]? = some p) (x : Executor) :
    (s.spawn pid x).1.At s.runs.length (freshRun s.runs.length p.section_.name pid x) p s.world := by
  have started : (s.spawn pid x).1 = { s with
      runs := s.runs ++ [freshRun s.runs.length p.section_.name pid x] }.wake
        (.run s.runs.length) := by
    rw [spawn, fresh]
    rfl
  obtain ⟨ts, woken⟩ := wake_eq { s with
    runs := s.runs ++ [freshRun s.runs.length p.section_.name pid x] } (.run s.runs.length)
  rw [started, woken]
  exact ⟨by simp, fresh, rfl⟩

def registeredFor (id : RunId) (name : String) (d : Dir) : Handler :=
  { owner := .run id, sectionName := name, stage := .registered, directory := some d,
    slot := some ⟨d, .run id⟩ }

def registeredIn (w : World) (id : RunId) (name : String) (d : Dir) : World :=
  { w with registry := ⟨[⟨.run id, name, d, w.clock.now⟩]⟩ }

variable {name : String} {pid : PolicyId} {x : Executor}

def selectedFor (id : RunId) (name : String) (d : Dir) : Handler :=
  { owner := .run id, sectionName := name, stage := .directorySelected, directory := some d }

theorem At.selected (h : s.At id (freshRun id name pid x) p w) (free : p.directory = none) :
    (∀ err, p.next w w.clock.now = .error err →
      (s.after id 3).Keeps id [] (Handler.Published (.failed none (.error err)))) ∧
    (p.next w w.clock.now = .ok none → (s.after id 3).Keeps id [] (Handler.Published .noDirectory)) ∧
    ∀ d, p.next w w.clock.now = .ok (some d) →
      (s.after id 1).At id { freshRun id name pid x with handler := selectedFor id name d }
        (p.setDirectory (some d)) w := by
  refine ⟨?_, ?_, ?_⟩
  · intro err next
    have selects : Handler.select p w = Handler.dropped p err := by
      rw [Handler.select, free, next]
    have failed := h.select rfl rfl selects rfl
    exact published failed.going rfl
  · intro next
    have selects : Handler.select p w = (p, .nothingToDo) := by
      rw [Handler.select, free, next]
    have idle := h.select rfl rfl selects rfl
    exact published idle.going rfl
  · intro d next
    have selects : Handler.select p w = (p.setDirectory (some d), .selected d) := by
      rw [Handler.select, free, next]
    exact h.select rfl rfl selects rfl

variable {d : Dir}

theorem At.registered
    (h : s.At id { freshRun id name pid x with handler := selectedFor id name d } p w)
    (empty : w.registry.entries = []) :
    (s.advance id).At id { freshRun id name pid x with handler := registeredFor id name d } p
      (registeredIn w id name d) := by
  have registers : Handler.advance w.registry (selectedFor id name d) (.register w.clock.now) =
      (⟨[⟨.run id, name, d, w.clock.now⟩]⟩, registeredFor id name d) := by
    have alone : w.registry.contains d = false := by
      simp [Registry.contains, Registry.find?, empty]
    unfold Handler.advance selectedFor
    dsimp only
    unfold Handler.register Registry.add
    dsimp only
    rw [if_neg (by simp [alone]), empty]
    rfl
  exact h.register rfl rfl registers

def resolvedRun (id : RunId) (name : String) (pid : PolicyId) (x : Executor) (d : Dir) : Run :=
  { freshRun id name pid x with
    handler := { registeredFor id name d with stage := .destinationsResolved } }

theorem At.resolved
    (h : s.At id { freshRun id name pid x with handler := registeredFor id name d } p w)
    (unfixed : p.destinations = none) :
    (∀ err, p.find w = .error err →
      (s.after id 3).Keeps id [] (Handler.Published (.failed (some d) (.error err)))) ∧
    (p.find w = .answer none →
      (s.after id 3).Keeps id [] (Handler.Published (.noDestination d))) ∧
    ∀ nodes, p.find w = .answer (some nodes) →
      (∀ err, p.freeze (nodes.map (·.id)) = .error err →
        (s.after id 3).Keeps id [] (Handler.Published (.failed (some d) (.error err)))) ∧
      ∀ q, p.freeze (nodes.map (·.id)) = .ok q →
        (s.advance id).At id (resolvedRun id name pid x d) q w := by
  have unset : ¬ p.destinations.isSome = true := by simp [unfixed]
  refine ⟨?_, ?_, ?_⟩
  · intro err find
    have resolves : Handler.resolve p w = Handler.dropped p err := by
      rw [Handler.resolve, if_neg unset, find]
    have failed := h.resolve rfl rfl resolves rfl
    exact published failed.going rfl
  · intro find
    have resolves : Handler.resolve p w = (p.setDirectory none, .noNodes) := by
      rw [Handler.resolve, if_neg unset, find]
    have alone := h.resolve rfl rfl resolves rfl
    exact published alone.going rfl
  · intro nodes find
    refine ⟨?_, ?_⟩
    · intro err freeze
      have resolves : Handler.resolve p w = Handler.dropped p err := by
        rw [Handler.resolve, if_neg unset, find]
        dsimp only
        rw [freeze]
      have failed := h.resolve rfl rfl resolves rfl
      exact published failed.going rfl
    · intro q freeze
      have resolves : Handler.resolve p w = (q, .resolved) := by
        rw [Handler.resolve, if_neg unset, find]
        dsimp only
        rw [freeze]
      exact h.resolve rfl rfl resolves rfl

/-! ## The jobs of a run -/

/-- Makes the jobs of a run and hands them to its executor, one after the other. -/
def handIn (s : Service) (id : RunId) (run : Run) (js : List Job) : Service :=
  ((s.addJobs js).1.setRun id { run with jobs := (s.addJobs js).2 }).submitAll run.executor
    (s.addJobs js).2

theorem setPolicy_same (h : s.policies[pid]? = some p) : s.setPolicy pid p = s := by
  obtain ⟨bound, rfl⟩ := List.getElem?_eq_some_iff.1 h
  unfold setPolicy
  rw [List.set_getElem_self bound]

theorem At.sends (h : s.At id (resolvedRun id name pid x d) p w) :
    (∀ err, p.send w = .error err →
      (s.after id 3).Keeps id [] (Handler.Published (.failed (some d) (.error err)))) ∧
    ∀ js, p.send w = .ok js →
      s.advance id = (s.handIn id (resolvedRun id name pid x d) js).tell id .submitted := by
  have stage : (resolvedRun id name pid x d).handler.stage = .destinationsResolved := rfl
  refine ⟨?_, ?_⟩
  · intro err send
    have asked : s.advance id = (s.setPolicy (resolvedRun id name pid x d).policy
        (p.setDirectory none)).tell id (.failed err) := by
      rw [h.advance_eq rfl, advanceWith, stage]
      dsimp only
      rw [h.world, Handler.jobs, send]
      rfl
    have failed := h.asked (q := p.setDirectory none) rfl (by simp [stage])
      (e := .failed err) rfl
    rw [← asked] at failed
    exact published failed.going rfl
  · intro js send
    rw [h.advance_eq rfl, advanceWith, stage]
    dsimp only
    rw [h.world, Handler.jobs, send]
    dsimp only
    rw [setPolicy_same h.policy]
    rfl

theorem going_handIn (going : s.runs[id]? = some run) (js : List Job) :
    (s.handIn id run js).runs[id]? = some { run with jobs := (s.addJobs js).2 } := by
  unfold handIn
  rw [runs_submitAll]
  exact List.getElem?_set_self (List.getElem?_eq_some_iff.1 going).1

theorem late_of_handIn (going : s.runs[id]? = some (resolvedRun id name pid x d)) (js : List Job) :
    ((s.handIn id (resolvedRun id name pid x d) js).tell id .submitted).Keeps id (s.addJobs js).2
      Handler.Late := by
  refine ⟨_, going_tell (going_handIn going js) .submitted, rfl, .inl rfl, ?_, ?_⟩
  · intro o closed
    cases closed
  · intro o out
    cases out

theorem At.wait (h : s.At id run p w) (hopen : run.handler.ending = none)
    (submitted : run.handler.stage = .jobsSubmitted) :
    (s.advance id).At id { run with handler := { run.handler with stage := .waiting } } p w := by
  have told := h.tell .wait
  have advanced : run.handler.advance w.registry .wait =
      (w.registry, { run.handler with stage := .waiting }) := by
    rw [Handler.advance, if_pos submitted]
  rw [Handler.react_of_open hopen (by simp [submitted]), advanced] at told
  rw [h.advance_eq hopen, advanceWith, submitted]
  exact told

theorem At.jobsEnded (h : s.At id run p w) (hopen : run.handler.ending = none)
    (waiting : run.handler.stage = .waiting) (none : run.jobs = []) :
    (s.advance id).At id { run with handler := { run.handler with stage := .cleanup } } p w := by
  have told := h.tell .jobsEnded
  have advanced : run.handler.advance w.registry .jobsEnded =
      (w.registry, { run.handler with stage := .cleanup }) := by
    rw [Handler.advance, if_pos waiting]
  rw [Handler.react_of_open hopen (by simp [waiting]), advanced] at told
  rw [h.advance_eq hopen, advanceWith, waiting]
  dsimp only
  rw [if_pos (by simp [awaited, none])]
  exact told

theorem At.clean (h : s.At id run p w) (hopen : run.handler.ending = none)
    (cleanup : run.handler.stage = .cleanup) (none : run.jobs = []) {w' : World} {report : Report}
    (judged : p.cleanup w [] = .ok (q, w', report)) :
    ∃ run', (s.advance id).runs[id]? = some run' ∧ run'.jobs = [] ∧
      run'.handler.ending = some (.completed report) := by
  have answer : Handler.conclude p w [] = (q, w', .cleaned report) := by
    rw [Handler.conclude, judged]
  have told : s.advance id =
      ({ s with world := w' }.setPolicy run.policy q).tell id (.cleaned report) := by
    rw [h.advance_eq hopen, advanceWith, cleanup]
    dsimp only
    rw [none, List.filterMap_nil, h.world, answer]
  have going : ({ s with world := w' }.setPolicy run.policy q).runs[id]? = some run := h.going
  have gone := going_tell going (.cleaned report)
  rw [← told] at gone
  refine ⟨_, gone, none, ?_⟩
  dsimp only
  rw [Handler.react_of_open hopen (by simp [cleanup]), Handler.advance]
  dsimp only
  rw [if_pos cleanup]
  rfl

theorem At.completed (h : s.At id (resolvedRun id name pid x d) p w) (send : p.send w = .ok []) :
    ∃ report, (s.after id 6).Keeps id [] (Handler.Published (.completed report)) := by
  have handed : (s.handIn id (resolvedRun id name pid x d) []).At id (resolvedRun id name pid x d)
      p w := ⟨going_handIn h.going [], h.policy, h.world⟩
  have submitted : (s.advance id).At id { resolvedRun id name pid x d with
      handler := { registeredFor id name d with stage := .jobsSubmitted } } p w := by
    rw [h.sends.2 [] send]
    exact handed.tell .submitted
  have waits := submitted.wait rfl rfl
  have ended := waits.jobsEnded rfl rfl rfl
  obtain ⟨q, w', report, judged⟩ := Policy.cleanup_of_send send []
  obtain ⟨run', going, jobs, closed⟩ := ended.clean rfl rfl rfl judged
  have out := published going closed
  rw [jobs] at out
  exact ⟨report, out⟩

end Service
end Archivist
