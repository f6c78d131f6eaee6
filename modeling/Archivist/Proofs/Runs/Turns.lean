import Archivist.Proofs.Plan.Steps
import Archivist.Proofs.Runs.Reuse
import Mathlib.Logic.Relation
set_option autoImplicit false

/-!
# Rounds of a service

A run of a service moves as a round does.  Each of its turns is a list of moves, with the answers
that the world of the service gives at that moment, and what others do to its jobs in between are
moves as well.  So whatever holds of all rounds holds of the runs of a service and their policies.
-/

namespace Archivist

namespace Handler

theorem react_of_ne_register (h : Handler) {e : HandlerEvent} (other : ∀ since, e ≠ .register since)
    (r r' : Registry) : (h.react r e).2 = (h.react r' e).2 := by
  unfold react
  cases h.ending with
  | none =>
    dsimp only
    split
    · rfl
    · cases e with
      | register since => exact absurd rfl (other since)
      | selected d | nothingToDo | noNodes =>
        unfold advance
        dsimp only
        split <;> rfl
      | _ => rfl
  | some o => cases e <;> cases h.slot <;> rfl

variable {p : Policy} {since : Instant}

theorem selectOn_ne_register (next : Except ArchiveError (Option Dir)) :
    (selectOn p next).2 ≠ .register since := by
  unfold selectOn dropped
  repeat' split
  all_goals simp

theorem resolveOn_ne_register (look : Dir → Search (Option (List Member))) :
    (resolveOn p look).2 ≠ .register since := by
  unfold resolveOn settle dropped
  repeat' split
  all_goals simp

theorem concludeOn_ne_register (archived : Dir → Except ArchiveError Bool)
    (moves : Dir → Dir → Bool) (js : List Job) :
    (concludeOn p archived moves js).2 ≠ .register since := by
  unfold concludeOn dropped
  split <;> simp

end Handler

theorem Round.tell_of_ne_register (a : Round) {e : HandlerEvent}
    (other : ∀ since, e ≠ .register since) (r r' : Registry) : a.tell r e = a.tell r' e := by
  unfold tell
  rw [a.handler.react_of_ne_register other r r']

def Mark.onAll (marks : List (JobId × Mark)) (jobs : List Job) : List Job :=
  marks.foldl (fun js x => js.modify x.1 x.2.on) jobs

theorem Mark.onAll_append (marks more : List (JobId × Mark)) (jobs : List Job) :
    Mark.onAll (marks ++ more) jobs = Mark.onAll more (Mark.onAll marks jobs) := List.foldl_append

theorem Mark.set_on {jobs : List Job} {k : JobId} {j : Job} (hget : jobs[k]? = some j) (m : Mark) :
    jobs.set k (m.on j) = jobs.modify k m.on := by
  apply List.ext_getElem?
  intro i
  rw [List.getElem?_set', List.getElem?_modify]
  by_cases here : k = i
  · subst here
    simp [hget]
  · simp [here]

theorem getElem?_modify_of_ne {xs : List Job} {i j : Nat} (ne : i ≠ j) (f : Job → Job) :
    (xs.modify i f)[j]? = xs[j]? := by
  rw [List.getElem?_modify]
  simp [ne]

theorem Round.run_marks (marks : List (Nat × Mark)) (a : Round) :
    a.run (marks.map fun x => .mark x.1 x.2) = { a with jobs := Mark.onAll marks a.jobs } := by
  induction marks generalizing a with
  | nil => rfl
  | cons x marks ih => exact ih { a with jobs := a.jobs.modify x.1 x.2.on }

theorem map_getElem?_modify {ids : List Nat} {xs ys : List Job} (once : ids.Nodup)
    (same : ids.map (fun j => xs[j]?) = ys.map some) (i : Nat) (f : Job → Job) :
    (∃ k, ids.map (fun j => (xs.modify i f)[j]?) = (ys.modify k f).map some) ∨
      ids.map (fun j => (xs.modify i f)[j]?) = ys.map some := by
  by_cases mem : i ∈ ids
  · left
    obtain ⟨k, bound, hget⟩ := List.mem_iff_getElem.1 mem
    refine ⟨k, List.ext_getElem? fun n => ?_⟩
    have here : (ids[n]?).map (fun j => xs[j]?) = (ys[n]?).map some := by
      rw [← List.getElem?_map, same, List.getElem?_map]
    rw [List.getElem?_map, List.getElem?_map]
    by_cases eq : k = n
    · subst eq
      rw [List.getElem?_eq_getElem bound, hget] at here ⊢
      rw [Option.map_some] at here ⊢
      obtain ⟨y, there, found⟩ := Option.map_eq_some_iff.1 here.symm
      simp [there, ← found]
    · rw [getElem?_modify_of_ne eq, ← here]
      refine Option.map_congr fun j hj => ?_
      have other : i ≠ j := by
        rintro rfl
        obtain ⟨bound', hget'⟩ := List.getElem?_eq_some_iff.1 hj
        exact eq ((once.getElem_inj_iff).1 (hget.trans hget'.symm))
      exact getElem?_modify_of_ne other f
  · right
    rw [← same]
    refine List.map_congr_left fun j hj => getElem?_modify_of_ne ?_ f
    rintro rfl
    exact mem hj

namespace Service

variable {s s' : Service} {id : RunId} {run : Run} {a : Round}

/-- What a service has of a round: the run with its handler, the policy, and the jobs under their
numbers. -/
structure Shows (s : Service) (id : RunId) (run : Run) (a : Round) : Prop where
  stands : s.At id run a.policy s.world
  handler : run.handler = a.handler
  once : run.jobs.Nodup
  jobs : run.jobs.map (fun j => s.jobs[j]?) = a.jobs.map some

theorem Shows.filterMap (h : s.Shows id run a) :
    run.jobs.filterMap (fun j => s.jobs[j]?) = a.jobs := by
  have same := congrArg (List.filterMap fun x => x) h.jobs
  rw [List.filterMap_map, List.filterMap_map] at same
  exact same.trans List.filterMap_some

theorem Shows.job_of_mem (h : s.Shows id run a) {j : Job} (hj : j ∈ a.jobs) :
    ∃ k ∈ run.jobs, s.jobs[k]? = some j := by
  rw [← h.filterMap] at hj
  exact List.mem_filterMap.1 hj

/-- Others go on: the run and its policy stay, jobs are marked and new ones made, and all else
changes at will. -/
structure Around (id : RunId) (s s' : Service) : Prop where
  run : s'.runs[id]? = s.runs[id]?
  policy : ∀ run, s.runs[id]? = some run → s'.policies[run.policy]? = s.policies[run.policy]?
  jobs : ∃ marks more, s'.jobs = Mark.onAll marks s.jobs ++ more

theorem Shows.marks (h : s.Shows id run a) (marks : List (JobId × Mark)) :
    ∃ own, Shows { s with jobs := Mark.onAll marks s.jobs } id run
      { a with jobs := Mark.onAll own a.jobs } := by
  induction marks generalizing s a with
  | nil => exact ⟨[], h⟩
  | cons x marks ih =>
    have first : ∃ own, Shows { s with jobs := s.jobs.modify x.1 x.2.on } id run
        { a with jobs := Mark.onAll own a.jobs } := by
      rcases map_getElem?_modify h.once h.jobs x.1 x.2.on with ⟨k, moved⟩ | stays
      · exact ⟨[(k, x.2)], ⟨h.stands.going, h.stands.policy, rfl⟩, h.handler, h.once, moved⟩
      · exact ⟨[], ⟨h.stands.going, h.stands.policy, rfl⟩, h.handler, h.once, stays⟩
    obtain ⟨own, marked⟩ := first
    obtain ⟨rest, shows⟩ := ih marked
    refine ⟨own ++ rest, ?_⟩
    rw [Mark.onAll_append]
    exact shows

theorem Shows.around (h : s.Shows id run a) (around : Around id s s') :
    ∃ own, s'.Shows id run { a with jobs := Mark.onAll own a.jobs } := by
  obtain ⟨marks, more, jobs⟩ := around.jobs
  obtain ⟨own, marked⟩ := h.marks marks
  refine ⟨own, ⟨around.run.trans h.stands.going, ?_, rfl⟩, marked.handler, h.once, ?_⟩
  · rw [around.policy run h.stands.going]
    exact marked.stands.policy
  · rw [← marked.jobs]
    refine List.map_congr_left fun j hj => ?_
    -- a job of the run is there already, so that none of the new ones has its number
    have there : (Mark.onAll marks s.jobs)[j]? ≠ none := by
      intro missing
      have entry : none ∈ (Mark.onAll own a.jobs).map some := by
        rw [← marked.jobs]
        exact List.mem_map.2 ⟨j, hj, missing⟩
      simp at entry
    have bound : j < (Mark.onAll marks s.jobs).length := by simpa using there
    dsimp only
    rw [jobs, List.getElem?_append_left bound]

theorem around_setJob (id : RunId) (s : Service) {k : JobId} {j : Job}
    (hget : s.jobs[k]? = some j) (m : Mark) :
    Around id s (s.setJob k (m.on j)) := by
  obtain ⟨ts, eq⟩ := setJob_eq s k (m.on j)
  rw [eq]
  refine ⟨rfl, fun _ _ => rfl, [(k, m)], [], ?_⟩
  rw [List.append_nil]
  exact Mark.set_on hget m

theorem around_submit {k : JobId} {j : Job} {x : Executor} (hget : s.jobs[k]? = some j)
    (h : s.submit k j x = .ok s') : Around id s s' := by
  unfold submit at h
  cases x with
  | instant =>
    dsimp only at h
    unfold record at h
    cases listed : s.world.namespace_.addReplica j.file.path (s.nodeOf j).name with
    | error e =>
      rw [listed] at h
      cases h
    | ok ns =>
      rw [listed] at h
      cases h
      have set := around_setJob id (s.setNamespace ns) hget (.done (assumed j))
      exact ⟨set.run, set.policy, set.jobs⟩
  | rejecting => cases h
  | gated =>
    cases h
    have set := around_setJob id { s with held := s.held ++ [k] } hget .transferring
    exact ⟨set.run, set.policy, set.jobs⟩
  | managed m =>
    dsimp only at h
    split at h
    · cases h
    · cases h
      obtain ⟨ts, eq⟩ := wake_eq { s with managers := _ } (Task.job m k)
      rw [eq]
      exact ⟨rfl, fun _ _ => rfl, [], [], (List.append_nil _).symm⟩

theorem Shows.submitAll (h : s.Shows id run a) (x : Executor) (ks : List JobId) :
    ∃ own, (s.submitAll x ks).Shows id run { a with jobs := Mark.onAll own a.jobs } := by
  induction ks generalizing s a with
  | nil => exact ⟨[], h⟩
  | cons k ks ih =>
    have first : ∃ own, (s.submitAll x [k]).Shows id run
        { a with jobs := Mark.onAll own a.jobs } := by
      unfold Service.submitAll
      rw [List.foldl_cons, List.foldl_nil]
      split
      · exact ⟨[], h⟩
      · rename_i j hget
        split
        · rename_i s' taken
          exact h.around (around_submit hget taken)
        · exact h.around (around_setJob id s hget (.failed _))
    obtain ⟨own, submitted⟩ := first
    obtain ⟨rest, shows⟩ := ih submitted
    refine ⟨own ++ rest, ?_⟩
    rw [Mark.onAll_append]
    exact shows

theorem Shows.tell (h : s.Shows id run a) (e : HandlerEvent) :
    ∃ run', run'.policy = run.policy ∧
      (s.tell id e).Shows id run' (a.tell s.world.registry e) := by
  have told := h.stands.tell e
  refine ⟨{ run with handler := (run.handler.react s.world.registry e).2 }, rfl,
    ⟨told.going, told.policy, rfl⟩, ?_, h.once, ?_⟩
  · rw [h.handler]
    rfl
  · unfold Service.tell
    rw [h.stands.going]
    exact h.jobs

theorem Shows.tell_other (h : s.Shows id run a) {e : HandlerEvent}
    (other : ∀ since, e ≠ .register since) :
    ∃ run', run'.policy = run.policy ∧ (s.tell id e).Shows id run' (a.tell {} e) := by
  have told := h.tell e
  rwa [Round.tell_of_ne_register _ other _ {}] at told

theorem Shows.asked (h : s.Shows id run a) (answer : Policy × HandlerEvent)
    (other : ∀ since, answer.2 ≠ .register since) :
    ∃ run', run'.policy = run.policy ∧
      ((s.setPolicy run.policy answer.1).tell id answer.2).Shows id run' (a.asked answer) := by
  have set : (s.setPolicy run.policy answer.1).Shows id run { a with policy := answer.1 } :=
    ⟨h.stands.setPolicy answer.1, h.handler, h.once, h.jobs⟩
  exact set.tell_other other

theorem Shows.handIn (h : s.Shows id run a) (js : List Job) :
    ∃ own run', run'.policy = run.policy ∧ ((s.handIn id run js).tell id .submitted).Shows id run'
      { a.tell {} .submitted with jobs := Mark.onAll own js } := by
  have made : ((s.addJobs js).1.setRun id { run with jobs := (s.addJobs js).2 }).Shows id
      { run with jobs := (s.addJobs js).2 } { a with jobs := js } := by
    have bound := (List.getElem?_eq_some_iff.1 h.stands.going).1
    refine ⟨⟨List.getElem?_set_self bound, h.stands.policy, rfl⟩, h.handler, ?_, ?_⟩
    · exact (List.nodup_range).map fun i j eq => Nat.add_left_cancel eq
    · apply List.ext_getElem?
      intro i
      unfold Service.addJobs Service.setRun
      rw [List.getElem?_map, List.getElem?_map, List.getElem?_map]
      by_cases inside : i < js.length
      · simp [inside]
      · simp [inside]
  obtain ⟨own, submitted⟩ := made.submitAll run.executor (s.addJobs js).2
  exact ⟨own, submitted.tell_other (by simp)⟩

/-- What a service comes to is what some moves lead to. -/
def Tracks (s : Service) (id : RunId) (run : Run) (a : Round) : Prop :=
  ∃ ms run', run'.policy = run.policy ∧ s.Shows id run' (a.run ms)

theorem Tracks.of_act {m : Round.Move} (fits : a.Fits m)
    (h : ∃ run', run'.policy = run.policy ∧ s.Shows id run' (a.act m)) : s.Tracks id run a := by
  obtain ⟨run', same, shows⟩ := h
  have once : a.run [m] = a.act m := Round.step_of_fits fits
  exact ⟨[m], run', same, by rwa [once]⟩

theorem Tracks.trans {run' : Run} {ms : List Round.Move} (same : run'.policy = run.policy)
    (h : s.Tracks id run' (a.run ms)) : s.Tracks id run a := by
  obtain ⟨ns, run'', same', shows⟩ := h
  refine ⟨ms ++ ns, run'', same'.trans same, ?_⟩
  rwa [Round.run_append]

theorem Shows.advance_closed (h : s.Shows id run a) {o : Outcome}
    (closed : a.handler.ending = some o) : (s.advance id).Tracks id run a := by
  have closed' : run.handler.ending = some o := by rw [h.handler, closed]
  rw [advance_of_closed h.stands.going closed', h.handler]
  cases slot : a.handler.slot with
  | some l =>
    exact .of_act (m := .letGo) ⟨by simp [closed], by simp [slot]⟩ (h.tell_other (by simp))
  | none =>
    exact .of_act (m := .publish) ⟨by simp [closed], slot⟩ (h.tell_other (by simp))

theorem Shows.ended (h : s.Shows id run a) (stage : a.handler.stage = .waiting)
    (none : s.awaited run = none) : ∀ j ∈ a.jobs, j.isDone = true := by
  intro j hj
  obtain ⟨k, listed, hget⟩ := h.job_of_mem hj
  unfold awaited at none
  rw [h.handler, if_pos stage] at none
  have closed := List.find?_eq_none.1 none k listed
  unfold isOpenJob at closed
  rw [hget] at closed
  simpa using closed

theorem Shows.sends (h : s.Shows id run a) (here : a.handler.IsAt .destinationsResolved) :
    (s.advanceWith id run a.policy).Tracks id run a := by
  have stage : run.handler.stage = .destinationsResolved := by rw [h.handler, here.stage]
  rw [advanceWith, stage]
  dsimp only
  cases sent : a.policy.send s.world with
  | error e =>
    have answer : Handler.jobs a.policy s.world = (a.policy.setDirectory none, .failed e, []) := by
      rw [Handler.jobs, sent]
      rfl
    refine .of_act (m := .send s.world) here ?_
    rw [Round.act, answer]
    exact h.asked (_, .failed e) (by simp)
  | ok js =>
    have answer : Handler.jobs a.policy s.world = (a.policy, .submitted, js) := by
      rw [Handler.jobs, sent]
    obtain ⟨own, run', same, shows⟩ := h.handIn js
    rw [answer]
    dsimp only
    rw [setPolicy_same h.stands.policy]
    refine ⟨.send s.world :: own.map fun x => .mark x.1 x.2, run', same, ?_⟩
    have first : a.step (.send s.world) = { a.tell {} .submitted with jobs := js } := by
      rw [Round.step_of_fits (m := .send s.world) here, Round.act, answer]
      rfl
    rw [Round.run_cons, first, Round.run_marks]
    exact shows

theorem Shows.concludes (h : s.Shows id run a) (here : a.handler.IsAt .cleanup) :
    (s.advanceWith id run a.policy).Tracks id run a := by
  unfold advanceWith
  rw [h.handler, here.stage]
  dsimp only
  rw [h.filterMap]
  have answer := Handler.conclude_eq_concludeOn a.policy s.world a.jobs
  generalize Handler.conclude a.policy s.world a.jobs = x at answer ⊢
  obtain ⟨policy, world, event⟩ := x
  refine .of_act (m := .conclude (a.policy.isArchived s.world) (Policy.movesIn s.world)) here ?_
  rw [Round.act, ← answer]
  have moved : ({ s with world }).Shows id run a :=
    ⟨⟨h.stands.going, h.stands.policy, rfl⟩, h.handler, h.once, h.jobs⟩
  refine moved.asked (policy, event) fun since eq => ?_
  exact Handler.concludeOn_ne_register _ _ _ (answer ▸ eq)

theorem Shows.advance (h : s.Shows id run a) : (s.advance id).Tracks id run a := by
  cases ending : a.handler.ending with
  | some o => exact h.advance_closed ending
  | none =>
    have hopen : run.handler.ending = none := by rw [h.handler, ending]
    rw [h.stands.advance_eq hopen]
    have stage_eq : run.handler.stage = a.handler.stage := by rw [h.handler]
    cases stage : a.handler.stage with
    | start =>
      refine .of_act (m := .select (a.policy.next s.world s.world.clock.now)) ⟨ending, stage⟩ ?_
      rw [advanceWith, stage_eq, stage]
      dsimp only
      rw [Handler.select_eq_selectOn]
      exact h.asked _ fun _ => Handler.selectOn_ne_register _
    | directorySelected =>
      refine .of_act (m := .register s.world.registry s.world.clock.now) ⟨ending, stage⟩ ?_
      rw [advanceWith, stage_eq, stage]
      exact h.tell _
    | registered =>
      refine .of_act (m := .resolve (a.policy.lookIn s.world)) ⟨ending, stage⟩ ?_
      rw [advanceWith, stage_eq, stage]
      dsimp only
      rw [Handler.resolve_eq_resolveOn]
      exact h.asked _ fun _ => Handler.resolveOn_ne_register _
    | destinationsResolved => exact h.sends ⟨ending, stage⟩
    | jobsSubmitted =>
      refine .of_act (m := .wait) ⟨ending, stage⟩ ?_
      rw [advanceWith, stage_eq, stage]
      exact h.tell_other (by simp)
    | waiting =>
      rw [advanceWith, stage_eq, stage]
      dsimp only
      cases awaited : s.awaited run with
      | some k => exact ⟨[], run, rfl, h⟩
      | none =>
        exact .of_act (m := .jobsEnded) ⟨⟨ending, stage⟩, h.ended stage awaited⟩
          (h.tell_other (by simp))
    | cleanup => exact h.concludes ⟨ending, stage⟩
    | done =>
      rw [advanceWith, stage_eq, stage]
      exact ⟨[], run, rfl, h⟩

theorem Shows.cancel (h : s.Shows id run a) : (s.tell id .cancelled).Tracks id run a := by
  have told := h.tell_other (e := .cancelled) (by simp)
  by_cases going : a.handler.ending = none ∧ a.handler.stage ≠ .done
  · exact .of_act (m := .cancel) going told
  · -- a run that is over, or whose end is known, does not hear of it
    have same : a.tell {} .cancelled = a := by
      unfold Round.tell Handler.react
      cases ending : a.handler.ending with
      | some o => rfl
      | none =>
        have finished : a.handler.stage = .done := by
          by_contra undone
          exact going ⟨ending, undone⟩
        simp [finished]
    obtain ⟨run', policy, shows⟩ := told
    rw [same] at shows
    exact ⟨[], run', policy, shows⟩

theorem Tracks.advance (h : s.Tracks id run a) : (s.advance id).Tracks id run a := by
  obtain ⟨ms, run', same, shows⟩ := h
  exact .trans same shows.advance

theorem Tracks.goOn (h : s.Tracks id run a) : (s.goOn id).Tracks id run a := by
  obtain ⟨ms, run', same, shows⟩ := h
  have heard : ∀ asked : Bool,
      (if asked then s.tell id .cancelled else s).Tracks id run a := by
    intro asked
    cases asked with
    | true => exact .trans same shows.cancel
    | false => exact ⟨ms, run', same, shows⟩
  unfold Service.goOn
  rw [shows.stands.going]
  dsimp only
  generalize List.range stages = turns
  have start := heard (run'.cancelRequested && !run'.isOver)
  generalize (if (run'.cancelRequested && !run'.isOver) = true then s.tell id .cancelled
    else s) = s₀ at start ⊢
  induction turns generalizing s₀ with
  | nil => exact start
  | cons _ turns ih => exact ih _ start.advance

inductive Turn (id : RunId) : Service → Service → Prop where
  | own (s : Service) : Turn id s (s.goOn id)
  | others {s s' : Service} (h : Around id s s') : Turn id s s'

/-- A run of a service is a round, whatever others do. -/
theorem Tracks.turns (h : s.Tracks id run a) (turns : Relation.ReflTransGen (Turn id) s s') :
    s'.Tracks id run a := by
  induction turns with
  | refl => exact h
  | tail _ turn ih =>
    cases turn with
    | own => exact ih.goOn
    | others around =>
      obtain ⟨ms, run', same, shows⟩ := ih
      obtain ⟨own, shows⟩ := shows.around around
      have marked : Tracks _ id run' (a.run ms) :=
        ⟨own.map fun x => .mark x.1 x.2, run', rfl, by rwa [Round.run_marks]⟩
      exact .trans same marked

/-- A policy without nodes is used for a new run of a service.  Whatever goes on meanwhile, once the
run has returned the policy has no nodes, and a directory exactly if another handler works on it. -/
theorem spawn_turns_destinations {pid : PolicyId} {p : Policy}
    (policy : s.policies[pid]? = some p) (unfixed : p.destinations = none) (x : Executor)
    (turns : Relation.ReflTransGen (Turn s.runs.length) (s.spawn pid x).1 s') :
    ∃ run q, s'.runs[s.runs.length]? = some run ∧ s'.policies[pid]? = some q ∧
      ∀ o, run.handler.outcome = some o → o.IsReturned →
        q.destinations = none ∧ ∀ d, q.directory = some d ↔ o = .duplicate d := by
  have new := at_spawn policy x
  let errand : List Round.Move → Errand := fun moves => ⟨.run s.runs.length, [], moves⟩
  have start : (s.spawn pid x).1.Shows s.runs.length
      (freshRun s.runs.length p.section_.name pid x) ((errand []).opened p) :=
    ⟨⟨new.going, new.policy, rfl⟩, rfl, List.nodup_nil, rfl⟩
  obtain ⟨ms, run, same, shows⟩ := Tracks.turns ⟨[], _, rfl, start⟩ turns
  refine ⟨run, _, shows.stands.going, same ▸ shows.stands.policy, ?_⟩
  intro o out ended
  rw [shows.handler] at out
  have left := (errand ms).left unfixed out
  exact ⟨left.destinations ended, left.directory ended⟩

end Service
end Archivist
