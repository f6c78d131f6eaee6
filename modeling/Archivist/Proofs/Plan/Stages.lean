import Archivist.Proofs.Copy.Turns
set_option autoImplicit false

namespace Archivist

namespace Handler

def Worked : Outcome → Prop
  | .completed _ | .failed _ _ => True
  | _ => False

structure Late (h : Handler) : Prop where
  stage : h.stage = .jobsSubmitted ∨ h.stage = .waiting ∨ h.stage = .cleanup ∨ h.stage = .done
  ending : ∀ o, h.ending = some o → Worked o
  outcome : ∀ o, h.outcome = some o → Worked o

theorem Late.endWith {h : Handler} (late : h.Late) {o : Outcome} (worked : Worked o) :
    (h.endWith o).Late :=
  ⟨late.stage, fun _ eq => Option.some.inj eq ▸ worked, late.outcome⟩

theorem Late.advance {h : Handler} (late : h.Late) (r : Registry) (e : HandlerEvent) :
    (h.advance r e).2.Late := by
  have moved : ∀ s, (s = .waiting ∨ s = .cleanup) → Late { h with stage := s } := by
    intro s later
    refine ⟨?_, late.ending, late.outcome⟩
    rcases later with rfl | rfl <;> simp
  have stage := late.stage
  cases e with
  | selected d =>
    rw [Handler.advance, if_neg (by rintro eq; simp [eq] at stage)]
    exact late
  | nothingToDo =>
    rw [Handler.advance, if_neg (by rintro eq; simp [eq] at stage)]
    exact late
  | register since =>
    rw [Handler.advance]
    split
    · rename_i eq _
      simp [eq] at stage
    · exact late
  | resolved =>
    rw [Handler.advance, if_neg (by rintro eq; simp [eq] at stage)]
    exact late
  | noNodes =>
    rw [Handler.advance]
    split
    · rename_i eq _
      simp [eq] at stage
    · exact late
  | submitted =>
    rw [Handler.advance, if_neg (by rintro eq; simp [eq] at stage)]
    exact late
  | wait =>
    rw [Handler.advance]
    dsimp only
    split
    · exact moved _ (.inl rfl)
    · exact late
  | jobsEnded =>
    rw [Handler.advance]
    dsimp only
    split
    · exact moved _ (.inr rfl)
    · exact late
  | cleaned report =>
    rw [Handler.advance]
    dsimp only
    split
    · exact late.endWith trivial
    · exact late
  | failed e => exact late.endWith trivial
  | panicked => exact late.endWith trivial
  | cancelled => exact late.endWith trivial
  | letGo => exact late
  | publish => exact late

theorem Late.react {h : Handler} (late : h.Late) (r : Registry) (e : HandlerEvent) :
    (h.react r e).2.Late := by
  unfold Handler.react
  split
  · split
    · exact late
    · exact late.advance r _
  · split
    · exact ⟨late.stage, late.ending, late.outcome⟩
    · exact late
  · rename_i o closed
    split
    · exact late
    · refine ⟨by simp, by simp, ?_⟩
      intro o' eq
      cases eq
      exact late.ending o closed
  · exact late

structure Published (o : Outcome) (h : Handler) : Prop where
  stage : h.stage = .done
  ending : h.ending = none
  outcome : h.outcome = some o

theorem Published.react {o : Outcome} {h : Handler} (out : Published o h) (r : Registry)
    (e : HandlerEvent) : Published o (h.react r e).2 := by
  rw [react_of_done out.ending out.stage]
  exact out

end Handler

namespace Service

variable {s s' : Service} {id : RunId}

@[simp] theorem runs_wake (s : Service) (t : Task) : (s.wake t).runs = s.runs := by
  obtain ⟨ts, eq⟩ := wake_eq s t
  rw [eq]

@[simp] theorem runs_setJob (s : Service) (j : JobId) (job : Job) :
    (s.setJob j job).runs = s.runs := by
  obtain ⟨ts, eq⟩ := setJob_eq s j job
  rw [eq]

theorem runs_submit {j : JobId} {job : Job} {e : Executor} (h : s.submit j job e = .ok s') :
    s'.runs = s.runs := by
  unfold submit at h
  cases e with
  | instant =>
    dsimp only at h
    unfold record at h
    cases listed : s.world.namespace_.addReplica job.file.path (s.nodeOf job).name with
    | error e =>
      rw [listed] at h
      cases h
    | ok ns =>
      rw [listed] at h
      cases h
      exact runs_setJob _ _ _
  | rejecting => cases h
  | gated =>
    cases h
    exact runs_setJob _ _ _
  | managed m =>
    dsimp only at h
    split at h
    · cases h
    · cases h
      exact runs_wake _ _

@[simp] theorem runs_submitAll (e : Executor) (ids : List JobId) (s : Service) :
    (s.submitAll e ids).runs = s.runs := by
  unfold submitAll
  induction ids generalizing s with
  | nil => rfl
  | cons j ids ih =>
    rw [List.foldl_cons, ih]
    split
    · rfl
    · split
      · rename_i s' taken
        exact runs_submit taken
      · exact runs_setJob _ _ _

@[simp] theorem runs_manage (s : Service) (m : ManagerId) (j : JobId) (e : ManagerEvent) :
    (s.manage m j e).runs = s.runs := by
  cases led : s.managers[m]? with
  | none =>
    unfold manage
    rw [led]
  | some manager =>
    cases job : s.jobs[j]? with
    | none =>
      unfold manage
      rw [led, job]
    | some x =>
      obtain ⟨ts, eq⟩ := manage_eq led job e
      rw [eq]

@[simp] theorem runs_launch (s : Service) (m : ManagerId) (j : JobId) :
    (s.launch m j).runs = s.runs := by
  rcases launch_cases s m j with eq | eq | eq <;> simp [eq]

theorem runs_act (s : Service) (job : Job) (a : Act) : (s.act job a).1.runs = s.runs := by
  obtain ⟨offline, moved, panics, result⟩ := a
  unfold act
  dsimp only
  cases moved with
  | none => cases panics <;> cases result <;> rfl
  | some dirs =>
    dsimp only
    -- the move may be refused, and then what the runner tells comes in three forms
    repeat' split
    all_goals rfl

theorem runs_work (s : Service) (job : Job) (r : Runner) : (s.work job r).1.runs = s.runs := by
  cases r with
  | remote settings => rfl
  | scripted table => exact runs_act s job _

/-- A run has made these jobs and its handler is as `I` says. -/
def Keeps (s : Service) (id : RunId) (js : List JobId) (I : Handler → Prop) : Prop :=
  ∃ run, s.runs[id]? = some run ∧ run.jobs = js ∧ I run.handler

variable {js : List JobId} {I : Handler → Prop}

theorem Keeps.of_runs (h : s.Keeps id js I) (same : s'.runs = s.runs) : s'.Keeps id js I := by
  obtain ⟨run, hget, rest⟩ := h
  exact ⟨run, by rw [same, hget], rest⟩

theorem Keeps.setRun_other (h : s.Keeps id js I) {r : RunId} (ne : r ≠ id) (run : Run) :
    (s.setRun r run).Keeps id js I := by
  obtain ⟨mine, hget, rest⟩ := h
  refine ⟨mine, ?_, rest⟩
  rw [setRun, List.getElem?_set_ne ne, hget]

section

variable (kept : ∀ r h e, I h → I (h.react r e).2)
  (handed : ∀ h, I h → h.stage ≠ .destinationsResolved)

include kept in
theorem Keeps.tell (h : s.Keeps id js I) (r : RunId) (e : HandlerEvent) :
    (s.tell r e).Keeps id js I := by
  unfold Service.tell
  split
  · exact h
  · rename_i run found
    dsimp only
    by_cases mine : r = id
    · subst mine
      obtain ⟨run', hget, jobs, now⟩ := h
      cases found.symm.trans hget
      exact ⟨_, List.getElem?_set_self (List.getElem?_eq_some_iff.1 hget).1, jobs, kept _ _ e now⟩
    · exact Keeps.setRun_other (h.of_runs rfl) mine _

include kept handed in
theorem Keeps.advance (h : s.Keeps id js I) (r : RunId) : (s.advance r).Keeps id js I := by
  unfold Service.advance
  split
  · exact h
  · rename_i run found
    split
    · exact h.tell kept r _
    · split
      · rename_i p _
        unfold advanceWith
        dsimp only
        cases stage : run.handler.stage with
        | start =>
          refine Keeps.tell kept ?_ r _
          exact h.of_runs rfl
        | directorySelected => exact h.tell kept r _
        | registered =>
          refine Keeps.tell kept ?_ r _
          exact h.of_runs rfl
        | destinationsResolved =>
          -- this is where another run makes its jobs
          have other : r ≠ id := by
            rintro rfl
            obtain ⟨run', hget, -, now⟩ := h
            cases found.symm.trans hget
            exact handed _ now stage
          dsimp only
          split
          · rename_i policy jobs _
            refine Keeps.tell kept ?_ r _
            have set := Keeps.setRun_other (s := ((s.setPolicy run.policy policy).addJobs jobs).1)
              (h.of_runs rfl) other
              { run with jobs := ((s.setPolicy run.policy policy).addJobs jobs).2 }
            exact set.of_runs (runs_submitAll _ _ _)
          · refine Keeps.tell kept ?_ r _
            exact h.of_runs rfl
        | jobsSubmitted => exact h.tell kept r _
        | waiting =>
          dsimp only
          split
          · exact h.tell kept r _
          · exact h
        | cleanup =>
          refine Keeps.tell kept ?_ r _
          exact h.of_runs rfl
        | done => exact h
      · exact h

include kept handed in
theorem Keeps.advances (h : s.Keeps id js I) (r : RunId) (n : Nat) :
    ((List.range n).foldl (fun s _ => s.advance r) s).Keeps id js I := by
  induction n with
  | zero => exact h
  | succ n ih =>
    rw [List.range_succ, List.foldl_append]
    exact ih.advance kept handed r

include kept handed in
theorem Keeps.goOn (h : s.Keeps id js I) (r : RunId) : (s.goOn r).Keeps id js I := by
  unfold Service.goOn
  split
  · exact h
  · dsimp only
    refine Keeps.advances kept handed ?_ r _
    split
    · exact h.tell kept r _
    · exact h

include kept handed in
theorem Keeps.turn (h : s.Keeps id js I) (t : Task) : (s.turn t).Keeps id js I := by
  cases t with
  | run r => exact h.goOn kept handed r
  | job m j =>
    rcases turn_cases s m j with eq | eq
    · exact h.of_runs (by rw [eq, runs_manage])
    · exact h.of_runs (by rw [eq, runs_launch, runs_manage])
  | runner m j =>
    unfold Service.turn
    dsimp only
    split
    · exact h.of_runs (by rw [runs_wake, runs_manage, runs_work])
    · exact h

include kept handed in
/-- What a handler keeps under every event its run keeps under the turns of all tasks. -/
theorem Keeps.turns (h : s.Keeps id js I) (ts : List Task) :
    (ts.foldl Service.turn s).Keeps id js I := by
  induction ts generalizing s with
  | nil => exact h
  | cons t ts ih => exact ih (h.turn kept handed t)

end

end Service
end Archivist
