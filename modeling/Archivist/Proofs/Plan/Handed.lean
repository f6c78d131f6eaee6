import Archivist.Proofs.Placement.Copies
import Archivist.Proofs.Plan.Steps
set_option autoImplicit false

namespace Archivist

namespace Policy

variable {p : Policy} {w : World} {js : List Job}

theorem queued_of_send (h : p.send w = .ok js) {j : Job} (hj : j ∈ js) : j.status = .queued := by
  obtain ⟨d, ids, fs, dir, frozen, listed⟩ := send_eq_ok h
  rw [send_eq dir frozen listed] at h
  cases h
  obtain ⟨-, -, -, -, -, rfl⟩ := mem_jobsFor.1 hj
  rfl

theorem record_send (wf : w.namespace_.WellFormed) (h : p.send w = .ok js) :
    ∃ ns, w.namespace_.record w.fleet js = .ok ns := by
  obtain ⟨d, ids, fs, dir, frozen, listed⟩ := send_eq_ok h
  rw [send_eq dir frozen listed] at h
  cases h
  refine ⟨_, wf.record_eq w.fleet _ fun j hj => ?_⟩
  obtain ⟨f, hf, -, -, -, rfl⟩ := mem_jobsFor.1 hj
  obtain ⟨e, there, -⟩ := (Namespace.mem_files wf listed f).1 hf
  exact ⟨e, f, there, rfl⟩

end Policy

namespace Service

variable {s t : Service} {js before : List Job} {x : Executor}

def refused (j : Job) : Job :=
  (j.markFailed (.executor (ArchiveError.state .executorClosed).message)).1

/-- What a job is right after an executor was asked to take it and could do what it does. -/
def taken (s : Service) (j : Job) : Executor → Job
  | .instant => (j.markDone (assumed j)).1
  | .rejecting => refused j
  | .gated => j.markTransferring.1
  | .managed m => if m < s.managers.length then j else refused j

def numbers (s : Service) (js : List Job) : List JobId := List.range' s.jobs.length js.length

/-- What becomes ready of some tasks: those that are not ready yet. -/
def woken (s : Service) (ts : List Task) : List Task := ts.filter fun t => !s.tasks.contains t

/-- New jobs have been made and handed to an executor, one after the other: it has got them in this
order, and whatever belongs to another executor is as before. -/
structure Handed (s t : Service) (x : Executor) (js : List Job) : Prop where
  jobs : t.jobs = s.jobs ++ js.map fun j => s.taken j x
  held : t.held = s.held ++ if x = .gated then s.numbers js else []
  queues : ∀ m, t.managers[m]? = (s.managers[m]?).map fun e =>
    if x = .managed m then
      ({ e.1 with jobs := e.1.jobs ++ (s.numbers js).map fun k => (k, .submitted) }, e.2)
    else e
  ready : ∀ m < s.managers.length, x = .managed m →
    t.tasks = s.tasks ++ s.woken ((s.numbers js).map (.job m))
  entered : x = .instant → s.world.namespace_.record s.world.fleet js = .ok t.world.namespace_
  tree : x ≠ .instant → t.world.namespace_ = s.world.namespace_

theorem snd_addJobs (s : Service) (js : List Job) : (s.addJobs js).2 = s.numbers js := by
  unfold addJobs numbers
  rw [List.range'_eq_map_range]

theorem submitAll_cons {k : JobId} {j : Job} (found : s.jobs[k]? = some j) (ks : List JobId) :
    s.submitAll x (k :: ks) = Service.submitAll
      (match s.submit k j x with
        | .ok s => s
        | .error e => s.setJob k (j.markFailed (.executor e.message)).1) x ks := by
  rw [submitAll, List.foldl_cons, found]
  rfl

variable {n : Nat} {j : Job}

theorem getElem?_next (jobs : s.jobs = before ++ j :: js) (len : before.length = n) :
    s.jobs[n]? = some j := by
  subst len
  simp [jobs]

theorem setJob_next (jobs : s.jobs = before ++ j :: js) (len : before.length = n) (j' : Job) :
    ∃ ts, s.setJob n j' = { s with jobs := before ++ [j'] ++ js, tasks := ts } := by
  subst len
  obtain ⟨ts, set⟩ := setJob_eq s before.length j'
  refine ⟨ts, ?_⟩
  rw [set, jobs]
  simp

/-- The first of some new jobs is handed in, and it comes to `j'` in the state `base`. -/
theorem submitAll_next {base : Service} {j' : Job} (jobs : s.jobs = before ++ j :: js)
    (len : before.length = n) (first : s.submitAll x [n] = base.setJob n j')
    (same : base.jobs = s.jobs) :
    ∃ ts, s.submitAll x (List.range' n (j :: js).length) =
      Service.submitAll { base with jobs := before ++ [j'] ++ js, tasks := ts } x
        (List.range' (n + 1) js.length) := by
  obtain ⟨ts, set⟩ := setJob_next (same.trans jobs) len j'
  refine ⟨ts, ?_⟩
  rw [List.length_cons, List.range'_succ, ← set, ← first]
  rfl

def Shut (s : Service) (x : Executor) : Prop :=
  x = .rejecting ∨ ∃ m, x = .managed m ∧ s.managers[m]? = none

theorem Shut.submit (shut : s.Shut x) (k : JobId) (j : Job) :
    s.submit k j x = .error (.state .executorClosed) := by
  rcases shut with rfl | ⟨m, rfl, missing⟩
  · rfl
  · unfold Service.submit
    dsimp only
    rw [missing]

theorem submitAll_shut (shut : s.Shut x) (jobs : s.jobs = before ++ js)
    (len : before.length = n) :
    ∃ ts, s.submitAll x (List.range' n js.length) =
      { s with jobs := before ++ js.map refused, tasks := ts } := by
  induction js generalizing s before n with
  | nil =>
    rw [List.append_nil] at jobs
    exact ⟨s.tasks, by rw [List.map_nil, List.append_nil, ← jobs]; rfl⟩
  | cons j js ih =>
    have first : s.submitAll x [n] = s.setJob n (refused j) := by
      rw [submitAll_cons (getElem?_next jobs len), shut.submit]
      rfl
    obtain ⟨ts, next⟩ := submitAll_next jobs len first rfl
    obtain ⟨us, rest⟩ := @ih { s with jobs := before ++ [refused j] ++ js, tasks := ts }
      (before ++ [refused j]) (n + 1) shut rfl (by simp [len])
    exact ⟨us, next.trans (rest.trans (by simp))⟩

theorem submitAll_gated (jobs : s.jobs = before ++ js) (len : before.length = n) :
    ∃ ts, s.submitAll .gated (List.range' n js.length) =
      { s with
        held := s.held ++ List.range' n js.length
        jobs := before ++ js.map fun j => j.markTransferring.1
        tasks := ts } := by
  induction js generalizing s before n with
  | nil =>
    rw [List.append_nil] at jobs
    exact ⟨s.tasks, by rw [List.map_nil, List.append_nil, ← jobs]; simp [submitAll]⟩
  | cons j js ih =>
    have first : s.submitAll .gated [n] =
        setJob { s with held := s.held ++ [n] } n j.markTransferring.1 := by
      rw [submitAll_cons (getElem?_next jobs len)]
      rfl
    obtain ⟨ts, next⟩ := submitAll_next jobs len first rfl
    obtain ⟨us, rest⟩ := @ih { s with
      held := s.held ++ [n]
      jobs := before ++ [j.markTransferring.1] ++ js
      tasks := ts } (before ++ [j.markTransferring.1]) (n + 1) rfl (by simp [len])
    exact ⟨us, next.trans (rest.trans (by simp [List.range'_succ]))⟩

theorem nodeOf_name (s : Service) (j : Job) :
    (s.nodeOf j).name = s.world.fleet.nameOf j.destination := by
  unfold nodeOf Fleet.nameOf
  cases s.world.fleet.node? j.destination <;> rfl

theorem submitAll_instant (jobs : s.jobs = before ++ js) (len : before.length = n) {ns : Namespace}
    (recorded : s.world.namespace_.record s.world.fleet js = .ok ns) :
    ∃ ts, s.submitAll .instant (List.range' n js.length) =
      { s with
        world := { s.world with namespace_ := ns }
        jobs := before ++ js.map fun j => (j.markDone (assumed j)).1
        tasks := ts } := by
  induction js generalizing s before n with
  | nil =>
    rw [List.append_nil] at jobs
    cases recorded
    exact ⟨s.tasks, by rw [List.map_nil, List.append_nil, ← jobs]; rfl⟩
  | cons j js ih =>
    rw [Namespace.record, List.foldlM_cons] at recorded
    cases listed : s.world.namespace_.addReplica j.file.path
        (s.world.fleet.nameOf j.destination) with
    | error e =>
      rw [listed] at recorded
      cases recorded
    | ok tree =>
      rw [listed] at recorded
      have first : s.submitAll .instant [n] =
          (s.setNamespace tree).setJob n (j.markDone (assumed j)).1 := by
        rw [submitAll_cons (getElem?_next jobs len)]
        unfold submit
        dsimp only
        rw [record, nodeOf_name, listed]
        rfl
      obtain ⟨ts, next⟩ := submitAll_next jobs len first rfl
      obtain ⟨us, rest⟩ := @ih { s with
        world := { s.world with namespace_ := tree }
        jobs := before ++ [(j.markDone (assumed j)).1] ++ js
        tasks := ts } (before ++ [(j.markDone (assumed j)).1]) (n + 1) rfl (by simp [len]) recorded
      exact ⟨us, next.trans (rest.trans (by simp))⟩

theorem woken_wake (s : Service) (t : Task) (ts : List Task) (new : t ∉ ts) :
    (s.wake t).tasks ++ (s.wake t).woken ts = s.tasks ++ s.woken (t :: ts) := by
  unfold wake woken
  by_cases there : t ∈ s.tasks
  · simp [there]
  · have same : ∀ u ∈ ts, (!(s.tasks ++ [t]).contains u) = !s.tasks.contains u := by
      intro u hu
      have other : u ≠ t := fun eq => new (eq ▸ hu)
      simp [other]
    rw [if_neg there]
    dsimp only
    rw [List.filter_congr same]
    simp [there]

theorem submitAll_managed {m : ManagerId} {manager : Manager} {runner : Runner}
    (led : s.managers[m]? = some (manager, runner)) {ids : List JobId}
    (there : ∀ k ∈ ids, ∃ j, s.jobs[k]? = some j) (once : ids.Nodup) :
    s.submitAll (.managed m) ids =
      { s with
        managers := s.managers.set m
          ({ manager with jobs := manager.jobs ++ ids.map fun k => (k, .submitted) }, runner)
        tasks := s.tasks ++ s.woken (ids.map (.job m)) } := by
  have bound := (List.getElem?_eq_some_iff.1 led).1
  induction ids generalizing s manager with
  | nil =>
    obtain ⟨_, same⟩ := List.getElem?_eq_some_iff.1 led
    simp [submitAll, woken, ← same]
  | cons k ids ih =>
    obtain ⟨j, found⟩ := there k List.mem_cons_self
    have first : s.submitAll (.managed m) (k :: ids) =
        (wake { s with managers := s.managers.set m (manager.submit k, runner) }
          (.job m k)).submitAll (.managed m) ids := by
      rw [submitAll_cons found]
      unfold submit
      dsimp only
      rw [led]
    obtain ⟨ts, woke⟩ := wake_eq { s with managers := s.managers.set m (manager.submit k, runner) }
      (.job m k)
    have new : Task.job m k ∉ ids.map (Task.job m) := by
      simpa using (List.nodup_cons.1 once).1
    have tasks := woken_wake { s with managers := s.managers.set m (manager.submit k, runner) }
      (.job m k) (ids.map (.job m)) new
    rw [woke] at first tasks
    have rest := @ih { s with
      managers := s.managers.set m (manager.submit k, runner)
      tasks := ts } (manager.submit k) (List.getElem?_set_self bound)
      (fun i hi => there i (List.mem_cons_of_mem k hi)) (List.nodup_cons.1 once).2
      (by simpa using bound)
    rw [first, rest]
    dsimp only at tasks ⊢
    rw [tasks, List.set_set]
    simp only [Manager.submit, List.append_assoc, List.singleton_append]
    rfl

variable {id : RunId} {run : Run}

theorem handed_handIn (id : RunId) (run : Run) (recorded : run.executor = .instant →
      ∃ ns, s.world.namespace_.record s.world.fleet js = .ok ns) :
    s.Handed (s.handIn id run js) run.executor js := by
  have made : s.handIn id run js =
      submitAll { s with
        jobs := s.jobs ++ js
        runs := s.runs.set id { run with jobs := s.numbers js } } run.executor
        (List.range' s.jobs.length js.length) := by
    unfold handIn
    rw [snd_addJobs]
    rfl
  rw [made]
  generalize s.runs.set id _ = runs
  cases x : run.executor with
  | instant =>
    obtain ⟨ns, tree⟩ := recorded x
    obtain ⟨ts, eq⟩ := @submitAll_instant { s with jobs := s.jobs ++ js, runs } _ _ _ rfl rfl ns tree
    rw [eq]
    exact ⟨rfl, by simp, by simp, by simp, fun _ => tree, by simp⟩
  | rejecting =>
    obtain ⟨ts, eq⟩ := @submitAll_shut { s with jobs := s.jobs ++ js, runs } _ _ _ _ (.inl rfl) rfl rfl
    rw [eq]
    exact ⟨rfl, by simp, by simp, by simp, by simp, fun _ => rfl⟩
  | gated =>
    obtain ⟨ts, eq⟩ := @submitAll_gated { s with jobs := s.jobs ++ js, runs } _ _ _ rfl rfl
    rw [eq]
    exact ⟨rfl, rfl, by simp, by simp, by simp, fun _ => rfl⟩
  | managed m =>
    cases led : s.managers[m]? with
    | none =>
      have outside : ¬ m < s.managers.length := by simpa using led
      obtain ⟨ts, eq⟩ :=
        @submitAll_shut { s with jobs := s.jobs ++ js, runs } _ _ _ _ (.inr ⟨m, rfl, led⟩) rfl rfl
      rw [eq]
      refine ⟨by simp [taken, outside], by simp, ?_, ?_, by simp, fun _ => rfl⟩
      · intro i
        by_cases here : m = i
        · subst here
          simp [led]
        · simp [here]
      · intro i inside same
        cases same
        exact absurd inside outside
    | some entry =>
      obtain ⟨manager, runner⟩ := entry
      have inside : m < s.managers.length := (List.getElem?_eq_some_iff.1 led).1
      have there : ∀ k ∈ List.range' s.jobs.length js.length, ∃ j, (s.jobs ++ js)[k]? = some j := by
        intro k hk
        have bound := List.mem_range'_1.1 hk
        exact ⟨_, List.getElem?_eq_getElem (by rw [List.length_append]; omega)⟩
      rw [@submitAll_managed { s with jobs := s.jobs ++ js, runs } _ _ _ led _ there
        (List.nodup_range' ..)]
      refine ⟨by simp [taken, inside], by simp, ?_, ?_, by simp, fun _ => rfl⟩
      · intro i
        by_cases here : m = i
        · subst here
          rw [led, Option.map_some, if_pos rfl]
          exact List.getElem?_set_self inside
        · simp [here]
      · intro i _ same
        obtain rfl := Executor.managed.inj same
        rfl

theorem Handed.tell (h : s.Handed t x js) (id : RunId) (e : HandlerEvent) :
    s.Handed (t.tell id e) x js := by
  unfold Service.tell
  split
  · exact h
  · exact ⟨h.jobs, h.held, h.queues, h.ready, h.entered, h.tree⟩

/-- Two services with the same work: the same jobs, with the same executors, for the same tree. -/
structure SameWork (s t : Service) : Prop where
  jobs : t.jobs = s.jobs
  held : t.held = s.held
  managers : t.managers = s.managers
  tasks : t.tasks = s.tasks
  fleet : t.world.fleet = s.world.fleet
  tree : t.world.namespace_ = s.world.namespace_

theorem SameWork.refl (s : Service) : s.SameWork s := ⟨rfl, rfl, rfl, rfl, rfl, rfl⟩

theorem SameWork.trans {u : Service} (h : s.SameWork t) (h' : t.SameWork u) : s.SameWork u :=
  ⟨h'.jobs.trans h.jobs, h'.held.trans h.held, h'.managers.trans h.managers,
    h'.tasks.trans h.tasks, h'.fleet.trans h.fleet, h'.tree.trans h.tree⟩

theorem SameWork.tell (h : s.SameWork t) (id : RunId) (e : HandlerEvent) :
    s.SameWork (t.tell id e) := by
  unfold Service.tell
  split
  · exact h
  · exact ⟨h.jobs, h.held, h.managers, h.tasks, h.fleet, h.tree⟩

theorem SameWork.handed {u : Service} (h : s.SameWork t) (h' : t.Handed u x js) :
    s.Handed u x js := by
  obtain ⟨jobs, held, managers, tasks, fleet, tree⟩ := h
  obtain ⟨uJobs, uHeld, queues, ready, entered, uTree⟩ := h'
  unfold taken numbers woken at *
  rw [jobs, held, managers, tasks, fleet, tree] at *
  exact ⟨uJobs, uHeld, queues, ready, entered, uTree⟩

variable {p : Policy} {w : World}

/-- Until a run makes its jobs, and again until it clears up, its stages do no work. -/
theorem At.sameWork (h : s.At id run p w) (early : run.handler.stage ≠ .destinationsResolved)
    (unfinished : run.handler.stage ≠ .cleanup) : s.SameWork (s.advance id) := by
  unfold Service.advance
  rw [h.going]
  dsimp only
  split
  · exact (SameWork.refl s).tell id _
  · rw [h.policy]
    dsimp only
    have asked : ∀ p e, s.SameWork ((s.setPolicy run.policy p).tell id e) := by
      intro p e
      have set : s.SameWork (s.setPolicy run.policy p) := ⟨rfl, rfl, rfl, rfl, rfl, rfl⟩
      exact set.tell id e
    unfold advanceWith
    cases stage : run.handler.stage with
    | start => exact asked _ _
    | directorySelected => exact (SameWork.refl s).tell id _
    | registered => exact asked _ _
    | destinationsResolved => exact absurd stage early
    | jobsSubmitted => exact (SameWork.refl s).tell id _
    | waiting =>
      dsimp only
      split
      · exact (SameWork.refl s).tell id _
      · exact .refl s
    | cleanup => exact absurd stage unfinished
    | done => exact .refl s

end Service
end Archivist
