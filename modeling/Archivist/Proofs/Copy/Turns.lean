import Archivist.Proofs.Tree.Reached
import Archivist.Service.Schedule
set_option autoImplicit false

namespace Archivist

namespace Job

theorem transition_same (j : Job) (next : JobStatus) :
    (j.transition next).1.file = j.file ∧ (j.transition next).1.destination = j.destination := by
  unfold transition
  split
  · exact ⟨rfl, rfl⟩
  · exact ⟨rfl, rfl⟩

theorem settle_same (j : Job) (node : Node) (ns : Namespace) (r : RunResult) :
    (j.settle node ns r).1.file = j.file ∧ (j.settle node ns r).1.destination = j.destination := by
  unfold settle
  split
  · exact transition_same j _
  · split
    · exact transition_same j _
    · split
      · exact transition_same { j with transfer := _ } _
      · exact transition_same j _
  · split
    · exact transition_same j _
    · exact transition_same j _

theorem transition_of_open {j : Job} (stands : j.status.isTerminal = false) (next : JobStatus) :
    (j.transition next).1.status = next := by
  rw [transition, if_neg (by simp [stands])]

theorem settle_cases {j : Job} (stands : j.status.isTerminal = false) (node : Node)
    (ns : Namespace) (r : RunResult) :
    ((j.settle node ns r).1.status = .done ∧ (∃ s, r = .moved s) ∧
        ns.addReplica j.file.path node.name = .ok (j.settle node ns r).2) ∨
      ((∃ f, (j.settle node ns r).1.status = .failed f) ∧ (j.settle node ns r).2 = ns) := by
  unfold settle
  cases r with
  | panicked => exact .inr ⟨⟨_, transition_of_open stands _⟩, rfl⟩
  | failed e =>
    dsimp only
    split
    · exact .inr ⟨⟨_, transition_of_open stands _⟩, rfl⟩
    · exact .inr ⟨⟨_, transition_of_open stands _⟩, rfl⟩
  | moved s =>
    dsimp only
    split
    · exact .inr ⟨⟨_, transition_of_open stands _⟩, rfl⟩
    · split
      · rename_i listed
        have done := transition_of_open (j := { j with transfer := some s }) stands .done
        exact .inl ⟨done, ⟨s, rfl⟩, listed⟩
      · exact .inr ⟨⟨_, transition_of_open stands _⟩, rfl⟩

theorem reached_settle {ns : Namespace} (reached : ns.Reached) (j : Job) (node : Node)
    (r : RunResult) : (j.settle node ns r).2.Reached := by
  unfold settle
  split
  · exact reached
  · split
    · exact reached
    · split
      · rename_i listed
        exact reached.addReplica listed
      · exact reached
  · split
    · exact reached
    · exact reached

end Job

namespace Manager

open Lookup

variable {m : Manager} {id : JobId}

theorem phase?_setPhase (m : Manager) (id other : JobId) (p : Phase) :
    (m.setPhase id p).phase? other =
      if other = id then (m.phase? id).map fun _ => p else m.phase? other :=
  lookup_map_at (fun _ => p) m.jobs id other

theorem phase?_setPhase_self {q : Phase} (h : m.phase? id = some q) (p : Phase) :
    (m.setPhase id p).phase? id = some p := by
  rw [phase?_setPhase, if_pos rfl, h]
  rfl

theorem phase?_lineUp (m : Manager) (id other : JobId) :
    (m.lineUp id).phase? other = if other = id then some .waiting else m.phase? other := by
  unfold lineUp phase?
  rw [List.lookup_append, lookup_filter_ne, lookup_cons_if]
  by_cases same : other = id
  · rw [if_pos same, if_pos same, if_pos same]
    rfl
  · rw [if_neg same, if_neg same, if_neg same, List.lookup_nil, Option.or_none]

theorem mem_of_next? {other : JobId} (h : m.next? = some other) :
    (other, Phase.waiting) ∈ m.jobs := by
  obtain ⟨⟨x, p⟩, found, here⟩ := Option.map_eq_some_iff.1 h
  have waits := List.find?_some found
  have mem := List.mem_of_find?_eq_some found
  change x = other at here
  subst here
  cases p with
  | waiting => exact mem
  | _ => cases waits

theorem phase_of_mem_setPhase {p q : Phase} (mem : (id, q) ∈ (m.setPhase id p).jobs) : q = p := by
  obtain ⟨x, -, eq⟩ := List.mem_map.1 mem
  by_cases mine : x.1 = id
  · rw [if_pos mine] at eq
    exact (congrArg Prod.snd eq).symm
  · rw [if_neg mine] at eq
    exact absurd (congrArg Prod.fst eq) mine

theorem phase?_finish {q : Phase} (h : m.phase? id = some q) :
    (m.finish id).1.phase? id = some .over := by
  have ended := phase?_setPhase_self h .over
  unfold finish
  dsimp only
  split
  · rename_i other next
    -- the job that is let in waits, and this one is over by now
    have ne : id ≠ other := by
      rintro rfl
      cases phase_of_mem_setPhase (mem_of_next? next)
    rw [phase?_setPhase, if_neg ne]
    exact ended
  · exact ended

theorem phase?_react_other {other : JobId} (ne : other ≠ id) (keys : (m.jobs.map (·.1)).Nodup)
    (j : Job) (node : Node) (ns : Namespace) (e : ManagerEvent) :
    (m.react id j node ns e).manager.phase? other = m.phase? other ∨
      m.phase? other = some .waiting ∧
        (m.react id j node ns e).manager.phase? other = some .admitted := by
  have set : ∀ p, (m.setPhase id p).phase? other = m.phase? other := by
    intro p
    rw [phase?_setPhase, if_neg ne]
  -- the line moves up only when a job is finished
  have finished : (m.finish id).1.phase? other = m.phase? other ∨
      m.phase? other = some .waiting ∧ (m.finish id).1.phase? other = some .admitted := by
    have same : (m.setPhase id .over).jobs.map (·.1) = m.jobs.map (·.1) := by
      unfold setPhase
      rw [keys_map]
      exact fst_change (fun _ => Phase.over) id
    unfold finish
    dsimp only
    split
    · rename_i x next
      by_cases here : other = x
      · subst here
        have waits : (m.setPhase id .over).phase? other = some .waiting :=
          lookup_of_mem (same ▸ keys) (mem_of_next? next)
        exact .inr ⟨(set _).symm.trans waits, phase?_setPhase_self waits _⟩
      · rw [phase?_setPhase, if_neg here]
        exact .inl (set _)
    · exact .inl (set _)
  unfold react
  cases e with
  | ask =>
    dsimp only
    split
    · split
      · exact .inl (set _)
      · exact .inl (by rw [phase?_lineUp, if_neg ne])
    · exact .inl rfl
  | start =>
    dsimp only
    split
    · split
      · exact .inl (set _)
      · exact finished
    · exact .inl rfl
  | ran r =>
    dsimp only
    split
    · exact .inl (set _)
    · exact .inl rfl
  | settle =>
    dsimp only
    split
    · exact finished
    · exact .inl rfl

/-- What a manager can make of a job whose node is `node`, apart from hearing of its copy. -/
inductive JobStep (node : Node) (ns : Namespace) (j : Job) :
    Phase → Phase → Job → Namespace → Prop where
  | idle (p : Phase) : JobStep node ns j p p j ns
  | admitted : JobStep node ns j .submitted .admitted j ns
  | linedUp : JobStep node ns j .submitted .waiting j ns
  | started (reachable : node.online = true) :
      JobStep node ns j .admitted .running j.markTransferring.1 ns
  | refused (away : node.online = false) :
      JobStep node ns j .admitted .over (j.markFailed (.nodeUnavailable node.name)).1 ns
  | settled (r : RunResult) :
      JobStep node ns j (.ran r) .over (j.settle node ns r).1 (j.settle node ns r).2

theorem react_step {p : Phase} (h : m.phase? id = some p) (j : Job) (node : Node) (ns : Namespace)
    {e : ManagerEvent} (quiet : ∀ r, e ≠ .ran r) :
    ∃ q, (m.react id j node ns e).manager.phase? id = some q ∧
      JobStep node ns j p q (m.react id j node ns e).job (m.react id j node ns e).ns := by
  cases e with
  | ask =>
    rw [react, h]
    cases p with
    | submitted =>
      dsimp only
      split
      · exact ⟨_, phase?_setPhase_self h _, .admitted⟩
      · exact ⟨_, by rw [phase?_lineUp, if_pos rfl], .linedUp⟩
    | _ => exact ⟨_, h, .idle _⟩
  | start =>
    rw [react, h]
    cases p with
    | admitted =>
      dsimp only
      cases reachable : node.online with
      | true =>
        rw [if_pos rfl, Job.start, if_pos reachable]
        exact ⟨_, phase?_setPhase_self h _, .started reachable⟩
      | false =>
        rw [if_neg (by simp), Job.start, if_neg (by simp [reachable])]
        exact ⟨_, phase?_finish h, .refused reachable⟩
    | _ => exact ⟨_, h, .idle _⟩
  | ran r => exact absurd rfl (quiet r)
  | settle =>
    rw [react, h]
    cases p with
    | ran r => exact ⟨_, phase?_finish h, .settled r⟩
    | _ => exact ⟨_, h, .idle _⟩

theorem reached_react {ns : Namespace} (reached : ns.Reached) (m : Manager) (id : JobId) (j : Job)
    (node : Node) (e : ManagerEvent) : (m.react id j node ns e).ns.Reached := by
  unfold react
  split
  · split
    · split
      · exact reached
      · exact reached
    · exact reached
  · split
    · split
      · exact reached
      · exact reached
    · exact reached
  · split
    · exact reached
    · exact reached
  · split
    · exact Job.reached_settle reached j node _
    · exact reached

theorem JobStep.same {node : Node} {ns ns' : Namespace} {j j' : Job} {p q : Phase}
    (step : JobStep node ns j p q j' ns') :
    j'.file = j.file ∧ j'.destination = j.destination := by
  cases step with
  | started _ => exact j.transition_same _
  | refused _ => exact j.transition_same _
  | settled r => exact j.settle_same node ns r
  | _ => exact ⟨rfl, rfl⟩

end Manager

namespace Service

variable {s : Service} {m : ManagerId} {id : JobId}

theorem wake_eq (s : Service) (t : Task) : ∃ ts, s.wake t = { s with tasks := ts } := by
  unfold wake
  split
  · exact ⟨_, rfl⟩
  · exact ⟨_, rfl⟩

theorem foldl_wake_eq (rs : List RunId) (s : Service) :
    ∃ ts, rs.foldl (fun s r => s.wake (.run r)) s = { s with tasks := ts } := by
  induction rs generalizing s with
  | nil => exact ⟨_, rfl⟩
  | cons r rs ih =>
    obtain ⟨ts, first⟩ := wake_eq s (.run r)
    obtain ⟨us, rest⟩ := ih (s.wake (.run r))
    refine ⟨us, ?_⟩
    rw [List.foldl_cons, rest, first]

theorem setJob_eq (s : Service) (id : JobId) (j : Job) :
    ∃ ts, s.setJob id j = { s with jobs := s.jobs.set id j, tasks := ts } :=
  foldl_wake_eq _ _

theorem manage_eq {manager : Manager} {runner : Runner} {j : Job}
    (led : s.managers[m]? = some (manager, runner)) (job : s.jobs[id]? = some j)
    (e : ManagerEvent) :
    ∃ ts, s.manage m id e =
      { s with
        managers := s.managers.set m
          ((manager.react id j (s.nodeOf j) s.world.namespace_ e).manager, runner)
        world := { s.world with
          namespace_ := (manager.react id j (s.nodeOf j) s.world.namespace_ e).ns }
        jobs := s.jobs.set id (manager.react id j (s.nodeOf j) s.world.namespace_ e).job
        tasks := ts } := by
  unfold manage
  rw [led, job]
  dsimp only
  generalize manager.react id j (s.nodeOf j) s.world.namespace_ e = effect
  obtain ⟨ts, set⟩ := setJob_eq (setNamespace
    { s with managers := s.managers.set m (effect.manager, runner) } effect.ns) id effect.job
  split
  · rename_i other _
    rw [set]
    obtain ⟨us, woken⟩ := wake_eq _ (Task.job m other)
    exact ⟨us, woken⟩
  · exact ⟨ts, set⟩

structure Has (s : Service) (m : ManagerId) (id : JobId) (runner : Runner) (j : Job) (p : Phase) :
    Prop where
  led : ∃ manager, s.managers[m]? = some (manager, runner) ∧ manager.phase? id = some p
  job : s.jobs[id]? = some j

variable {runner : Runner} {j : Job} {p : Phase}

theorem Has.phase (h : s.Has m id runner j p) : s.phase? m id = some p := by
  obtain ⟨manager, led, phase⟩ := h.led
  rw [phase?, led]
  exact phase

theorem Has.manage (h : s.Has m id runner j p) {e : ManagerEvent} (quiet : ∀ r, e ≠ .ran r) :
    ∃ q j' ns, (s.manage m id e).Has m id runner j' q ∧
      Manager.JobStep (s.nodeOf j) s.world.namespace_ j p q j' ns ∧
      (s.manage m id e).world = { s.world with namespace_ := ns } ∧
      (s.manage m id e).site = s.site := by
  obtain ⟨manager, led, phase⟩ := h.led
  obtain ⟨q, phase', step⟩ := Manager.react_step phase j (s.nodeOf j) s.world.namespace_ quiet
  obtain ⟨ts, eq⟩ := manage_eq led h.job e
  have inManagers : m < s.managers.length := (List.getElem?_eq_some_iff.1 led).1
  have inJobs : id < s.jobs.length := (List.getElem?_eq_some_iff.1 h.job).1
  rw [eq]
  exact ⟨q, _, _, ⟨⟨_, List.getElem?_set_self inManagers, phase'⟩, List.getElem?_set_self inJobs⟩,
    step, rfl, rfl⟩

theorem Has.ran (h : s.Has m id runner j .running) (r : RunResult) :
    (s.manage m id (.ran r)).Has m id runner j (.ran r) ∧
      (s.manage m id (.ran r)).world = s.world ∧ (s.manage m id (.ran r)).site = s.site := by
  obtain ⟨manager, led, phase⟩ := h.led
  obtain ⟨ts, eq⟩ := manage_eq led h.job (.ran r)
  have heard : manager.react id j (s.nodeOf j) s.world.namespace_ (.ran r) =
      ⟨manager.setPhase id (.ran r), j, s.world.namespace_, none⟩ := by
    rw [Manager.react, phase]
  have inManagers : m < s.managers.length := (List.getElem?_eq_some_iff.1 led).1
  have inJobs : id < s.jobs.length := (List.getElem?_eq_some_iff.1 h.job).1
  rw [eq, heard]
  exact ⟨⟨⟨_, List.getElem?_set_self inManagers, Manager.phase?_setPhase_self phase _⟩,
    List.getElem?_set_self inJobs⟩, rfl, rfl⟩

/-- The turn of a runner copies the file and lets the manager hear of it. -/
theorem Has.copied {settings : TransferSettings}
    (h : s.Has m id (.remote settings) j .running) :
    (s.turn (.runner m id)).Has m id (.remote settings) j
        (.ran (.ofCopy (RemoteCopy.run s.site s.world.fleet settings j).2)) ∧
      (s.turn (.runner m id)).world = s.world ∧
      (s.turn (.runner m id)).site = (RemoteCopy.run s.site s.world.fleet settings j).1 := by
  obtain ⟨manager, led, phase⟩ := h.led
  unfold turn
  dsimp only
  rw [led, h.job]
  dsimp only
  rw [work]
  generalize RemoteCopy.run s.site s.world.fleet settings j = out
  obtain ⟨site, result⟩ := out
  have there : Has { s with site } m id (.remote settings) j .running := ⟨h.led, h.job⟩
  obtain ⟨has, world, left⟩ := there.ran (.ofCopy result)
  obtain ⟨ts, eq⟩ := wake_eq (({ s with site } : Service).manage m id (.ran (.ofCopy result)))
    (.job m id)
  dsimp only
  rw [eq]
  exact ⟨⟨has.led, has.job⟩, world, left⟩

theorem launch_cases (s : Service) (m : ManagerId) (id : JobId) :
    s.launch m id = s ∨ s.launch m id = s.manage m id .start ∨
      s.launch m id = (s.manage m id .start).wake (.runner m id) := by
  unfold launch
  split
  · dsimp only
    split
    · exact .inr (.inr rfl)
    · exact .inr (.inl rfl)
  · exact .inl rfl

theorem turn_cases (s : Service) (m : ManagerId) (id : JobId) :
    s.turn (.job m id) = s.manage m id .settle ∨
      s.turn (.job m id) = (s.manage m id .ask).launch m id := by
  unfold turn
  dsimp only
  split
  · exact .inl rfl
  · exact .inr rfl

/-- A property of the tree and of a job with its phase that is kept whatever a manager does with
the job, apart from hearing of its copy. -/
def Kept (node : Node) (destination : NodeId) (I : Phase → Job → Namespace → Prop) : Prop :=
  ∀ p q j j' ns ns', j.destination = destination → I p j ns →
    Manager.JobStep node ns j p q j' ns' → I q j' ns'

/-- The service stands with a job as `I` says, and only the tree has changed since `s`. -/
structure Stands (s s' : Service) (m : ManagerId) (id : JobId) (runner : Runner) (j : Job)
    (I : Phase → Job → Namespace → Prop) : Prop where
  has : ∃ q j', s'.Has m id runner j' q ∧ j'.file = j.file ∧ j'.destination = j.destination ∧
    I q j' s'.world.namespace_
  fleet : s'.world.fleet = s.world.fleet
  site : s'.site = s.site

variable {I : Phase → Job → Namespace → Prop} {s' : Service}

theorem Stands.manage (kept : Kept (s.nodeOf j) j.destination I) (h : Stands s s' m id runner j I)
    {e : ManagerEvent} (quiet : ∀ r, e ≠ .ran r) :
    Stands s (s'.manage m id e) m id runner j I := by
  obtain ⟨q, j', has, file, destination, now⟩ := h.has
  obtain ⟨q', j'', ns, has', step, world, site⟩ := has.manage quiet
  have node : s'.nodeOf j' = s.nodeOf j := by rw [nodeOf, nodeOf, h.fleet, destination]
  rw [node] at step
  refine ⟨⟨q', j'', has', step.same.1.trans file, step.same.2.trans destination, ?_⟩, ?_, ?_⟩
  · rw [world]
    exact kept _ _ _ _ _ _ destination now step
  · rw [world]
    exact h.fleet
  · rw [site]
    exact h.site

theorem Stands.wake (h : Stands s s' m id runner j I) (t : Task) :
    Stands s (s'.wake t) m id runner j I := by
  obtain ⟨q, j', has, rest⟩ := h.has
  obtain ⟨ts, eq⟩ := wake_eq s' t
  rw [eq]
  exact ⟨⟨q, j', ⟨has.led, has.job⟩, rest⟩, h.fleet, h.site⟩

theorem Stands.turn (kept : Kept (s.nodeOf j) j.destination I) (h : Stands s s' m id runner j I) :
    Stands s (s'.turn (.job m id)) m id runner j I := by
  -- a job that is let in is started in the same turn, so a turn may manage it twice
  have asked : Stands s (s'.manage m id .ask) m id runner j I := h.manage kept (by simp)
  have started := asked.manage kept (e := .start) (by simp)
  rcases turn_cases s' m id with eq | eq
  · rw [eq]
    exact h.manage kept (by simp)
  · rw [eq]
    rcases launch_cases (s'.manage m id .ask) m id with eq | eq | eq
    · rw [eq]
      exact asked
    · rw [eq]
      exact started
    · rw [eq]
      exact started.wake _

end Service
end Archivist
