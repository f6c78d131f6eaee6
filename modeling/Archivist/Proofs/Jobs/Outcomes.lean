import Archivist.Proofs.Jobs.Crew
import Mathlib.Data.List.Induction
set_option autoImplicit false

namespace Archivist

namespace Crew

variable {names : NodeId → String} {maxJobs : Nat} {ns : Namespace} {es : List CrewEvent}
  {c : Crew} {id : JobId} {j : Job}

theorem sound_run (names : NodeId → String) (maxJobs : Nat) (ns : Namespace)
    (es : List CrewEvent) :
    Sound names maxJobs ns es ((start maxJobs ns).run names es) := by
  induction es using List.reverseRecOn with
  | nil => exact sound_start names maxJobs ns
  | append_singleton es e sound =>
    rw [run_append]
    cases e with
    | submit file destination priority => exact sound.submit file destination priority
    | act id online e => exact sound.act id online e

theorem step_of_terminal (sound : Sound names maxJobs ns es c) (hget : c.jobs[id]? = some j)
    (ended : j.status.isTerminal = true) (e : CrewEvent) :
    (c.step names e).jobs[id]? = some j := by
  cases e with
  | submit file destination priority =>
    rw [step, List.getElem?_append_left (List.getElem?_eq_some_iff.1 hget).1, hget]
  | act other online e =>
    rw [step]
    cases found : c.jobs[other]? with
    | none => exact hget
    | some x =>
      dsimp only
      by_cases mine : other = id
      · subst mine
        cases hget.symm.trans found
        obtain ⟨p, phase⟩ := sound.phase hget
        obtain ⟨q, -, deed⟩ := Manager.react_deed phase j (nodeAt names j online) c.ns e
        have hended := (sound.course other p j phase hget).isTerminal_iff.1 ended
        subst hended
        generalize c.manager.react other j (nodeAt names j online) c.ns e = effect at deed
        obtain ⟨manager, j', ns', letIn⟩ := effect
        cases deed with
        | idle _ _ => exact List.getElem?_set_self (List.getElem?_eq_some_iff.1 hget).1
      · rw [List.getElem?_set_ne mine, hget]

theorem run_of_terminal (hget : ((start maxJobs ns).run names es).jobs[id]? = some j)
    (ended : j.status.isTerminal = true) (fs : List CrewEvent) :
    ((start maxJobs ns).run names (es ++ fs)).jobs[id]? = some j := by
  induction fs using List.reverseRecOn with
  | nil => rwa [List.append_nil]
  | append_singleton fs e ih =>
    rw [← List.append_assoc, run_append]
    exact step_of_terminal (sound_run names maxJobs ns (es ++ fs)) ih ended e

theorem done_of_listed {s : TransferStatus}
    (hget : ((start maxJobs ns).run names es).jobs[id]? = some j)
    (listed : Met names (start maxJobs ns) es (Listed names id s)) : j.status = .done := by
  obtain ⟨before, e, after, rfl, phase, rfl, x, ns', hget', taken⟩ := listed
  have sound := sound_run names maxJobs ns before
  have stands := (sound.course id _ x phase hget').isTerminal_eq_false (by simp)
  have done := (Job.settle_done_iff stands (nodeAt names x true)
    ((start maxJobs ns).run names before).ns (.moved s)).2 ⟨rfl, ⟨s, rfl⟩, ns', taken⟩
  have next : ((start maxJobs ns).run names (before ++ [.act id true .settle])).jobs[id]? =
      some (x.settle (nodeAt names x true) ((start maxJobs ns).run names before).ns (.moved s)).1 := by
    rw [run_append]
    change (((start maxJobs ns).run names before).step names (.act id true .settle)).jobs[id]? = _
    rw [step, hget']
    dsimp only
    rw [Manager.react, phase]
    exact List.getElem?_set_self (List.getElem?_eq_some_iff.1 hget').1
  have later := run_of_terminal next (by rw [done]; rfl) after
  rw [List.append_assoc, List.singleton_append, hget, Option.some.injEq] at later
  rw [later, done]

theorem done_iff (hget : ((start maxJobs ns).run names es).jobs[id]? = some j) :
    j.status = .done ↔ ∃ s, Met names (start maxJobs ns) es (FoundOnline id) ∧
      Met names (start maxJobs ns) es (ToldMoved id s) ∧
      Met names (start maxJobs ns) es (Listed names id s) := by
  constructor
  · intro done
    have sound := sound_run names maxJobs ns es
    obtain ⟨p, phase⟩ := sound.phase hget
    have course := sound.course id p j phase hget
    rw [done] at course
    cases course with
    | done s found told listed => exact ⟨s, found, told, listed⟩
  · rintro ⟨s, -, -, listed⟩
    exact done_of_listed hget listed

end Crew

namespace Manager

theorem react_congr {a b : Node} (name : a.name = b.name) (online : a.online = b.online)
    (m : Manager) (id : JobId) (j : Job) (ns : Namespace) (e : ManagerEvent) :
    m.react id j a ns e = m.react id j b ns e := by
  have start : j.start a = j.start b := by
    unfold Job.start
    rw [name, online]
  have settle : ∀ r, j.settle a ns r = j.settle b ns r := by
    intro r
    unfold Job.settle
    rw [name, online]
  unfold react
  simp only [start, settle, online]

end Manager

/-- A service takes the steps of a crew with the jobs of a manager. -/
theorem Service.manage_eq_step {s : Service} {m : ManagerId} {manager : Manager} {runner : Runner}
    {id : JobId} {j : Job} (led : s.managers[m]? = some (manager, runner))
    (job : s.jobs[id]? = some j) (e : ManagerEvent) :
    let c := Crew.step s.world.fleet.nameOf ⟨manager, s.jobs, s.world.namespace_⟩
      (.act id (s.nodeOf j).online e)
    (s.manage m id e).managers[m]? = some (c.manager, runner) ∧
      (s.manage m id e).jobs = c.jobs ∧ (s.manage m id e).world.namespace_ = c.ns := by
  have named : (Crew.nodeAt s.world.fleet.nameOf j (s.nodeOf j).online).name = (s.nodeOf j).name := by
    unfold Crew.nodeAt Fleet.nameOf nodeOf
    cases s.world.fleet.node? j.destination <;> rfl
  have same := Manager.react_congr named rfl manager id j s.world.namespace_ e
  obtain ⟨ts, eq⟩ := manage_eq led job e
  rw [eq, Crew.step, job]
  dsimp only
  rw [same]
  exact ⟨List.getElem?_set_self (List.getElem?_eq_some_iff.1 led).1, rfl, rfl⟩

/-- Jobs that are handed to a manager, with their steps in any order, their nodes online or not at
any of them and their runners telling whatever they like.  The jobs are those that were handed in.
A job that has ended stays as it is, whatever comes after.  A job is done exactly if its node was
found online before and after the copy, its runner told that the file was moved and the tree took
the copy.  Never do more jobs execute than the manager allows, which is at least one.  And the tree
is what it was but for the nodes of the jobs that are done: each stands once behind the holders that
the file had, unless it was one of them. -/
theorem crew_run_status (names : NodeId → String) (maxJobs : Nat) (ns : Namespace)
    (es : List CrewEvent) :
    let c := (Crew.start maxJobs ns).run names es
    c.jobs.map (fun j => (j.file, j.destination)) = Crew.handedIn es ∧
    (∀ (id : JobId) (j : Job), c.jobs[id]? = some j →
      (j.status.isTerminal = true → ∀ fs, (c.run names fs).jobs[id]? = some j) ∧
      (j.status = .done ↔ ∃ s, Crew.Met names (Crew.start maxJobs ns) es (Crew.FoundOnline id) ∧
        Crew.Met names (Crew.start maxJobs ns) es (Crew.ToldMoved id s) ∧
        Crew.Met names (Crew.start maxJobs ns) es (Crew.Listed names id s))) ∧
    c.manager.executing ≤ max 1 maxJobs ∧
    ns.Grown (Crew.Placed names ns c.jobs) c.ns := by
  intro c
  have sound := Crew.sound_run names maxJobs ns es
  refine ⟨sound.handed, ?_, sound.within, sound.grown⟩
  intro id j hget
  refine ⟨?_, Crew.done_iff hget⟩
  intro ended fs
  rw [← Crew.run_append]
  exact Crew.run_of_terminal hget ended fs

def leftOnOne : Namespace := Namespace.empty.addFile 0 "/rls/T/a" 1 ["n0"]

def sharedNames (d : NodeId) : String := if d = 2 then "n2" else "n1"

def sharedFile : List CrewEvent :=
  let file : FileEntry := ⟨"/rls/T/a", 1, ["n0"]⟩
  let turn (id : JobId) (online : Bool) : List CrewEvent :=
    [.act id true .start, .act id true (.ran (.moved ⟨1, 1, 0, true⟩)), .act id online .settle]
  [.submit file 1 0, .submit file 1 0, .submit file 2 0,
      .act 0 true .ask, .act 1 true .ask, .act 2 true .ask] ++
    turn 0 true ++ turn 1 true ++ turn 2 false

theorem crew_run_sharedFile :
    let c := (Crew.start 1 leftOnOne).run sharedNames sharedFile
    c.jobs.map (·.status) = [.done, .done, .failed (.nodeUnavailable "n2")] ∧
      (c.ns.file? "/rls/T/a").map (·.holders) = some ["n0", "n1"] ∧
      ∀ fs, ((c.run sharedNames fs).jobs[2]?).map (·.status) =
        some (.failed (.nodeUnavailable "n2")) := by
  intro c
  have statuses : c.jobs.map (·.status) = [.done, .done, .failed (.nodeUnavailable "n2")] := by
    decide +kernel
  have holders : (c.ns.file? "/rls/T/a").map (·.holders) = some ["n0", "n1"] := by
    decide +kernel
  refine ⟨statuses, holders, ?_⟩
  have last : (c.jobs[2]?).map (·.status) = some (.failed (.nodeUnavailable "n2")) := by
    rw [← List.getElem?_map, statuses]
    rfl
  obtain ⟨j, hget, failed⟩ := Option.map_eq_some_iff.1 last
  obtain ⟨-, ends, -, -⟩ := crew_run_status sharedNames 1 leftOnOne sharedFile
  intro fs
  rw [(ends 2 j hget).1 (by rw [failed]; rfl) fs, Option.map_some, failed]

end Archivist
