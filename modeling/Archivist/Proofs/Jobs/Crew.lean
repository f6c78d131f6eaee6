import Archivist.Proofs.Jobs.Deeds
import Archivist.Proofs.Tree.Spots
set_option autoImplicit false

/-!
# Jobs that share a manager

A `Crew` is a manager with the jobs that were handed to it and the tree in which their copies are
entered.  Jobs are handed in at any time and any job may take any step at any time; whether its node
is online is told anew at every step, so nodes come and go as they like.  What has become of a job
is told by what it has met on its way, and the tree by the jobs that are done.
-/

namespace Archivist

structure Crew where
  manager : Manager
  jobs : List Job := []
  ns : Namespace

inductive CrewEvent where
  | submit (file : FileEntry) (destination : NodeId) (priority : Nat)
  /-- A step of a job whose node is online or not at that moment. -/
  | act (id : JobId) (online : Bool) (e : ManagerEvent)

namespace Crew

def start (maxJobs : Nat) (ns : Namespace) : Crew := { manager := { maxJobs }, ns }

variable (names : NodeId → String)

def nodeAt (j : Job) (online : Bool) : Node := { name := names j.destination, free := 0, online }

def step (c : Crew) : CrewEvent → Crew
  | .submit file destination priority =>
    { c with
      manager := c.manager.submit c.jobs.length
      jobs := c.jobs ++ [{ file, destination, priority }] }
  | .act id online e =>
    match c.jobs[id]? with
    | none => c
    | some j =>
      let effect := c.manager.react id j (nodeAt names j online) c.ns e
      { manager := effect.manager, jobs := c.jobs.set id effect.job, ns := effect.ns }

def run (c : Crew) (es : List CrewEvent) : Crew := es.foldl (step names) c

variable {names}

theorem run_append (c : Crew) (es fs : List CrewEvent) :
    c.run names (es ++ fs) = (c.run names es).run names fs := List.foldl_append

/-! ## What has happened on the way -/

/-- At some point of a run an event came about as `P` says. -/
def Met (names : NodeId → String) (c : Crew) (es : List CrewEvent)
    (P : Crew → CrewEvent → Prop) : Prop :=
  ∃ before e after, es = before ++ e :: after ∧ P (c.run names before) e

variable {c : Crew} {es : List CrewEvent} {P : Crew → CrewEvent → Prop}

theorem Met.append (h : Met names c es P) (fs : List CrewEvent) : Met names c (es ++ fs) P := by
  obtain ⟨before, e, after, rfl, met⟩ := h
  exact ⟨before, e, after ++ fs, by simp, met⟩

theorem Met.last {e : CrewEvent} (h : P (c.run names es) e) : Met names c (es ++ [e]) P :=
  ⟨es, e, [], rfl, h⟩

def FoundOnline (id : JobId) (c : Crew) (e : CrewEvent) : Prop :=
  c.manager.phase? id = some .admitted ∧ e = .act id true .start

def ToldMoved (id : JobId) (s : TransferStatus) (c : Crew) (e : CrewEvent) : Prop :=
  c.manager.phase? id = some .running ∧ ∃ online, e = .act id online (.ran (.moved s))

/-- After its copy a job has found its node online, and the tree has taken the copy. -/
def Listed (names : NodeId → String) (id : JobId) (s : TransferStatus) (c : Crew) (e : CrewEvent) :
    Prop :=
  c.manager.phase? id = some (.ran (.moved s)) ∧ e = .act id true .settle ∧
    ∃ j ns, c.jobs[id]? = some j ∧ c.ns.addReplica j.file.path (names j.destination) = .ok ns

/-- The status of a job in each phase, with what it has met until then. -/
inductive Course (names : NodeId → String) (c : Crew) (es : List CrewEvent) (id : JobId) :
    Phase → JobStatus → Prop where
  | queued (p : Phase) (early : p = .submitted ∨ p = .waiting ∨ p = .admitted) :
      Course names c es id p .queued
  | running (found : Met names c es (FoundOnline id)) :
      Course names c es id .running .transferring
  | ran (r : RunResult) (found : Met names c es (FoundOnline id))
      (told : ∀ s, r = .moved s → Met names c es (ToldMoved id s)) :
      Course names c es id (.ran r) .transferring
  | done (s : TransferStatus) (found : Met names c es (FoundOnline id))
      (told : Met names c es (ToldMoved id s)) (listed : Met names c es (Listed names id s)) :
      Course names c es id .over .done
  | failed (f : JobFailure) : Course names c es id .over (.failed f)

variable {id : JobId} {p q : Phase} {st : JobStatus}

theorem Course.append (h : Course names c es id p st) (fs : List CrewEvent) :
    Course names c (es ++ fs) id p st := by
  cases h with
  | queued _ early => exact .queued _ early
  | running found => exact .running (found.append fs)
  | ran r found told => exact .ran r (found.append fs) fun s moved => (told s moved).append fs
  | done s found told listed =>
    exact .done s (found.append fs) (told.append fs) (listed.append fs)
  | failed f => exact .failed f

theorem Course.letIn (h : Course names c es id .waiting st) :
    Course names c es id .admitted st := by
  cases h with
  | queued _ _ => exact .queued _ (.inr (.inr rfl))

theorem Course.isTerminal_iff (h : Course names c es id p st) :
    st.isTerminal = true ↔ p = .over := by
  cases h with
  | queued _ early => rcases early with rfl | rfl | rfl <;> simp [JobStatus.isTerminal]
  | _ => simp [JobStatus.isTerminal]

theorem Course.isTerminal_eq_false (h : Course names c es id p st) (going : p ≠ .over) :
    st.isTerminal = false := by
  rw [← Bool.not_eq_true, h.isTerminal_iff]
  exact going

theorem Course.deed {j j' : Job} {ns' : Namespace} {online : Bool} {e : ManagerEvent}
    (h : Course names c es id p j.status) (hget : (c.run names es).jobs[id]? = some j)
    (phase : (c.run names es).manager.phase? id = some p)
    (deed : Manager.Deed (nodeAt names j online) (c.run names es).ns j e p q j' ns') :
    Course names c (es ++ [.act id online e]) id q j'.status := by
  cases deed with
  | idle _ _ => exact h.append _
  | admitted =>
    generalize j.status = st at h
    cases h with
    | queued _ _ => exact .queued _ (.inr (.inr rfl))
  | linedUp =>
    generalize j.status = st at h
    cases h with
    | queued _ _ => exact .queued _ (.inr (.inl rfl))
  | started here =>
    rw [Job.markTransferring, Job.transition_of_open (h.isTerminal_eq_false (by simp))]
    cases online with
    | true => exact .running (.last ⟨phase, rfl⟩)
    | false => cases here
  | refused away =>
    rw [Job.markFailed, Job.transition_of_open (h.isTerminal_eq_false (by simp))]
    exact .failed _
  | heard r =>
    generalize j.status = st at h
    cases h with
    | queued _ early => simp at early
    | running found =>
      refine .ran r (found.append _) ?_
      rintro s rfl
      exact .last ⟨phase, online, rfl⟩
  | settled r =>
    have stands := h.isTerminal_eq_false (by simp)
    rcases Job.settle_cases stands (nodeAt names j online) (c.run names es).ns r with
      ⟨done, ⟨s, rfl⟩, taken⟩ | ⟨⟨f, failed⟩, -⟩
    · obtain ⟨here, -, -⟩ := (Job.settle_done_iff stands _ _ _).1 done
      cases here
      have listed := Met.last (e := .act id true .settle)
        (show Listed names id s (c.run names es) _ from ⟨phase, rfl, j, _, hget, taken⟩)
      rw [done]
      generalize j.status = st at h
      cases h with
      | queued _ early => simp at early
      | ran _ found told => exact .done s (found.append _) ((told s rfl).append _) listed
    · rw [failed]
      exact .failed f

/-! ## What the jobs that are done make of the tree -/

def Placed (names : NodeId → String) (ns : Namespace) (jobs : List Job) (d : Dir) (k : Nat)
    (name : String) : Prop :=
  ∃ j : Job, j ∈ jobs ∧ j.status = .done ∧ ns.spot? j.file.path = some (d, k) ∧
    names j.destination = name

variable {ns : Namespace} {jobs : List Job} {j j' : Job} {d : Dir} {k : Nat} {name : String}

theorem set_same (hget : jobs[id]? = some j) : jobs.set id j = jobs := by
  obtain ⟨bound, rfl⟩ := List.getElem?_eq_some_iff.1 hget
  exact List.set_getElem_self bound

theorem placed_append (undone : j.status ≠ .done) :
    Placed names ns (jobs ++ [j]) d k name ↔ Placed names ns jobs d k name := by
  constructor
  · rintro ⟨x, mem, done, rest⟩
    rcases List.mem_append.1 mem with old | new
    · exact ⟨x, old, done, rest⟩
    · rw [List.mem_singleton.1 new] at done
      exact absurd done undone
  · rintro ⟨x, mem, rest⟩
    exact ⟨x, List.mem_append_left _ mem, rest⟩

theorem placed_set (hget : jobs[id]? = some j) (undone : j.status ≠ .done)
    (same : j'.file = j.file ∧ j'.destination = j.destination) :
    Placed names ns (jobs.set id j') d k name ↔
      Placed names ns jobs d k name ∨ j'.status = .done ∧ ns.spot? j.file.path = some (d, k) ∧
        names j.destination = name := by
  obtain ⟨file, destination⟩ := same
  have bound := (List.getElem?_eq_some_iff.1 hget).1
  constructor
  · rintro ⟨x, mem, done, spot, named⟩
    rcases List.mem_or_eq_of_mem_set mem with old | rfl
    · exact .inl ⟨x, old, done, spot, named⟩
    · rw [file] at spot
      rw [destination] at named
      exact .inr ⟨done, spot, named⟩
  · rintro (⟨x, mem, done, rest⟩ | ⟨done, spot, named⟩)
    · obtain ⟨i, hget'⟩ := List.mem_iff_getElem?.1 mem
      have other : id ≠ i := by
        rintro rfl
        exact undone (Option.some.inj (hget.symm.trans hget') ▸ done)
      refine ⟨x, List.mem_iff_getElem?.2 ⟨i, ?_⟩, done, rest⟩
      rw [List.getElem?_set_ne other, hget']
    · rw [← file] at spot
      rw [← destination] at named
      exact ⟨j', List.mem_set bound _, done, spot, named⟩

/-- The tree gains what the jobs that are done were to bring, whatever a manager makes of a job. -/
theorem grown_deed {now ns' : Namespace} {online : Bool} {e : ManagerEvent}
    (grown : ns.Grown (Placed names ns jobs) now) (hget : jobs[id]? = some j)
    (stands : p ≠ .over → j.status.isTerminal = false)
    (deed : Manager.Deed (nodeAt names j online) now j e p q j' ns') :
    ns.Grown (Placed names ns (jobs.set id j')) ns' := by
  have kept := set_same hget
  have undone : p ≠ .over → j.status ≠ .done := by
    intro going done
    rw [done] at stands
    cases stands going
  -- as long as the job is not done the same jobs are
  have unchanged : p ≠ .over → j'.status ≠ .done →
      ns.Grown (Placed names ns (jobs.set id j')) now := by
    intro going still
    refine grown.imp fun d k name => ?_
    rw [placed_set hget (undone going) deed.same]
    simp [still]
  cases deed with
  | idle _ _ => rwa [kept]
  | admitted => rwa [kept]
  | linedUp => rwa [kept]
  | heard _ => rwa [kept]
  | started _ =>
    have going : Phase.admitted ≠ .over := by simp
    apply unchanged going
    rw [Job.markTransferring, Job.transition_of_open (stands going)]
    simp
  | refused _ =>
    have going : Phase.admitted ≠ .over := by simp
    apply unchanged going
    rw [Job.markFailed, Job.transition_of_open (stands going)]
    simp
  | settled r =>
    have going : Phase.ran r ≠ .over := by simp
    rcases Job.settle_cases (stands going) (nodeAt names j online) now r with
      ⟨done, -, taken⟩ | ⟨⟨f, failed⟩, left⟩
    · refine (grown.addReplica taken).imp fun d k name => ?_
      rw [placed_set hget (undone going) (j.settle_same _ _ _), done]
      simp only [nodeAt, true_and, eq_comm]
    · rw [left]
      apply unchanged going
      rw [failed]
      simp

/-! ## What every run keeps -/

def handedIn (es : List CrewEvent) : List (FileEntry × NodeId) :=
  es.filterMap fun
    | .submit file destination _ => some (file, destination)
    | .act .. => none

structure Sound (names : NodeId → String) (maxJobs : Nat) (ns : Namespace) (es : List CrewEvent)
    (c : Crew) : Prop where
  limit : c.manager.limit = max 1 maxJobs
  keys : c.manager.keys.Perm (List.range c.jobs.length)
  within : c.manager.executing ≤ max 1 maxJobs
  handed : c.jobs.map (fun j => (j.file, j.destination)) = handedIn es
  course : ∀ (id : JobId) p (j : Job), c.manager.phase? id = some p → c.jobs[id]? = some j →
    Course names (start maxJobs ns) es id p j.status
  grown : ns.Grown (Placed names ns c.jobs) c.ns

variable {maxJobs : Nat}

theorem sound_start (names : NodeId → String) (maxJobs : Nat) (ns : Namespace) :
    Sound names maxJobs ns [] (start maxJobs ns) where
  limit := rfl
  keys := .refl _
  within := by simp [Crew.start, Manager.executing]
  handed := rfl
  course _ _ _ _ hget := by cases hget
  grown := (Namespace.Grown.refl ns).imp fun d k name => by simp [Placed, Crew.start]

theorem Sound.nodup (h : Sound names maxJobs ns es c) : c.manager.keys.Nodup :=
  h.keys.nodup_iff.2 List.nodup_range

theorem Sound.phase (h : Sound names maxJobs ns es c) (hget : c.jobs[id]? = some j) :
    ∃ p, c.manager.phase? id = some p := by
  have bound := (List.getElem?_eq_some_iff.1 hget).1
  have mem : id ∈ c.manager.keys := h.keys.mem_iff.2 (List.mem_range.2 bound)
  rw [← Option.isSome_iff_exists, ← Option.ne_none_iff_isSome]
  intro none
  exact Lookup.lookup_eq_none.1 none mem

theorem Sound.no_phase (h : Sound names maxJobs ns es c) (hnone : c.jobs[id]? = none) :
    c.manager.phase? id = none := by
  rw [Manager.phase?, Lookup.lookup_eq_none]
  intro mem
  have bound := List.mem_range.1 (h.keys.mem_iff.1 mem)
  exact absurd (List.getElem?_eq_none_iff.1 hnone) (Nat.not_le.2 bound)

theorem Sound.submit (h : Sound names maxJobs ns es c) (file : FileEntry) (destination : NodeId)
    (priority : Nat) :
    Sound names maxJobs ns (es ++ [.submit file destination priority])
      (c.step names (.submit file destination priority)) where
  limit := h.limit
  keys := by
    have keys : (c.step names (.submit file destination priority)).manager.keys =
        c.manager.keys ++ [c.jobs.length] := by
      simp [step, Manager.submit, Manager.keys]
    rw [keys]
    simp only [step, List.length_append, List.length_singleton, List.range_succ]
    exact h.keys.append_right _
  within := by
    have same : (c.manager.submit c.jobs.length).executing = c.manager.executing := by
      simp [Manager.submit, Manager.executing, Phase.executes]
    exact same ▸ h.within
  handed := by
    simp [step, handedIn, h.handed]
  course id p j phase hget := by
    dsimp only [step] at phase hget
    rw [Manager.phase?_submit] at phase
    rw [List.getElem?_append] at hget
    split at hget
    · rename_i old
      obtain ⟨q, was⟩ := h.phase hget
      rw [was, Option.some_or, Option.some.injEq] at phase
      exact (phase ▸ h.course id q j was hget).append _
    · rename_i new
      have hnone := h.no_phase (List.getElem?_eq_none_iff.2 (Nat.not_lt.1 new))
      rw [hnone, Option.none_or] at phase
      split at phase
      · cases phase
        have fresh := List.mem_singleton.1 (List.mem_of_getElem? hget)
        rw [fresh]
        exact .queued _ (.inl rfl)
      · cases phase
  grown := h.grown.imp fun d k name => (placed_append (by simp)).symm

/-- A step of one job lets at most another in, and changes no other job. -/
theorem Sound.act (h : Sound names maxJobs ns es ((start maxJobs ns).run names es))
    (id : JobId) (online : Bool) (e : ManagerEvent) :
    Sound names maxJobs ns (es ++ [.act id online e])
      (((start maxJobs ns).run names es).step names (.act id online e)) := by
  generalize now : (start maxJobs ns).run names es = c at h
  have handed : c.jobs.map (fun j => (j.file, j.destination)) =
      handedIn (es ++ [.act id online e]) := by
    rw [h.handed]
    simp [handedIn]
  rw [step]
  cases hget : c.jobs[id]? with
  | none => exact ⟨h.limit, h.keys, h.within, handed, fun i p j phase hget' =>
      (h.course i p j phase hget').append _, h.grown⟩
  | some j =>
    obtain ⟨p, phase⟩ := h.phase hget
    have course := h.course id p j phase hget
    obtain ⟨q, phase', deed⟩ := Manager.react_deed phase j (nodeAt names j online) c.ns e
    dsimp only
    refine ⟨?_, ?_, ?_, ?_, ?_, ?_⟩
    · rw [Manager.limit_react, h.limit]
    · rw [List.length_set]
      exact (Manager.keys_react h.nodup j _ c.ns e).trans h.keys
    · have within := h.within
      rw [← h.limit] at within ⊢
      exact Manager.executing_react h.nodup j _ c.ns e within
    · rw [← handed, List.map_set, deed.same.1, deed.same.2,
        ← List.map_set (f := fun j : Job => (j.file, j.destination)), set_same hget]
    · intro i r x phaseI atI
      by_cases mine : i = id
      · subst mine
        rw [phase', Option.some.injEq] at phaseI
        rw [List.getElem?_set_self (List.getElem?_eq_some_iff.1 hget).1, Option.some.injEq] at atI
        subst phaseI atI
        subst now
        exact course.deed hget phase deed
      · rw [List.getElem?_set_ne (Ne.symm mine)] at atI
        rcases Manager.phase?_react_other mine h.nodup j (nodeAt names j online) c.ns e with
          still | ⟨waits, letIn⟩
        · exact (h.course i r x (still.symm.trans phaseI) atI).append _
        · rw [letIn, Option.some.injEq] at phaseI
          subst phaseI
          exact ((h.course i _ x waits atI).letIn).append _
    · exact grown_deed h.grown hget course.isTerminal_eq_false deed

end Crew
end Archivist
