import Archivist.Proofs.Jobs.Outcomes
set_option autoImplicit false

/-!
# Why a job has failed

A job whose node is online at each of its steps is ended by what its runner tells, and it is told
this once (`Crew.known_run`).  So how it ended shows what its runner told, and what its runner told
shows how it ended.
-/

namespace Archivist

/-- How a job ends whose node is online, by what its runner has told. -/
inductive Job.EndsBy (name : String) : RunResult → JobStatus → Prop where
  | panicked (text : String) :
      EndsBy name (.panicked text) (.failed (.executor (panicMessage text)))
  | done (s : TransferStatus) : EndsBy name (.moved s) .done
  | unlisted (s : TransferStatus) (e : ArchiveError) :
      EndsBy name (.moved s) (.failed (.executor e.message))
  | failed (e : ArchiveError) : EndsBy name (.failed e) (.failed (failureFor name e))

theorem Job.endsBy_settle {j : Job} (stands : j.status.isTerminal = false) {node : Node}
    (online : node.online = true) (ns : Namespace) (r : RunResult) :
    EndsBy node.name r (j.settle node ns r).1.status := by
  have here : ¬ (!node.online) = true := by simp [online]
  unfold settle
  cases r with
  | panicked text =>
    dsimp only
    rw [markFailed, transition_of_open stands]
    exact .panicked text
  | failed e =>
    dsimp only
    rw [if_neg here, markFailed, transition_of_open stands]
    exact .failed e
  | moved s =>
    dsimp only
    rw [if_neg here]
    cases ns.addReplica j.file.path node.name with
    | ok ns' =>
      have noted : ({ j with transfer := some s } : Job).status.isTerminal = false := stands
      dsimp only
      rw [markDone, transition_of_open noted]
      exact .done s
    | error e =>
      dsimp only
      rw [markFailed, transition_of_open stands]
      exact .unlisted s e

namespace Crew

variable {names : NodeId → String} {maxJobs : Nat} {ns : Namespace} {es : List CrewEvent}
  {c : Crew} {id : JobId} {j : Job} {p q : Phase} {st : JobStatus}

theorem run_concat (c : Crew) (es : List CrewEvent) (e : CrewEvent) :
    c.run names (es ++ [e]) = (c.run names es).step names e := run_append c es [e]

def Told (id : JobId) (r : RunResult) (c : Crew) (e : CrewEvent) : Prop :=
  c.manager.phase? id = some .running ∧ ∃ online, e = .act id online (.ran r)

theorem met_concat {P : Crew → CrewEvent → Prop} {e : CrewEvent} :
    Met names c (es ++ [e]) P ↔ Met names c es P ∨ P (c.run names es) e := by
  constructor
  · rintro ⟨before, x, after, eq, met⟩
    rcases List.eq_nil_or_concat after with rfl | ⟨after, y, rfl⟩
    · obtain ⟨front, last⟩ := List.append_inj' eq rfl
      rw [front, List.singleton_inj.1 last]
      exact .inr met
    · rw [List.concat_eq_append, ← List.cons_append, ← List.append_assoc] at eq
      obtain ⟨rfl, -⟩ := List.append_inj' eq rfl
      exact .inl ⟨before, x, after, rfl, met⟩
  · rintro (old | new)
    · exact old.append _
    · exact .last new

/-- What the runner of a job has told until the job is in a phase. -/
inductive Known (names : NodeId → String) (c : Crew) (es : List CrewEvent) (id : JobId)
    (name : String) : Phase → JobStatus → Prop where
  | untold {p : Phase} {st : JobStatus} (going : p ≠ .over) (runs : ∀ r, p ≠ .ran r)
      (nothing : ∀ r, ¬ Met names c es (Told id r)) : Known names c es id name p st
  | ran (r : RunResult) {st : JobStatus} (told : ∀ r', Met names c es (Told id r') ↔ r' = r) :
      Known names c es id name (.ran r) st
  | settled (r : RunResult) {st : JobStatus} (told : ∀ r', Met names c es (Told id r') ↔ r' = r)
      (ends : Job.EndsBy name r st) : Known names c es id name .over st

theorem Known.silent {name : String} (h : Known names c es id name p st) {e : CrewEvent}
    (silent : ∀ r, ¬ Told id r (c.run names es) e) :
    Known names c (es ++ [e]) id name p st := by
  have same : ∀ r, Met names c (es ++ [e]) (Told id r) ↔ Met names c es (Told id r) := by
    intro r
    rw [met_concat]
    exact or_iff_left (silent r)
  cases h with
  | untold going runs nothing => exact .untold going runs fun r => (same r).not.2 (nothing r)
  | ran r told => exact .ran r fun r' => (same r').trans (told r')
  | settled r told ends => exact .settled r (fun r' => (same r').trans (told r')) ends

theorem Known.onward {name : String} {st' : JobStatus} (h : Known names c es id name p st)
    (hopen : p ≠ .over) (unheard : ∀ r, p ≠ .ran r) (going : q ≠ .over) (runs : ∀ r, q ≠ .ran r) :
    Known names c es id name q st' := by
  cases h with
  | untold _ _ nothing => exact .untold going runs nothing
  | ran r _ => exact absurd rfl (unheard r)
  | settled _ _ _ => exact absurd rfl hopen

/-- What is told of a job whose node is online decides how it ends. -/
theorem Known.deed {j' : Job} {ns' : Namespace} {e : ManagerEvent}
    (h : Known names c es id (names j.destination) p j.status)
    (stands : p ≠ .over → j.status.isTerminal = false)
    (phase : (c.run names es).manager.phase? id = some p)
    (deed : Manager.Deed (nodeAt names j true) (c.run names es).ns j e p q j' ns')
    (heard : ∀ r, e = .ran r → p = .running → q = .ran r) :
    Known names c (es ++ [.act id true e]) id (names j.destination) q j'.status := by
  have silent : (∀ r, e = .ran r → p ≠ .running) →
      ∀ r, ¬ Told id r (c.run names es) (.act id true e) := by
    rintro elsewhere r ⟨running, online, eq⟩
    cases eq
    exact elsewhere r rfl (Option.some.inj (phase.symm.trans running))
  cases deed with
  | idle _ _ =>
    refine h.silent (silent fun r told running => ?_)
    have next := heard r told running
    rw [running] at next
    cases next
  | admitted | linedUp | started _ =>
    exact (h.silent (silent (by simp))).onward (by simp) (by simp) (by simp) (by simp)
  | refused away => cases away
  | heard r =>
    cases h with
    | untold _ _ nothing =>
      refine .ran r fun r' => ?_
      rw [met_concat, or_iff_right (nothing r')]
      constructor
      · rintro ⟨-, online, eq⟩
        cases eq
        rfl
      · rintro rfl
        exact ⟨phase, true, rfl⟩
  | settled r =>
    cases h.silent (silent (by simp)) with
    | untold _ runs _ => exact absurd rfl (runs r)
    | ran _ told =>
      have here : (nodeAt names j true).online = true := rfl
      exact .settled r told (Job.endsBy_settle (stands (by simp)) here (c.run names es).ns r)

theorem not_told_of_none {r : RunResult}
    (hnone : ((start maxJobs ns).run names es).jobs[id]? = none) :
    ¬ Met names (start maxJobs ns) es (Told id r) := by
  rintro ⟨before, e, after, rfl, phase, -⟩
  have fewer : ((start maxJobs ns).run names before).jobs.length ≤
      ((start maxJobs ns).run names (before ++ e :: after)).jobs.length := by
    have handed := fun es => congrArg List.length (sound_run names maxJobs ns es).handed
    simp only [List.length_map] at handed
    rw [handed, handed, handedIn, handedIn, List.filterMap_append, List.length_append]
    exact Nat.le_add_right _ _
  have missing : ((start maxJobs ns).run names before).jobs[id]? = none :=
    List.getElem?_eq_none_iff.2 (Nat.le_trans fewer (List.getElem?_eq_none_iff.1 hnone))
  rw [(sound_run names maxJobs ns before).no_phase missing] at phase
  cases phase

def KnowsOf (names : NodeId → String) (maxJobs : Nat) (ns : Namespace) (id : JobId)
    (es : List CrewEvent) : Prop :=
  ∀ p j, ((start maxJobs ns).run names es).manager.phase? id = some p →
    ((start maxJobs ns).run names es).jobs[id]? = some j →
    Known names (start maxJobs ns) es id (names j.destination) p j.status

theorem KnowsOf.submit (h : KnowsOf names maxJobs ns id es) (file : FileEntry)
    (destination : NodeId) (priority : Nat) :
    KnowsOf names maxJobs ns id (es ++ [.submit file destination priority]) := by
  intro p j phase hget
  have sound := sound_run names maxJobs ns es
  have silent : ∀ r, ¬ Told id r ((start maxJobs ns).run names es)
      (.submit file destination priority) := by
    rintro r ⟨-, online, eq⟩
    cases eq
  rw [run_concat, step] at phase hget
  dsimp only at phase hget
  rw [Manager.phase?_submit] at phase
  cases old : ((start maxJobs ns).run names es).jobs[id]? with
  | some x =>
    obtain ⟨q, was⟩ := sound.phase old
    rw [was, Option.some_or, Option.some.injEq] at phase
    rw [List.getElem?_append_left (List.getElem?_eq_some_iff.1 old).1] at hget
    rw [← phase]
    exact (h q j was hget).silent silent
  | none =>
    rw [sound.no_phase old, Option.none_or] at phase
    split at phase
    · cases phase
      refine .untold (by simp) (by simp) fun r => ?_
      rw [met_concat, not_or]
      exact ⟨not_told_of_none old, silent r⟩
    · cases phase

theorem KnowsOf.act (h : KnowsOf names maxJobs ns id es) (e : ManagerEvent) :
    KnowsOf names maxJobs ns id (es ++ [.act id true e]) := by
  intro q j' phase' hget'
  have sound := sound_run names maxJobs ns es
  rw [run_concat, step] at phase' hget'
  cases hget : ((start maxJobs ns).run names es).jobs[id]? with
  | none =>
    rw [hget] at hget'
    exact absurd (hget.symm.trans hget') (by simp)
  | some j =>
    obtain ⟨p, phase⟩ := sound.phase hget
    obtain ⟨r, next, deed⟩ := Manager.react_deed phase j (nodeAt names j true)
      ((start maxJobs ns).run names es).ns e
    rw [hget] at phase' hget'
    dsimp only at phase' hget'
    rw [List.getElem?_set_self (List.getElem?_eq_some_iff.1 hget).1, Option.some.injEq] at hget'
    rw [next, Option.some.injEq] at phase'
    subst hget' phase'
    have same : (names j.destination) = names (((start maxJobs ns).run names es).manager.react id j
        (nodeAt names j true) ((start maxJobs ns).run names es).ns e).job.destination := by
      rw [deed.same.2]
    rw [← same]
    refine (h p j phase hget).deed (sound.course id p j phase hget).isTerminal_eq_false phase deed ?_
    rintro told rfl rfl
    rw [Manager.react, phase] at next
    exact Option.some.inj (next.symm.trans (Manager.phase?_setPhase_self phase _))

theorem KnowsOf.act_other (h : KnowsOf names maxJobs ns id es) {other : JobId} (ne : id ≠ other)
    (here : Bool) (e : ManagerEvent) :
    KnowsOf names maxJobs ns id (es ++ [.act other here e]) := by
  intro q j phase' hget
  have sound := sound_run names maxJobs ns es
  have silent : ∀ r, ¬ Told id r ((start maxJobs ns).run names es) (.act other here e) := by
    rintro r ⟨-, online, eq⟩
    cases eq
    exact ne rfl
  rw [run_concat, step] at phase' hget
  cases was : ((start maxJobs ns).run names es).jobs[other]? with
  | none =>
    rw [was] at phase' hget
    exact (h q j phase' hget).silent silent
  | some x =>
    rw [was] at phase' hget
    dsimp only at phase' hget
    rw [List.getElem?_set_ne ne.symm] at hget
    rcases Manager.phase?_react_other ne sound.nodup x (nodeAt names x here)
      ((start maxJobs ns).run names es).ns e with still | ⟨waits, letIn⟩
    · exact (h q j (still.symm.trans phase') hget).silent silent
    · rw [letIn, Option.some.injEq] at phase'
      subst phase'
      exact ((h _ j waits hget).silent silent).onward (by simp) (by simp) (by simp) (by simp)

/-- What the runner of a job has told, and how the job ended, if its node is always online. -/
theorem known_run (names : NodeId → String) (maxJobs : Nat) (ns : Namespace) (es : List CrewEvent)
    (id : JobId) (online : ∀ here e, .act id here e ∈ es → here = true) :
    KnowsOf names maxJobs ns id es := by
  induction es using List.reverseRecOn with
  | nil =>
    intro p j phase hget
    cases hget
  | append_singleton es e ih =>
    have known := ih fun here e mem => online here e (List.mem_append_left _ mem)
    cases e with
    | submit file destination priority => exact known.submit file destination priority
    | act other here e =>
      by_cases mine : id = other
      · subst mine
        rw [online here e (List.mem_append_right _ (List.mem_singleton_self _))]
        exact known.act e
      · exact known.act_other mine here e

theorem endsBy_of_ended (online : ∀ here e, .act id here e ∈ es → here = true)
    (hget : ((start maxJobs ns).run names es).jobs[id]? = some j) (ended : j.isDone = true) :
    ∃ r, (∀ r', Met names (start maxJobs ns) es (Told id r') ↔ r' = r) ∧
      Job.EndsBy (names j.destination) r j.status := by
  have sound := sound_run names maxJobs ns es
  obtain ⟨p, phase⟩ := sound.phase hget
  have finished := (sound.course id p j phase hget).isTerminal_iff.1 ended
  have known := known_run names maxJobs ns es id online p j phase hget
  rw [finished] at known
  cases known with
  | untold going _ _ => exact absurd rfl going
  | settled r told ends => exact ⟨r, told, ends⟩

end Crew

end Archivist
