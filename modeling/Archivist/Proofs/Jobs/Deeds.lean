import Archivist.Proofs.Copy.Turns
import Mathlib.Data.List.Basic
set_option autoImplicit false

namespace Archivist

theorem Job.settle_done_iff {j : Job} (stands : j.status.isTerminal = false) (node : Node)
    (ns : Namespace) (r : RunResult) :
    (j.settle node ns r).1.status = .done ↔
      node.online = true ∧ (∃ s, r = .moved s) ∧
        ∃ ns', ns.addReplica j.file.path node.name = .ok ns' := by
  unfold settle
  cases r with
  | panicked => simp [markFailed, transition_of_open stands]
  | failed e => cases node.online <;> simp [markFailed, transition_of_open stands]
  | moved s =>
    have noted : ({ j with transfer := some s } : Job).status.isTerminal = false := stands
    cases node.online with
    | false => simp [markFailed, transition_of_open stands]
    | true =>
      cases ns.addReplica j.file.path node.name with
      | ok ns' => simp [markDone, transition_of_open noted]
      | error e => simp [markFailed, transition_of_open stands]

namespace Manager

open Lookup

variable {m : Manager} {id : JobId}

def keys (m : Manager) : List JobId := m.jobs.map (·.1)

/-- What a step does with a job that it is for, according to its phase. -/
inductive Deed (node : Node) (ns : Namespace) (j : Job) :
    ManagerEvent → Phase → Phase → Job → Namespace → Prop where
  | idle (e : ManagerEvent) (p : Phase) : Deed node ns j e p p j ns
  | admitted : Deed node ns j .ask .submitted .admitted j ns
  | linedUp : Deed node ns j .ask .submitted .waiting j ns
  | started (online : node.online = true) :
      Deed node ns j .start .admitted .running j.markTransferring.1 ns
  | refused (away : node.online = false) :
      Deed node ns j .start .admitted .over (j.markFailed (.nodeUnavailable node.name)).1 ns
  | heard (r : RunResult) : Deed node ns j (.ran r) .running (.ran r) j ns
  | settled (r : RunResult) :
      Deed node ns j .settle (.ran r) .over (j.settle node ns r).1 (j.settle node ns r).2

theorem Deed.same {node : Node} {ns ns' : Namespace} {j j' : Job} {e : ManagerEvent} {p q : Phase}
    (deed : Deed node ns j e p q j' ns') :
    j'.file = j.file ∧ j'.destination = j.destination := by
  cases deed with
  | started _ => exact j.transition_same _
  | refused _ => exact j.transition_same _
  | settled r => exact j.settle_same node ns r
  | _ => exact ⟨rfl, rfl⟩

theorem react_deed {p : Phase} (h : m.phase? id = some p) (j : Job) (node : Node) (ns : Namespace)
    (e : ManagerEvent) :
    ∃ q, (m.react id j node ns e).manager.phase? id = some q ∧
      Deed node ns j e p q (m.react id j node ns e).job (m.react id j node ns e).ns := by
  cases e with
  | ask =>
    rw [react, h]
    cases p with
    | submitted =>
      dsimp only
      split
      · exact ⟨_, phase?_setPhase_self h _, .admitted⟩
      · exact ⟨_, by rw [phase?_lineUp, if_pos rfl], .linedUp⟩
    | _ => exact ⟨_, h, .idle _ _⟩
  | start =>
    rw [react, h]
    cases p with
    | admitted =>
      dsimp only
      cases online : node.online with
      | true =>
        rw [if_pos rfl, Job.start, if_pos online]
        exact ⟨_, phase?_setPhase_self h _, .started online⟩
      | false =>
        rw [if_neg (by simp), Job.start, if_neg (by simp [online])]
        exact ⟨_, phase?_finish h, .refused online⟩
    | _ => exact ⟨_, h, .idle _ _⟩
  | ran r =>
    rw [react, h]
    cases p with
    | running => exact ⟨_, phase?_setPhase_self h _, .heard r⟩
    | _ => exact ⟨_, h, .idle _ _⟩
  | settle =>
    rw [react, h]
    cases p with
    | ran r => exact ⟨_, phase?_finish h, .settled r⟩
    | _ => exact ⟨_, h, .idle _ _⟩

theorem phase?_submit (m : Manager) (id other : JobId) :
    (m.submit id).phase? other =
      (m.phase? other).or (if other = id then some .submitted else none) := by
  unfold submit phase?
  rw [List.lookup_append, lookup_cons_if, List.lookup_nil]

@[simp] theorem keys_setPhase (m : Manager) (id : JobId) (p : Phase) :
    (m.setPhase id p).keys = m.keys := by
  unfold keys setPhase
  rw [keys_map]
  exact fst_change (fun _ => p) id

@[simp] theorem keys_finish (m : Manager) (id : JobId) : (m.finish id).1.keys = m.keys := by
  unfold finish
  dsimp only
  split
  · rw [keys_setPhase, keys_setPhase]
  · rw [keys_setPhase]

theorem mem_keys_of_phase {p : Phase} (h : m.phase? id = some p) : id ∈ m.keys :=
  List.mem_map.2 ⟨_, mem_of_lookup h, rfl⟩

theorem keys_lineUp (nodup : m.keys.Nodup) (mem : id ∈ m.keys) :
    (m.lineUp id).keys.Perm m.keys := by
  have rest : (m.jobs.filter (·.1 ≠ id)).map (·.1) = m.keys.erase id := by
    rw [nodup.erase_eq_filter, keys, List.filter_map]
    congr 1
    apply List.filter_congr
    intro e _
    by_cases mine : e.1 = id <;> simp [mine]
  unfold lineUp
  change ((m.jobs.filter (·.1 ≠ id) ++ [(id, Phase.waiting)]).map (·.1)).Perm m.keys
  rw [List.map_append, rest]
  exact (List.perm_append_singleton id _).trans (List.perm_cons_erase mem).symm

theorem keys_react (nodup : m.keys.Nodup) (j : Job) (node : Node) (ns : Namespace)
    (e : ManagerEvent) : (m.react id j node ns e).manager.keys.Perm m.keys := by
  unfold react
  cases e with
  | ask =>
    dsimp only
    split
    · rename_i phase
      split
      · exact .of_eq (keys_setPhase _ _ _)
      · exact keys_lineUp nodup (mem_keys_of_phase phase)
    · exact .refl _
  | start =>
    dsimp only
    split
    · split
      · exact .of_eq (keys_setPhase _ _ _)
      · exact .of_eq (keys_finish _ _)
    · exact .refl _
  | ran r =>
    dsimp only
    split
    · exact .of_eq (keys_setPhase _ _ _)
    · exact .refl _
  | settle =>
    dsimp only
    split
    · exact .of_eq (keys_finish _ _)
    · exact .refl _

/-- One if a phase counts against the limit of a manager. -/
def weight (p : Phase) : Nat := if p.executes then 1 else 0

theorem countP_cons_executes (e : JobId × Phase) (es : List (JobId × Phase)) :
    (e :: es).countP (·.2.executes) = es.countP (·.2.executes) + weight e.2 := by
  rw [List.countP_cons, weight]

theorem executing_setPhase (nodup : m.keys.Nodup) {q : Phase} (h : m.phase? id = some q)
    (p : Phase) : (m.setPhase id p).executing + weight q = m.executing + weight p := by
  unfold executing setPhase
  dsimp only
  unfold keys at nodup
  unfold phase? at h
  revert nodup h
  generalize m.jobs = es
  intro nodup h
  induction es with
  | nil => cases h
  | cons e es ih =>
    rw [List.map_cons, List.nodup_cons] at nodup
    rw [lookup_cons_if] at h
    rw [List.map_cons, countP_cons_executes, countP_cons_executes]
    by_cases mine : e.1 = id
    · rw [if_pos mine.symm] at h
      have same : (es.map fun e => if e.1 = id then (id, p) else e) = es := by
        conv_rhs => rw [← List.map_id es]
        apply List.map_congr_left
        intro x mem
        rw [if_neg, id_eq]
        intro other
        exact nodup.1 (List.mem_map.2 ⟨x, mem, other.trans mine.symm⟩)
      rw [same, if_pos mine, ← Option.some.inj h]
      dsimp only
      omega
    · rw [if_neg (Ne.symm mine)] at h
      have rest := ih nodup.2 h
      rw [if_neg mine]
      omega

theorem executing_lineUp (m : Manager) (id : JobId) : (m.lineUp id).executing ≤ m.executing := by
  unfold lineUp executing
  dsimp only
  rw [List.countP_append]
  have less := (List.filter_sublist (p := (·.1 ≠ id)) (l := m.jobs)).countP_le
    (p := fun e => e.2.executes)
  simpa [Phase.executes] using less

theorem executing_finish (nodup : m.keys.Nodup) {q : Phase} (h : m.phase? id = some q)
    (executes : q.executes = true) : (m.finish id).1.executing ≤ m.executing := by
  have ended := executing_setPhase nodup h .over
  have one : weight q = 1 := by rw [weight, if_pos executes]
  have none : weight .over = 0 := rfl
  unfold finish
  dsimp only
  split
  · rename_i other next
    have nodup' : (m.setPhase id .over).keys.Nodup := by rwa [keys_setPhase]
    have waits : (m.setPhase id .over).phase? other = some .waiting :=
      lookup_of_mem nodup' (mem_of_next? next)
    -- the job that is let in takes the place of the one that has ended
    have letIn := executing_setPhase nodup' waits .admitted
    have light : weight .waiting = 0 := rfl
    have heavy : weight .admitted = 1 := rfl
    dsimp only
    omega
  · dsimp only
    omega

theorem executing_react (nodup : m.keys.Nodup) (j : Job) (node : Node) (ns : Namespace)
    (e : ManagerEvent) (within : m.executing ≤ m.limit) :
    (m.react id j node ns e).manager.executing ≤ m.limit := by
  unfold react
  cases e with
  | ask =>
    dsimp only
    split
    · rename_i phase
      split
      · have changed := executing_setPhase nodup phase .admitted
        have light : weight .submitted = 0 := rfl
        have heavy : weight .admitted = 1 := rfl
        dsimp only
        omega
      · exact Nat.le_trans (executing_lineUp m id) within
    · exact within
  | start =>
    dsimp only
    split
    · rename_i phase
      split
      · have changed := executing_setPhase nodup phase .running
        have heavy : weight .admitted = 1 := rfl
        have heavy' : weight .running = 1 := rfl
        dsimp only
        omega
      · exact Nat.le_trans (executing_finish nodup phase rfl) within
    · exact within
  | ran r =>
    dsimp only
    split
    · rename_i phase
      have changed := executing_setPhase nodup phase (.ran r)
      have heavy : weight .running = 1 := rfl
      have heavy' : weight (.ran r) = 1 := rfl
      dsimp only
      omega
    · exact within
  | settle =>
    dsimp only
    split
    · rename_i phase
      exact Nat.le_trans (executing_finish nodup phase rfl) within
    · exact within

theorem limit_react (m : Manager) (id : JobId) (j : Job) (node : Node) (ns : Namespace)
    (e : ManagerEvent) : (m.react id j node ns e).manager.limit = m.limit := by
  have finished : (m.finish id).1.limit = m.limit := by
    unfold finish
    dsimp only
    split <;> rfl
  unfold react
  cases e with
  | ask =>
    dsimp only
    split
    · split <;> rfl
    · rfl
  | start =>
    dsimp only
    split
    · split
      · rfl
      · exact finished
    · rfl
  | ran r =>
    dsimp only
    split <;> rfl
  | settle =>
    dsimp only
    split
    · exact finished
    · rfl

end Manager
end Archivist
