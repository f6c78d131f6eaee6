import Archivist.Archive.Policy
import Archivist.Proofs.Placement.Counts
import Mathlib.Data.List.Perm.Subperm
set_option autoImplicit false

/-!
# Who is taken for a complete holder

A policy compares the number of mentions of a node with the number of files, and never looks at
the files one by one.  The two agree if and only if the placement lists are `Balanced`.  Lists in
which a node stands twice need not be: a node may make up for a file that it lacks by another that
names it twice, and a node that has every file is overlooked if one of them names it twice.
-/

namespace Archivist

namespace Destination

def HoldsAll (fs : List FileEntry) (m : Member) : Prop := ∀ f ∈ fs, f.isOn m.node.name = true

instance (fs : List FileEntry) (m : Member) : Decidable (HoldsAll fs m) :=
  inferInstanceAs (Decidable (∀ f ∈ fs, _))

/-- A node that holds every file is named once for each, and no other node is named as often as
there are files. -/
def Balanced (nodes : List Member) (fs : List FileEntry) : Prop :=
  ∀ m ∈ nodes, (HoldsAll fs m → ∀ f ∈ fs, f.holders.count m.node.name = 1) ∧
    (¬ HoldsAll fs m → placements fs m.node.name ≠ fs.length)

theorem balanced_iff {nodes : List Member} {fs : List FileEntry} :
    Balanced nodes fs ↔
      ∀ m ∈ nodes, (placements fs m.node.name = fs.length ↔ HoldsAll fs m) := by
  refine forall₂_congr fun m _ => ?_
  -- for one who holds all files, being named as often as there are files is being named once each
  by_cases all : HoldsAll fs m
  · rw [← placements_eq_length_iff all]
    simp [all]
  · simp [all]

theorem balanced_of_nodup {nodes : List Member} {fs : List FileEntry}
    (nodup : ∀ f ∈ fs, f.holders.Nodup) : Balanced nodes fs := by
  rw [balanced_iff]
  intro m _
  exact placements_eq_length_iff_isOn nodup

theorem completeHolders_exact_iff {nodes : List Member} {fs : List FileEntry}
    (distinct : (nodes.map (·.node.name)).Nodup) (ne : fs ≠ []) :
    (∀ m, m ∈ completeHolders nodes fs ↔ m ∈ nodes ∧ HoldsAll fs m) ↔ Balanced nodes fs := by
  rw [balanced_iff]
  refine forall_congr' fun m => ?_
  rw [mem_completeHolders distinct ne]
  by_cases hm : m ∈ nodes <;> simp [hm]

end Destination

namespace Policy

/-- As many nodes of different names as the section wants are eligible and hold every file. -/
def EnoughHold (p : Policy) (w : World) (fs : List FileEntry) : Prop :=
  ∃ ms : List Member, (ms.map (·.node.name)).Nodup ∧ p.section_.copies ≤ ms.length ∧
    ∀ m ∈ ms, m ∈ p.eligible w ∧ Destination.HoldsAll fs m

variable {p : Policy} {w : World} {d : Dir} {fs : List FileEntry}

theorem isArchived_eq (listed : p.files w.namespace_ d = .ok fs) (ne : fs ≠ []) :
    p.isArchived w d = .ok (decide
      (p.section_.copies ≤ (Destination.completeHolders (p.eligible w) fs).length)) := by
  have some : fs.isEmpty = false := by simpa using ne
  unfold isArchived
  rw [listed]
  simp only [bind, Except.bind, some]
  rfl

theorem isArchived_eq_true (listed : p.files w.namespace_ d = .ok fs) (ne : fs ≠ []) :
    p.isArchived w d = .ok true ↔
      p.section_.copies ≤ (Destination.completeHolders (p.eligible w) fs).length := by
  rw [isArchived_eq listed ne, Except.ok.injEq, decide_eq_true_iff]

theorem names_eligible (built : w.fleet.Built) :
    ((p.eligible w).map (·.node.name)).Nodup :=
  Destination.names_eligible built.distinct p.section_

theorem length_le_completeHolders (built : w.fleet.Built) (ne : fs ≠ []) {ms : List Member}
    (names : (ms.map (·.node.name)).Nodup)
    (full : ∀ m ∈ ms, m ∈ p.eligible w ∧ Destination.placements fs m.node.name = fs.length) :
    ms.length ≤ (Destination.completeHolders (p.eligible w) fs).length := by
  refine (List.Nodup.subperm (names.of_map _) ?_).length_le
  intro m hm
  exact (Destination.mem_completeHolders (names_eligible built) ne).2 (full m hm)

theorem isArchived_iff_of_balanced (built : w.fleet.Built)
    (listed : p.files w.namespace_ d = .ok fs) (ne : fs ≠ [])
    (balanced : Destination.Balanced (p.eligible w) fs) :
    p.isArchived w d = .ok true ↔ p.EnoughHold w fs := by
  have precise := (Destination.completeHolders_exact_iff (names_eligible built) ne).2 balanced
  rw [isArchived_eq_true listed ne]
  constructor
  · intro enough
    exact ⟨_, Destination.names_completeHolders (names_eligible built) fs, enough,
      fun m hm => (precise m).1 hm⟩
  · rintro ⟨ms, names, enough, holds⟩
    refine Nat.le_trans enough (length_le_completeHolders built ne names ?_)
    intro m hm
    obtain ⟨mem, all⟩ := holds m hm
    exact ⟨mem, (Destination.balanced_iff.1 balanced m mem).2 all⟩

end Policy

/-- The nodes taken for complete holders are the eligible ones that are named as often as there are
files, each once, and a directory is archived if there are enough of them.  They are the nodes that
hold every file, and archived means that enough nodes do, exactly if the lists are balanced; lists
that repeat no node are. -/
theorem completeHolders_iff_balanced (p : Policy) (w : World) (d : Dir)
    (fs : List FileEntry) (built : w.fleet.Built) (listed : p.files w.namespace_ d = .ok fs)
    (ne : fs ≠ []) :
    let holders := Destination.completeHolders (p.eligible w) fs
    (p.isArchived w d = .ok true ↔ p.section_.copies ≤ holders.length) ∧
    (holders.map (·.node.name)).Nodup ∧
    (∀ m, m ∈ holders ↔
      m ∈ p.eligible w ∧ Destination.placements fs m.node.name = fs.length) ∧
    (((p.isArchived w d = .ok true ↔ p.EnoughHold w fs) ∧
      ∀ m, m ∈ holders ↔ m ∈ p.eligible w ∧ Destination.HoldsAll fs m) ↔
        Destination.Balanced (p.eligible w) fs) ∧
    ((∀ f ∈ fs, f.holders.Nodup) → Destination.Balanced (p.eligible w) fs) := by
  intro holders
  have distinct := Policy.names_eligible (p := p) built
  refine ⟨Policy.isArchived_eq_true listed ne, Destination.names_completeHolders distinct fs,
    fun m => Destination.mem_completeHolders distinct ne, ?_, Destination.balanced_of_nodup⟩
  constructor
  · rintro ⟨-, precise⟩
    exact (Destination.completeHolders_exact_iff distinct ne).1 precise
  · intro balanced
    exact ⟨Policy.isArchived_iff_of_balanced built listed ne balanced,
      (Destination.completeHolders_exact_iff distinct ne).2 balanced⟩

def doublyListed : World where
  clock := default
  namespace_ := (Namespace.empty.addFile 0 "/rls/T/a" 1 ["n1", "n1"]).addFile 0 "/rls/T/b" 1 []
  fleet := (Fleet.add {} { name := "n1", free := 0 }).1

def onceCopied : Policy where
  section_ := { name := "rls", path := Dir.ofText "/rls", placement := .mostFree }

theorem completeHolders_doublyListed :
    doublyListed.fleet.Built ∧
    ∃ a b : FileEntry,
      onceCopied.files doublyListed.namespace_ (Dir.ofText "/rls/T") = .ok [a, b] ∧
      b.holders = [] ∧
      onceCopied.isArchived doublyListed (Dir.ofText "/rls/T") = .ok true ∧
      ¬ onceCopied.EnoughHold doublyListed [a, b] ∧
      ¬ Destination.Balanced (onceCopied.eligible doublyListed) [a, b] := by
  have built : doublyListed.fleet.Built := .add _ .empty
  have listed : onceCopied.files doublyListed.namespace_ (Dir.ofText "/rls/T") =
      .ok [⟨"/rls/T/a", 1, ["n1", "n1"]⟩, ⟨"/rls/T/b", 1, []⟩] := by decide +kernel
  obtain ⟨archived, -, -, agree, -⟩ :=
    completeHolders_iff_balanced onceCopied doublyListed _ _ built listed (by simp)
  have yes : onceCopied.isArchived doublyListed (Dir.ofText "/rls/T") = .ok true :=
    archived.2 (by decide +kernel)
  have nobody : ¬ onceCopied.EnoughHold doublyListed
      [⟨"/rls/T/a", 1, ["n1", "n1"]⟩, ⟨"/rls/T/b", 1, []⟩] := by
    rintro ⟨ms, -, enough, holds⟩
    obtain ⟨m, hm⟩ := List.exists_mem_of_length_pos (Nat.lt_of_lt_of_le Nat.zero_lt_one enough)
    have second := (holds m hm).2 _ (List.mem_cons_of_mem _ (List.mem_singleton_self _))
    cases second
  refine ⟨built, _, _, listed, rfl, yes, nobody, ?_⟩
  intro balanced
  exact nobody ((agree.2 balanced).1.1 yes)

end Archivist
