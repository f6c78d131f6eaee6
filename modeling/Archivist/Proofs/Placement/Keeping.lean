import Archivist.Proofs.Placement.Encounter
import Archivist.Proofs.Placement.Filling
set_option autoImplicit false

namespace Archivist

namespace Destination

variable {s : Section} {fleet : Fleet} {nodes : List Member} {fs : List FileEntry}

theorem kept_completeHolders (distinct : (nodes.map (·.node.name)).Nodup) (ne : fs ≠ [])
    (count : Nat) :
    (((completeHolders nodes fs).take count).map (·.node.name)).Nodup ∧
      (completeHolders nodes fs).take count ⊆ nodes ∧
      ((completeHolders nodes fs).take count).length ≤ count := by
  have front := List.take_sublist count (completeHolders nodes fs)
  refine ⟨(front.map _).nodup (names_completeHolders distinct fs), ?_, List.length_take_le _ _⟩
  intro m hm
  exact ((mem_completeHolders distinct ne).1 (front.subset hm)).1

theorem byFreeSpace_eq_none (s : Section) (fs : List FileEntry)
    (distinct : (nodes.map (·.node.name)).Nodup) :
    byFreeSpace s fs nodes nodes = none ↔ fs = [] ∨ nodes.length < s.copies := by
  unfold byFreeSpace
  by_cases ne : fs = []
  · simp [ne]
  · obtain ⟨names, sub, fits⟩ := kept_completeHolders distinct ne s.copies
    rw [if_neg (by simpa using ne), fillUp_eq_none distinct names sub fits]
    simp [ne]

theorem filledUp_byFreeSpace (built : fleet.Built) (ne : fs ≠ []) {ms : List Member}
    (h : byFreeSpace s fs (eligible s fleet) (eligible s fleet) = some ms) :
    FilledUp s fleet ((completeHolders (eligible s fleet) fs).take s.copies) ms := by
  obtain ⟨names, sub, fits⟩ :=
    kept_completeHolders (names_eligible built.distinct s) ne s.copies
  unfold byFreeSpace at h
  rw [if_neg (by simpa using ne)] at h
  exact filledUp_fillUp built names sub fits h

end Destination

namespace Policy

theorem find_of_unlisted {p : Policy} {w : World} {d : Dir} {e : ArchiveError}
    (finder : p.finder = .placement) (dir : p.directory = some d)
    (unlisted : p.files w.namespace_ d = .error e)
    (asked : p.section_.placement = .mostFree ∨ p.section_.copies ≤ (p.eligible w).length) :
    p.find w = .error e := by
  unfold find requireDirectory
  rw [finder, dir]
  dsimp only
  rw [unlisted]
  cases rule : p.section_.placement with
  | mostFree => rfl
  | affinity =>
    rw [rule] at asked
    exact if_neg (Nat.not_lt.2 (asked.resolve_left (by simp)))

end Policy

open Destination in
/-- A directory that is archived by room gets no nodes if and only if it has no files or there are
too few eligible nodes online.  Otherwise it gets as many as the section wants: those that hold all
its files, in the order in which they are met in the placement lists and no more than are wanted,
and behind them the roomiest of the others, so that nobody who is left out has more room than a
node that joined.  A directory that is not there is an error. -/
theorem find_mostFree_filledUp (p : Policy) (w : World) (d : Dir)
    (built : w.fleet.Built) (finder : p.finder = .placement)
    (rule : p.section_.placement = .mostFree) (dir : p.directory = some d) :
    (∀ e, p.files w.namespace_ d = .error e → p.find w = .error e) ∧
      ∀ fs, p.files w.namespace_ d = .ok fs → (∀ f ∈ fs, f.holders.Nodup) →
        (p.find w = .answer none ↔ fs = [] ∨ (p.eligible w).length < p.section_.copies) ∧
        (¬ (fs = [] ∨ (p.eligible w).length < p.section_.copies) →
          ∃ holders ms : List Member, p.find w = .answer (some ms) ∧
            (∀ m, m ∈ holders ↔ m ∈ p.eligible w ∧ HoldsAll fs m) ∧
            holders.Pairwise (MetBefore fs) ∧
            FilledUp p.section_ w.fleet (holders.take p.section_.copies) ms) := by
  refine ⟨fun e unlisted => Policy.find_of_unlisted finder dir unlisted (.inl rule), ?_⟩
  intro fs listed nodup
  have distinct := Policy.names_eligible (p := p) built
  have search := Policy.find_byFreeSpace finder rule dir listed
  have hnone := byFreeSpace_eq_none p.section_ fs distinct
  rw [search, Search.answer.injEq]
  refine ⟨hnone, ?_⟩
  intro enough
  have ne : fs ≠ [] := fun empty => enough (.inl empty)
  obtain ⟨ms, found⟩ := Option.ne_none_iff_exists'.1 fun nobody => enough (hnone.1 nobody)
  exact ⟨completeHolders (p.eligible w) fs, ms, congrArg Search.answer found,
    (completeHolders_exact_iff distinct ne).2 (balanced_of_nodup nodup),
    met_completeHolders distinct fs, filledUp_byFreeSpace built ne found⟩

def scattered : World where
  clock := default
  namespace_ := (Namespace.empty.addFile 0 "/rls/T/a" 1 ["n4", "n1"]).addFile 0 "/rls/T/b" 1
    ["n1", "n3", "n4"]
  fleet := ((((Fleet.add {} { name := "n1", free := 10 }).1.add { name := "n2", free := 300 }).1.add
    { name := "n3", free := 300 }).1.add { name := "n4", free := 20 }).1

def thriceCopied (placement : Placement) : Policy where
  section_ := { name := "rls", path := Dir.ofText "/rls", placement, copies := 3 }
  directory := some (Dir.ofText "/rls/T")

def scatteredNodes : List Member :=
  [⟨0, { name := "n1", free := 10 }⟩, ⟨1, { name := "n2", free := 300 }⟩,
    ⟨2, { name := "n3", free := 300 }⟩, ⟨3, { name := "n4", free := 20 }⟩]

theorem scattered_built : scattered.fleet.Built := .add _ (.add _ (.add _ (.add _ .empty)))

theorem files_scattered (placement : Placement) :
    (thriceCopied placement).files scattered.namespace_ (Dir.ofText "/rls/T") =
      .ok [⟨"/rls/T/a", 1, ["n4", "n1"]⟩, ⟨"/rls/T/b", 1, ["n1", "n3", "n4"]⟩] := by
  cases placement <;> decide +kernel

theorem find_mostFree_scattered :
    ∃ holders ms : List Member, (thriceCopied .mostFree).find scattered = .answer (some ms) ∧
      ms.map (·.node.name) = ["n4", "n1", "n2"] ∧
      Destination.FilledUp (thriceCopied .mostFree).section_ scattered.fleet (holders.take 3)
        ms := by
  have listed := files_scattered .mostFree
  obtain ⟨-, whole⟩ := find_mostFree_filledUp (thriceCopied .mostFree) scattered _
    scattered_built rfl rfl rfl
  obtain ⟨-, finds⟩ := whole _ listed (by decide)
  obtain ⟨holders, ms, found, -, -, filled⟩ := finds (by decide +kernel)
  have search := Policy.find_byFreeSpace rfl rfl rfl listed
  have nodes : (thriceCopied .mostFree).eligible scattered = scatteredNodes := by decide +kernel
  rw [found, Search.answer.injEq, nodes] at search
  have names : (some ms).map (List.map (·.node.name)) = some ["n4", "n1", "n2"] := by
    rw [search]
    cbv
  exact ⟨holders, ms, found, Option.some.inj names, filled⟩

end Archivist
