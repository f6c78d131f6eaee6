import Archivist.Proofs.Placement.Selection
import Mathlib.Data.List.Permutation
set_option autoImplicit false

/-!
# Filling up with the roomiest nodes

A choice keeps some nodes and is filled up with others: those with the most room, and of those with
the same room the ones that stand first in the fleet.  It fails only for want of nodes
(`fillUp_eq_none`), and otherwise nobody who is left out comes before a node that joined
(`filledUp_fillUp`).
-/

namespace Archivist

section Places

variable {α : Type} {l : List α} {a b : α}

theorem pair_sublist_of_mem (ha : a ∈ l) (hb : b ∈ l) (ne : a ≠ b) :
    [a, b].Sublist l ∨ [b, a].Sublist l := by
  obtain ⟨front, back, rfl⟩ := List.append_of_mem ha
  rcases List.mem_append.1 hb with before | rest
  · refine .inr (List.Sublist.append (List.singleton_sublist.2 before) ?_)
    exact List.singleton_sublist.2 List.mem_cons_self
  · rcases List.mem_cons.1 rest with rfl | after
    · exact absurd rfl ne
    · refine .inl (List.Sublist.trans ?_ (List.sublist_append_right front _))
      exact List.Sublist.cons_cons a (List.singleton_sublist.2 after)

theorem not_both_orders (nodup : l.Nodup) (ab : [a, b].Sublist l) : ¬ [b, a].Sublist l := by
  intro ba
  obtain ⟨front, back, rfl, ha, rest⟩ := List.cons_sublist_iff.1 ab
  have hb : b ∈ back := List.singleton_sublist.1 rest
  have apart := (List.nodup_append.1 nodup).2.2
  obtain ⟨left, right, eq, hleft, hright⟩ := List.sublist_append_iff.1 ba
  cases left with
  | nil =>
    obtain rfl : [b, a] = right := eq
    exact apart a ha a (hright.subset (by simp)) rfl
  | cons x left =>
    obtain rfl : b = x := (List.cons.inj eq).1
    exact apart b (hleft.subset List.mem_cons_self) b hb rfl

end Places

namespace Destination

/-- A node comes before another if it has more room, or as much and stands before it in the
fleet. -/
def Roomier (fleet : Fleet) (a b : Member) : Prop :=
  b.node.free < a.node.free ∨ b.node.free = a.node.free ∧ [a, b].Sublist fleet.all

section Room

variable {fleet : Fleet} {s : Section} {nodes kept ms : List Member} {m : Member}

theorem mem_byRoom : m ∈ byRoom nodes ↔ m ∈ nodes := List.mem_mergeSort

theorem noLess_trans (a b c : Member) : noLess a b → noLess b c → noLess a c := by
  simp only [noLess, decide_eq_true_eq]
  omega

theorem noLess_total (a b : Member) : noLess a b || noLess b a := by
  simp only [noLess, Bool.or_eq_true, decide_eq_true_eq]
  omega

theorem roomier_byRoom (nodup : fleet.all.Nodup) (sub : nodes.Sublist fleet.all) :
    (byRoom nodes).Pairwise (Roomier fleet) := by
  have sorted : (byRoom nodes).Pairwise fun a b => noLess a b :=
    List.pairwise_mergeSort noLess_trans noLess_total _
  have distinct : (byRoom nodes).Nodup := (perm_byRoom nodes).nodup_iff.2 (sub.nodup nodup)
  rw [List.pairwise_iff_forall_sublist] at sorted ⊢
  intro a b ab
  have room : b.node.free ≤ a.node.free := by simpa [noLess] using sorted ab
  rcases Nat.lt_or_eq_of_le room with more | same
  · exact .inl more
  · -- nodes of the same room are in order both ways, so the sort keeps the one that they had
    have ne : a ≠ b := by
      rintro rfl
      exact List.nodup_iff_sublist.1 distinct a ab
    have ha : a ∈ nodes := mem_byRoom.1 (ab.subset List.mem_cons_self)
    have hb : b ∈ nodes := mem_byRoom.1 (ab.subset (by simp))
    rcases pair_sublist_of_mem ha hb ne with before | after
    · exact .inr ⟨same, before.trans sub⟩
    · have turned : noLess b a := by simp [noLess, same]
      have ba := List.pair_sublist_mergeSort noLess_trans noLess_total turned after
      exact absurd ba (not_both_orders distinct ab)

theorem mem_others (distinct : (nodes.map (·.node.name)).Nodup) (sub : kept ⊆ nodes) :
    m ∈ others nodes kept ↔ m ∈ nodes ∧ m ∉ kept := by
  simp only [others, List.mem_filter, Bool.not_eq_true', List.any_eq_false, decide_eq_true_eq]
  refine and_congr_right fun hm => ?_
  constructor
  · intro apart hk
    exact apart m hk rfl
  · intro out e he name
    exact out (List.inj_on_of_nodup_map distinct (sub he) hm name ▸ he)

theorem length_others (distinct : (nodes.map (·.node.name)).Nodup)
    (names : (kept.map (·.node.name)).Nodup) (sub : kept ⊆ nodes) :
    kept.length + (others nodes kept).length = nodes.length := by
  have nodup := distinct.of_map
  have both : (kept ++ others nodes kept).Perm nodes := by
    refine (List.perm_ext_iff_of_nodup (List.nodup_append.2 ⟨names.of_map, ?_, ?_⟩) nodup).2 ?_
    · exact List.filter_sublist.nodup nodup
    · rintro a ha b hb rfl
      exact ((mem_others distinct sub).1 hb).2 ha
    · intro m
      rw [List.mem_append, mem_others distinct sub]
      by_cases hm : m ∈ kept
      · simp [hm, sub hm]
      · simp [hm]
  rw [← both.length_eq, List.length_append]

/-- A choice that keeps some nodes and takes the roomiest of the others. -/
structure FilledUp (s : Section) (fleet : Fleet) (kept ms : List Member) : Prop where
  choice : Choice s (eligible s fleet) ms
  filled : ∃ fill, ms = kept ++ fill ∧ fill.Pairwise (Roomier fleet) ∧
    ∀ m ∈ eligible s fleet, m ∉ ms → ∀ x ∈ fill, Roomier fleet x m

theorem fillUp_eq_none (distinct : (nodes.map (·.node.name)).Nodup)
    (names : (kept.map (·.node.name)).Nodup) (sub : kept ⊆ nodes)
    (fits : kept.length ≤ s.copies) : fillUp s kept nodes = none ↔ nodes.length < s.copies := by
  have length := length_others distinct names sub
  have found : ((byRoom (others nodes kept)).take (s.copies - kept.length)).length =
      min (s.copies - kept.length) (others nodes kept).length := by
    rw [List.length_take, (perm_byRoom _).length_eq]
  rw [fillUp_eq_fillUpBy]
  unfold fillUpBy
  dsimp only
  split
  · rename_i short
    refine iff_of_true rfl ?_
    omega
  · rename_i enough
    refine iff_of_false (by simp) ?_
    omega

theorem filledUp_fillUp (built : fleet.Built) (names : (kept.map (·.node.name)).Nodup)
    (sub : kept ⊆ eligible s fleet) (fits : kept.length ≤ s.copies)
    (h : fillUp s kept (eligible s fleet) = some ms) : FilledUp s fleet kept ms := by
  have distinct := names_eligible built.distinct s
  have choice := fillUp_choice distinct fits names sub h
  rw [fillUp_eq_fillUpBy] at h
  obtain ⟨eq, -⟩ := fillUpBy_eq_some fits h
  have order : (byRoom (others (eligible s fleet) kept)).Pairwise (Roomier fleet) :=
    roomier_byRoom built.distinct.names_all.of_map
      (List.filter_sublist.trans (eligible_sublist s fleet))
  have parts := List.take_append_drop (s.copies - kept.length)
    (byRoom (others (eligible s fleet) kept))
  rw [← parts, List.pairwise_append] at order
  obtain ⟨first, -, before⟩ := order
  refine ⟨choice, _, eq, first, ?_⟩
  intro m hm out x hx
  rw [eq, List.mem_append, not_or] at out
  -- a node that is left out stands behind the cut
  have behind : m ∈ byRoom (others (eligible s fleet) kept) :=
    mem_byRoom.2 ((mem_others distinct sub).2 ⟨hm, out.1⟩)
  rw [← parts, List.mem_append] at behind
  exact before x hx m (behind.resolve_left out.2)

end Room

end Destination
end Archivist
