import Archivist.Proofs.Placement.Holders
set_option autoImplicit false

namespace Archivist.Destination

def NamedBefore (names : List String) (a b : Member) : Prop :=
  names.idxOf a.node.name < names.idxOf b.node.name

/-- One node is met before the other in the placement lists of some files. -/
def MetBefore (fs : List FileEntry) : Member → Member → Prop := NamedBefore (fs.flatMap (·.holders))

section Order

variable {nodes : List Member} {names : List String} {acc : List (Member × Nat)}

theorem Tally.named (t : Tally nodes names acc) {e : Member × Nat} (he : e ∈ acc) :
    e.1.node.name ∈ names := by
  obtain ⟨-, eq, pos⟩ := (t.mem e.1 e.2).1 he
  rw [eq] at pos
  exact List.count_pos_iff.1 pos

theorem Tally.named_before_append (t : Tally nodes names acc)
    (order : acc.Pairwise fun a b => NamedBefore names a.1 b.1) (more : List String) :
    acc.Pairwise fun a b => NamedBefore (names ++ more) a.1 b.1 := by
  refine order.imp_of_mem ?_
  intro a b ha hb before
  unfold NamedBefore
  rw [List.idxOf_append_of_mem (t.named ha), List.idxOf_append_of_mem (t.named hb)]
  exact before

theorem Tally.named_before_countAt (distinct : (nodes.map (·.node.name)).Nodup)
    (t : Tally nodes names acc) (order : acc.Pairwise fun a b => NamedBefore names a.1 b.1)
    (name : String) :
    (Destination.countAt nodes acc name).Pairwise
      fun a b => NamedBefore (names ++ [name]) a.1 b.1 := by
  have grown := t.named_before_append order [name]
  unfold Destination.countAt
  split
  · rw [List.pairwise_map]
    refine grown.imp ?_
    intro a b before
    split <;> split <;> exact before
  · rename_i unmet
    cases found : nodes.find? (·.node.name = name) with
    | none => exact grown
    | some m =>
      obtain ⟨hm, rfl⟩ := (find?_name_eq_some distinct).1 found
      -- a node without an entry has not been named, so its name is the last one that is new
      have new : m.node.name ∉ names := by
        intro named
        have entry := (t.mem m _).2 ⟨hm, rfl, List.count_pos_iff.2 named⟩
        exact unmet (List.any_eq_true.2 ⟨_, entry, by simp⟩)
      refine List.pairwise_append.2 ⟨grown, List.pairwise_singleton _ _, ?_⟩
      intro a ha b hb
      rw [List.mem_singleton.1 hb]
      unfold NamedBefore
      rw [List.idxOf_append_of_mem (t.named ha), List.idxOf_append_of_notMem new]
      exact Nat.lt_add_right _ (List.idxOf_lt_length_iff.2 (t.named ha))

theorem Tally.named_before_foldl (distinct : (nodes.map (·.node.name)).Nodup) (more : List String)
    (t : Tally nodes names acc) (order : acc.Pairwise fun a b => NamedBefore names a.1 b.1) :
    (more.foldl (Destination.countAt nodes) acc).Pairwise
      fun a b => NamedBefore (names ++ more) a.1 b.1 := by
  induction more generalizing names acc with
  | nil => simpa using order
  | cons name more ih =>
    have next := ih (t.countAt distinct name) (t.named_before_countAt distinct order name)
    rwa [List.append_assoc, List.singleton_append] at next

theorem met_counts (distinct : (nodes.map (·.node.name)).Nodup) (fs : List FileEntry) :
    (counts nodes fs).Pairwise fun a b => MetBefore fs a.1 b.1 := by
  rw [counts_eq_foldl]
  exact Tally.nil.named_before_foldl distinct _ List.Pairwise.nil

theorem met_completeHolders (distinct : (nodes.map (·.node.name)).Nodup) (fs : List FileEntry) :
    (completeHolders nodes fs).Pairwise (MetBefore fs) := by
  unfold completeHolders
  split
  · exact List.Pairwise.nil
  · exact List.pairwise_map.2 ((met_counts distinct fs).filter _)

end Order

end Archivist.Destination
