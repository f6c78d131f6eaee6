import Archivist.Proofs.Placement.Fleet
set_option autoImplicit false

namespace Archivist.Destination

/-- How often a node is named in the placement lists of some files. -/
def placements (fs : List FileEntry) (name : String) : Nat := (fs.flatMap (·.holders)).count name

theorem placements_cons (f : FileEntry) (fs : List FileEntry) (name : String) :
    placements (f :: fs) name = f.holders.count name + placements fs name := by
  simp [placements, List.count_append]

theorem isOn_iff {f : FileEntry} {name : String} : f.isOn name = true ↔ 0 < f.holders.count name := by
  simp [FileEntry.isOn, List.count_pos_iff]

section Tallies

variable {nodes : List Member}

theorem find?_name_eq_some (distinct : (nodes.map (·.node.name)).Nodup) {name : String}
    {m : Member} :
    nodes.find? (·.node.name = name) = some m ↔ m ∈ nodes ∧ m.node.name = name := by
  constructor
  · intro h
    exact ⟨List.mem_of_find?_eq_some h, by simpa using List.find?_some h⟩
  · rintro ⟨hm, rfl⟩
    cases hf : nodes.find? (·.node.name = m.node.name) with
    | none =>
      have missing := List.find?_eq_none.1 hf m hm
      simp at missing
    | some k =>
      have name : k.node.name = m.node.name := by simpa using List.find?_some hf
      rw [List.inj_on_of_nodup_map distinct (List.mem_of_find?_eq_some hf) hm name]

/-- The nodes that some names stand for, each once and with its number of mentions. -/
structure Tally (nodes : List Member) (names : List String) (acc : List (Member × Nat)) : Prop where
  once : (acc.map (·.1.node.name)).Nodup
  mem : ∀ m k, (m, k) ∈ acc ↔ m ∈ nodes ∧ k = names.count m.node.name ∧ 0 < k

theorem Tally.nil : Tally nodes [] [] := by
  refine ⟨by simp, ?_⟩
  intro m k
  simp only [List.not_mem_nil, List.count_nil, false_iff, not_and]
  omega

theorem Tally.again (distinct : (nodes.map (·.node.name)).Nodup) {names : List String}
    {acc : List (Member × Nat)} (t : Tally nodes names acc) {name : String} {e : Member × Nat}
    (he : e ∈ acc) (hn : e.1.node.name = name) :
    Tally nodes (names ++ [name])
      (acc.map fun e => if e.1.node.name = name then (e.1, e.2 + 1) else e) := by
  obtain ⟨hm, hk, hpos⟩ := (t.mem e.1 e.2).1 he
  refine ⟨?_, ?_⟩
  · have same : (acc.map fun e => if e.1.node.name = name then (e.1, e.2 + 1) else e).map
        (·.1.node.name) = acc.map (·.1.node.name) := by
      rw [List.map_map]
      apply List.map_congr_left
      intro x _
      simp only [Function.comp]
      split <;> rfl
    rw [same]
    exact t.once
  · intro m k
    rw [List.mem_map]
    by_cases here : m.node.name = name
    · have count : (names ++ [name]).count m.node.name = names.count m.node.name + 1 := by
        simp [List.count_append, here]
      rw [count]
      constructor
      · rintro ⟨x, hx, eq⟩
        have hx' := (t.mem x.1 x.2).1 hx
        split at eq
        · cases eq
          exact ⟨hx'.1, by rw [hx'.2.1], by omega⟩
        · rename_i other
          rw [eq] at other
          exact absurd here other
      · rintro ⟨hmem, rfl, -⟩
        have eq : e.1 = m := List.inj_on_of_nodup_map distinct hm hmem (hn.trans here.symm)
        refine ⟨e, he, ?_⟩
        rw [if_pos hn, ← eq, ← hk]
    · have count : (names ++ [name]).count m.node.name = names.count m.node.name := by
        simp [List.count_append, Ne.symm here]
      rw [count, ← t.mem m k]
      constructor
      · rintro ⟨x, hx, eq⟩
        split at eq
        · rename_i there
          cases eq
          exact absurd there here
        · rw [← eq]
          exact hx
      · intro hx
        exact ⟨(m, k), hx, by simp [here]⟩

theorem Tally.first (distinct : (nodes.map (·.node.name)).Nodup) {names : List String}
    {acc : List (Member × Nat)} (t : Tally nodes names acc) {m : Member} (hm : m ∈ nodes)
    (new : ∀ e ∈ acc, e.1.node.name ≠ m.node.name) :
    Tally nodes (names ++ [m.node.name]) (acc ++ [(m, 1)]) := by
  have unmet : names.count m.node.name = 0 := by
    by_contra pos
    exact new _ ((t.mem m _).2 ⟨hm, rfl, Nat.pos_of_ne_zero pos⟩) rfl
  refine ⟨?_, ?_⟩
  · simp only [List.map_append, List.map_cons, List.map_nil]
    refine List.nodup_append.2 ⟨t.once, by simp, ?_⟩
    intro x hx y hy
    obtain ⟨e, he, rfl⟩ := List.mem_map.1 hx
    rw [List.mem_singleton.1 hy]
    exact new e he
  · intro x k
    rw [List.mem_append, t.mem x k, List.mem_singleton]
    by_cases here : x.node.name = m.node.name
    · have count : (names ++ [m.node.name]).count x.node.name = 1 := by
        simp [List.count_append, here, unmet]
      rw [count, here, unmet]
      constructor
      · rintro (⟨-, rfl, pos⟩ | eq)
        · omega
        · cases eq
          exact ⟨hm, rfl, by omega⟩
      · rintro ⟨hx, rfl, -⟩
        rw [List.inj_on_of_nodup_map distinct hx hm here]
        exact Or.inr rfl
    · have count : (names ++ [m.node.name]).count x.node.name = names.count x.node.name := by
        simp [List.count_append, Ne.symm here]
      rw [count]
      constructor
      · rintro (h | eq)
        · exact h
        · cases eq
          exact absurd rfl here
      · exact Or.inl

theorem Tally.unknown {names : List String} {acc : List (Member × Nat)} (t : Tally nodes names acc)
    {name : String} (none : ∀ m ∈ nodes, m.node.name ≠ name) :
    Tally nodes (names ++ [name]) acc := by
  refine ⟨t.once, ?_⟩
  intro m k
  rw [t.mem m k]
  refine and_congr_right fun hm => ?_
  have count : (names ++ [name]).count m.node.name = names.count m.node.name := by
    simp [List.count_append, Ne.symm (none m hm)]
  rw [count]

theorem Tally.countAt (distinct : (nodes.map (·.node.name)).Nodup) {names : List String}
    {acc : List (Member × Nat)} (t : Tally nodes names acc) (name : String) :
    Tally nodes (names ++ [name]) (countAt nodes acc name) := by
  -- a name is counted at an entry that is there, begins a new one, or is nobody's
  unfold Destination.countAt
  split
  · rename_i met
    obtain ⟨e, he, hn⟩ := List.any_eq_true.1 met
    exact t.again distinct he (by simpa using hn)
  · rename_i unmet
    have new : ∀ e ∈ acc, e.1.node.name ≠ name := by
      intro e he eq
      exact unmet (List.any_eq_true.2 ⟨e, he, by simpa using eq⟩)
    cases found : nodes.find? (·.node.name = name) with
    | none =>
      apply t.unknown
      intro m hm eq
      have missing := List.find?_eq_none.1 found m hm
      simp [eq] at missing
    | some m =>
      obtain ⟨hm, rfl⟩ := (find?_name_eq_some distinct).1 found
      exact t.first distinct hm new

theorem Tally.foldl (distinct : (nodes.map (·.node.name)).Nodup) (more : List String)
    {names : List String} {acc : List (Member × Nat)} (t : Tally nodes names acc) :
    Tally nodes (names ++ more) (more.foldl (Destination.countAt nodes) acc) := by
  induction more generalizing names acc with
  | nil => simpa using t
  | cons name more ih =>
    have next := ih (t.countAt distinct name)
    rwa [List.append_assoc, List.singleton_append] at next

theorem counts_eq_foldl (nodes : List Member) (fs : List FileEntry) :
    counts nodes fs = (fs.flatMap (·.holders)).foldl (Destination.countAt nodes) [] := by
  rw [counts, List.foldl_flatMap]

theorem tally_counts (distinct : (nodes.map (·.node.name)).Nodup) (fs : List FileEntry) :
    Tally nodes (fs.flatMap (·.holders)) (counts nodes fs) := by
  rw [counts_eq_foldl]
  exact Tally.nil.foldl distinct _

theorem mem_completeHolders (distinct : (nodes.map (·.node.name)).Nodup) {fs : List FileEntry}
    (ne : fs ≠ []) {m : Member} :
    m ∈ completeHolders nodes fs ↔ m ∈ nodes ∧ placements fs m.node.name = fs.length := by
  have t := tally_counts distinct fs
  have pos : 0 < fs.length := List.length_pos_of_ne_nil ne
  rw [completeHolders, if_neg (by simpa using ne), List.mem_map]
  constructor
  · rintro ⟨⟨x, k⟩, hx, rfl⟩
    obtain ⟨hx, hk⟩ := List.mem_filter.1 hx
    obtain ⟨hm, eq, -⟩ := (t.mem x k).1 hx
    have full : k = fs.length := by simpa using hk
    exact ⟨hm, by rw [placements, ← eq, full]⟩
  · rintro ⟨hm, full⟩
    refine ⟨(m, fs.length), List.mem_filter.2 ⟨(t.mem m _).2 ⟨hm, full.symm, pos⟩, ?_⟩, rfl⟩
    simp

theorem names_completeHolders (distinct : (nodes.map (·.node.name)).Nodup) (fs : List FileEntry) :
    ((completeHolders nodes fs).map (·.node.name)).Nodup := by
  unfold completeHolders
  split
  · simp
  · rw [List.map_map]
    exact (List.filter_sublist.map _).nodup (tally_counts distinct fs).once

end Tallies

theorem length_le_placements {fs : List FileEntry} {name : String}
    (all : ∀ f ∈ fs, f.isOn name = true) : fs.length ≤ placements fs name := by
  induction fs with
  | nil => simp
  | cons f fs ih =>
    have here := isOn_iff.1 (all f (by simp))
    have rest := ih fun g hg => all g (by simp [hg])
    rw [placements_cons, List.length_cons]
    omega

/-- It is named exactly once for each if and only if no list repeats it. -/
theorem placements_eq_length_iff {fs : List FileEntry} {name : String}
    (all : ∀ f ∈ fs, f.isOn name = true) :
    placements fs name = fs.length ↔ ∀ f ∈ fs, f.holders.count name = 1 := by
  induction fs with
  | nil => simp [placements]
  | cons f fs ih =>
    have here := isOn_iff.1 (all f (by simp))
    have others : ∀ g ∈ fs, g.isOn name = true := fun g hg => all g (by simp [hg])
    have rest := length_le_placements others
    rw [placements_cons, List.length_cons, List.forall_mem_cons, ← ih others]
    omega

theorem placements_le_length {fs : List FileEntry} {name : String}
    (nodup : ∀ f ∈ fs, f.holders.Nodup) : placements fs name ≤ fs.length := by
  induction fs with
  | nil => simp [placements]
  | cons f fs ih =>
    have here := List.nodup_iff_count_le_one.1 (nodup f (by simp)) name
    have rest := ih fun g hg => nodup g (by simp [hg])
    rw [placements_cons, List.length_cons]
    omega

theorem placements_eq_length_iff_isOn {fs : List FileEntry} {name : String}
    (nodup : ∀ f ∈ fs, f.holders.Nodup) :
    placements fs name = fs.length ↔ ∀ f ∈ fs, f.isOn name = true := by
  induction fs with
  | nil => simp [placements]
  | cons f fs ih =>
    have here := List.nodup_iff_count_le_one.1 (nodup f (by simp)) name
    have others : ∀ g ∈ fs, g.holders.Nodup := fun g hg => nodup g (by simp [hg])
    have rest : placements fs name ≤ fs.length := placements_le_length others
    rw [placements_cons, List.length_cons, List.forall_mem_cons, ← ih others, isOn_iff]
    omega

end Archivist.Destination
