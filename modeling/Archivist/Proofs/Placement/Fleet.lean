import Archivist.Archive.Destination
import Mathlib.Data.List.Nodup
set_option autoImplicit false

namespace Archivist

namespace Fleet

structure Distinct (f : Fleet) : Prop where
  joined : ∀ id ∈ f.members, id < f.joined.length
  names : (f.members.map f.nameOf).Nodup

/-- The fleets that come about by joining and by changes of liveness, room and address. -/
inductive Built : Fleet → Prop where
  | empty : Built {}
  | add {f : Fleet} (n : Node) (h : Built f) : Built (f.add n).1
  | update {f : Fleet} (id : NodeId) (change : Node → Node)
      (name : ∀ n, (change n).name = n.name) (h : Built f) : Built (f.update id change)

theorem nameOf_update {f : Fleet} (id : NodeId) {change : Node → Node}
    (name : ∀ n, (change n).name = n.name) (m : NodeId) :
    (f.update id change).nameOf m = f.nameOf m := by
  simp only [nameOf, node?, update, List.getElem?_modify]
  by_cases hm : id = m
  · subst hm
    cases f.joined[id]? with
    | none => rfl
    | some n => simp [name]
  · simp [hm]

theorem nameOf_joined_append {f : Fleet} {m : NodeId} (hm : m < f.joined.length) (n : Node)
    (members : List NodeId) :
    (⟨f.joined ++ [n], members⟩ : Fleet).nameOf m = f.nameOf m := by
  simp [nameOf, node?, List.getElem?_append_left hm]

theorem nameOf_last (f : Fleet) (n : Node) (members : List NodeId) :
    (⟨f.joined ++ [n], members⟩ : Fleet).nameOf f.joined.length = n.name := by
  simp [nameOf, node?]

theorem mem_all {f : Fleet} {m : Member} :
    m ∈ f.all ↔ m.id ∈ f.members ∧ f.joined[m.id]? = some m.node := by
  simp only [all, List.mem_filterMap, member?, node?, Option.map_eq_some_iff]
  constructor
  · rintro ⟨id, hid, n, hn, rfl⟩
    exact ⟨hid, hn⟩
  · rintro ⟨hid, hn⟩
    exact ⟨m.id, hid, m.node, hn, rfl⟩

theorem nameOf_of_mem_all {f : Fleet} {m : Member} (h : m ∈ f.all) :
    f.nameOf m.id = m.node.name := by
  simp [nameOf, node?, (mem_all.1 h).2]

theorem map_name_all {f : Fleet} (joined : ∀ id ∈ f.members, id < f.joined.length) :
    f.all.map (·.node.name) = f.members.map f.nameOf := by
  unfold all
  generalize f.members = ids at joined
  induction ids with
  | nil => rfl
  | cons id ids ih =>
    have bound : id < f.joined.length := joined id (by simp)
    have here : f.member? id = some ⟨id, f.joined[id]⟩ := by simp [member?, node?, bound]
    have rest := ih fun m hm => joined m (by simp [hm])
    rw [List.filterMap_cons_some here, List.map_cons, List.map_cons, rest]
    simp [nameOf, node?, bound]

theorem Distinct.names_all {f : Fleet} (h : f.Distinct) : (f.all.map (·.node.name)).Nodup := by
  rw [map_name_all h.joined]
  exact h.names

theorem Distinct.add {f : Fleet} (h : f.Distinct) (n : Node) : (f.add n).1.Distinct := by
  unfold Fleet.add
  cases found : f.find? n.name with
  | none =>
    have fresh : n.name ∉ f.members.map f.nameOf := by
      intro mem
      rw [← map_name_all h.joined] at mem
      obtain ⟨m, hm, name⟩ := List.mem_map.1 mem
      have missing := List.find?_eq_none.1 found m hm
      simp [name] at missing
    have same : f.members.map (⟨f.joined ++ [n], f.members ++ [f.joined.length]⟩ : Fleet).nameOf =
        f.members.map f.nameOf :=
      List.map_congr_left fun m hm => nameOf_joined_append (h.joined m hm) n _
    refine ⟨?_, ?_⟩
    · intro id hid
      rcases List.mem_append.1 hid with old | new
      · rw [List.length_append]
        exact Nat.lt_add_right _ (h.joined id old)
      · simp [List.mem_singleton.1 new]
    · simp only [List.map_append, List.map_cons, List.map_nil, same, nameOf_last]
      refine List.nodup_append.2 ⟨h.names, by simp, ?_⟩
      intro x hx y hy eq
      exact fresh (by rw [← List.mem_singleton.1 hy, ← eq]; exact hx)
  | some old =>
    have mem : old ∈ f.all := List.mem_of_find?_eq_some found
    have name : f.nameOf old.id = n.name := by
      rw [nameOf_of_mem_all mem]
      simpa using List.find?_some found
    have same : (f.members.map fun m => if m = old.id then f.joined.length else m).map
        (⟨f.joined ++ [n], f.members.map fun m => if m = old.id then f.joined.length else m⟩ :
          Fleet).nameOf = f.members.map f.nameOf := by
      rw [List.map_map]
      apply List.map_congr_left
      intro m hm
      by_cases eq : m = old.id
      · simp only [Function.comp, eq, if_true, nameOf_last, name]
      · simp only [Function.comp, eq, if_false]
        exact nameOf_joined_append (h.joined m hm) n _
    refine ⟨?_, ?_⟩
    · intro id hid
      obtain ⟨m, hm, eq⟩ := List.mem_map.1 hid
      have bound := h.joined m hm
      rw [List.length_append, List.length_singleton, ← eq]
      split
      · exact Nat.lt_succ_self _
      · exact Nat.lt_succ_of_lt bound
    · simp only [same]
      exact h.names

theorem Distinct.update {f : Fleet} (h : f.Distinct) (id : NodeId) {change : Node → Node}
    (name : ∀ n, (change n).name = n.name) : (f.update id change).Distinct where
  joined m hm := by simpa [Fleet.update] using h.joined m hm
  names := by
    have same : (f.update id change).members.map (f.update id change).nameOf =
        f.members.map f.nameOf := List.map_congr_left fun m _ => nameOf_update id name m
    rw [same]
    exact h.names

theorem Built.distinct {f : Fleet} (h : Built f) : f.Distinct := by
  induction h with
  | empty => exact ⟨by simp, by simp⟩
  | add n _ ih => exact ih.add n
  | update id change name _ ih => exact ih.update id name

end Fleet

namespace Destination

theorem mem_eligible {s : Section} {fleet : Fleet} {m : Member} :
    m ∈ eligible s fleet ↔
      m ∈ fleet.all ∧ m.node.online = true ∧ s.isEligible m.node.name = true := by
  simp only [eligible, Fleet.available, List.mem_filter, and_assoc]

theorem eligible_sublist (s : Section) (fleet : Fleet) :
    (eligible s fleet).Sublist fleet.all :=
  List.filter_sublist.trans List.filter_sublist

theorem names_eligible {fleet : Fleet} (h : fleet.Distinct) (s : Section) :
    ((eligible s fleet).map (·.node.name)).Nodup :=
  ((eligible_sublist s fleet).map _).nodup h.names_all

end Destination
end Archivist
