import Archivist.Proofs.Placement.Holders
import Mathlib.Data.List.Induction
set_option autoImplicit false

namespace Archivist

namespace Destination

/-- As many nodes as wanted, with different names, each from a look at the fleet. -/
structure Choice (s : Section) (nodes ms : List Member) : Prop where
  length : ms.length = s.copies
  names : (ms.map (·.node.name)).Nodup
  mem : ∀ m ∈ ms, m ∈ nodes

def others (nodes excluded : List Member) : List Member :=
  nodes.filter fun m => !(excluded.any fun e => e.node.name = m.node.name)

def noLess (a b : Member) : Bool := b.node.free ≤ a.node.free

def byRoom (nodes : List Member) : List Member := nodes.mergeSort noLess

/-- Fills up with the first of the nodes that some sort has arranged. -/
def fillUpBy (arrange : List Member → List Member) (s : Section) (chosen fill : List Member) :
    Option (List Member) :=
  let missing := s.copies - chosen.length
  let extra := (arrange (others fill chosen)).take missing
  if extra.length < missing then none else some (chosen ++ extra)

theorem fillUp_eq_fillUpBy (s : Section) (chosen fill : List Member) :
    fillUp s chosen fill = fillUpBy byRoom s chosen fill := rfl

section FillUp

variable {arrange : List Member → List Member} {s : Section} {nodes chosen fill ms : List Member}

theorem perm_byRoom (nodes : List Member) : (byRoom nodes).Perm nodes := List.mergeSort_perm _ _

theorem apart_of_mem_others {m : Member} (h : m ∈ others fill chosen) :
    m ∈ fill ∧ ∀ e ∈ chosen, e.node.name ≠ m.node.name := by
  obtain ⟨mem, apart⟩ := List.mem_filter.1 h
  simp only [Bool.not_eq_true', List.any_eq_false, decide_eq_true_eq] at apart
  exact ⟨mem, apart⟩

theorem names_append_others (names : (chosen.map (·.node.name)).Nodup)
    (distinct : (fill.map (·.node.name)).Nodup) {extra : List Member}
    (sub : extra.Subperm (others fill chosen)) :
    ((chosen ++ extra).map (·.node.name)).Nodup := by
  have apart : ((others fill chosen).map (·.node.name)).Nodup :=
    (List.filter_sublist.map _).nodup distinct
  obtain ⟨part, same, front⟩ := sub
  rw [List.map_append]
  refine List.nodup_append.2 ⟨names, ?_, ?_⟩
  · exact (same.map _).nodup_iff.1 ((front.map _).nodup apart)
  · intro x hx y hy eq
    obtain ⟨e, he, rfl⟩ := List.mem_map.1 hx
    obtain ⟨m, hm, rfl⟩ := List.mem_map.1 hy
    exact (apart_of_mem_others (front.subset (same.mem_iff.2 hm))).2 e he eq

theorem fillUpBy_eq_some (fits : chosen.length ≤ s.copies)
    (h : fillUpBy arrange s chosen fill = some ms) :
    ms = chosen ++ (arrange (others fill chosen)).take (s.copies - chosen.length) ∧
      ms.length = s.copies := by
  unfold fillUpBy at h
  dsimp only at h
  split at h
  · cases h
  · rename_i enough
    obtain rfl := Option.some.inj h
    refine ⟨rfl, ?_⟩
    rw [List.length_append]
    have most := List.length_take_le (s.copies - chosen.length) (arrange (others fill chosen))
    omega

/-- However the nodes are arranged, those who join are others, each once. -/
theorem take_arranged_subperm (perm : ∀ nodes, (arrange nodes).Perm nodes) (nodes : List Member)
    (count : Nat) : ((arrange nodes).take count).Subperm nodes :=
  (List.take_sublist _ _).subperm.trans (perm nodes).subperm

theorem fillUp_choice (distinct : (nodes.map (·.node.name)).Nodup)
    (fits : chosen.length ≤ s.copies) (names : (chosen.map (·.node.name)).Nodup)
    (mem : ∀ m ∈ chosen, m ∈ nodes) (h : fillUp s chosen nodes = some ms) : Choice s nodes ms := by
  rw [fillUp_eq_fillUpBy] at h
  obtain ⟨eq, length⟩ := fillUpBy_eq_some fits h
  have sub := take_arranged_subperm perm_byRoom (others nodes chosen) (s.copies - chosen.length)
  refine ⟨length, eq ▸ names_append_others names distinct sub, ?_⟩
  intro m hm
  rw [eq, List.mem_append] at hm
  rcases hm with old | new
  · exact mem m old
  · exact (apart_of_mem_others (sub.subset new)).1

end FillUp

theorem byFreeSpace_choice {s : Section} {fs : List FileEntry} {nodes ms : List Member}
    (distinct : (nodes.map (·.node.name)).Nodup)
    (h : byFreeSpace s fs nodes nodes = some ms) : fs ≠ [] ∧ Choice s nodes ms := by
  unfold byFreeSpace at h
  split at h
  · cases h
  · rename_i files
    have ne : fs ≠ [] := by simpa using files
    have names := names_completeHolders distinct fs
    refine ⟨ne, fillUp_choice distinct ?_ ?_ ?_ h⟩
    · rw [List.length_take]
      exact Nat.min_le_left _ _
    · exact ((List.take_sublist _ _).map _).nodup names
    · intro m hm
      exact ((mem_completeHolders distinct ne).1 (List.mem_of_mem_take hm)).1

def better (best : Option (Member × Nat)) (e : Member × Nat) : Option (Member × Nat) :=
  match best with
  | none => some e
  | some b => if e.2 > b.2 then some e else best

theorem best_of_ne_nil {es : List (Member × Nat)} (ne : es ≠ []) :
    ∃ e front back, es.foldl better none = some e ∧ es = front ++ e :: back ∧
      (∀ x ∈ front, x.2 < e.2) ∧ ∀ x ∈ back, x.2 ≤ e.2 := by
  -- induction on the entries searched so far: a greater one takes the place of the best
  induction es using List.reverseRecOn with
  | nil => exact absurd rfl ne
  | append_singleton es x ih =>
    rw [List.foldl_concat]
    by_cases first : es = []
    · subst first
      exact ⟨x, [], [], rfl, rfl, by simp, by simp⟩
    · obtain ⟨e, front, back, best, rfl, less, notMore⟩ := ih first
      rw [best]
      by_cases more : x.2 > e.2
      · refine ⟨x, front ++ e :: back, [], if_pos more, rfl, ?_, by simp⟩
        intro y hy
        rcases List.mem_append.1 hy with hy | hy
        · exact Nat.lt_trans (less y hy) more
        · rcases List.mem_cons.1 hy with rfl | hy
          · exact more
          · exact Nat.lt_of_le_of_lt (notMore y hy) more
      · refine ⟨e, front, back ++ [x], if_neg more, by simp, less, ?_⟩
        intro y hy
        rcases List.mem_append.1 hy with hy | hy
        · exact notMore y hy
        · rw [List.mem_singleton.1 hy]
          exact Nat.le_of_not_lt more

theorem anchor_eq (nodes : List Member) (fs : List FileEntry) :
    anchor nodes fs = ((counts nodes fs).foldl better none).map (·.1) := rfl

theorem anchor_eq_none_iff {nodes : List Member} {fs : List FileEntry} :
    anchor nodes fs = none ↔ counts nodes fs = [] := by
  rw [anchor_eq]
  constructor
  · intro nobody
    by_contra ne
    obtain ⟨e, -, -, best, -⟩ := best_of_ne_nil ne
    rw [best] at nobody
    cases nobody
  · intro empty
    rw [empty]
    rfl

theorem anchor_eq_some {nodes : List Member} {fs : List FileEntry} {a : Member}
    (h : anchor nodes fs = some a) :
    ∃ k front back, counts nodes fs = front ++ (a, k) :: back ∧
      (∀ x ∈ front, x.2 < k) ∧ ∀ x ∈ back, x.2 ≤ k := by
  have ne : counts nodes fs ≠ [] := by
    intro empty
    rw [anchor_eq_none_iff.2 empty] at h
    cases h
  obtain ⟨⟨b, k⟩, front, back, best, eq, less, notMore⟩ := best_of_ne_nil ne
  rw [anchor_eq, best] at h
  obtain rfl : b = a := Option.some.inj h
  exact ⟨k, front, back, eq, less, notMore⟩

theorem mem_of_anchor {nodes : List Member} (distinct : (nodes.map (·.node.name)).Nodup)
    {fs : List FileEntry} {a : Member} (h : anchor nodes fs = some a) : fs ≠ [] ∧ a ∈ nodes := by
  obtain ⟨k, front, back, eq, -⟩ := anchor_eq_some h
  constructor
  · rintro rfl
    cases h
  · have counted : (a, k) ∈ counts nodes fs := by simp [eq]
    exact (((tally_counts distinct fs).mem a k).1 counted).1

theorem byAffinity_choice {s : Section} {fs : List FileEntry} {nodes ms : List Member}
    (distinct : (nodes.map (·.node.name)).Nodup) (pos : 1 ≤ s.copies)
    (h : byAffinity s fs nodes nodes nodes = some ms) : fs ≠ [] ∧ Choice s nodes ms := by
  unfold byAffinity at h
  split at h
  · cases h
  · cases found : anchor nodes fs with
    | none =>
      rw [found] at h
      cases h
    | some a =>
      rw [found] at h
      obtain ⟨ne, mem⟩ := mem_of_anchor distinct found
      have fits : [a].length ≤ s.copies := pos
      have names : ([a].map (·.node.name)).Nodup := List.nodup_singleton _
      refine ⟨ne, fillUp_choice distinct fits names ?_ h⟩
      intro m hm
      rw [List.mem_singleton.1 hm]
      exact mem

end Destination

namespace Policy

variable {p : Policy} {w : World}

theorem find_byFreeSpace {d : Dir} {fs : List FileEntry} (finder : p.finder = .placement)
    (rule : p.section_.placement = .mostFree) (dir : p.directory = some d)
    (listed : p.files w.namespace_ d = .ok fs) :
    p.find w =
      .answer (Destination.byFreeSpace p.section_ fs (p.eligible w) (p.eligible w)) := by
  unfold find requireDirectory
  rw [finder, dir]
  dsimp only
  rw [rule, listed]

/-- Nodes are found only for a directory with files, and they are a choice of eligible nodes. -/
theorem find_eq_some (built : w.fleet.Built) (pos : 1 ≤ p.section_.copies) {ms : List Member}
    (h : p.find w = .answer (some ms)) :
    ∃ d fs, p.directory = some d ∧ p.files w.namespace_ d = .ok fs ∧ fs ≠ [] ∧
      Destination.Choice p.section_ (p.eligible w) ms := by
  have distinct := names_eligible (p := p) built
  unfold find requireDirectory at h
  cases dir : p.directory with
  | none =>
    rw [dir] at h
    cases finder : p.finder <;> rw [finder] at h <;> cases h
  | some d =>
    rw [dir] at h
    cases finder : p.finder with
    | broken => rw [finder] at h; cases h
    | failing => rw [finder] at h; cases h
    | placement =>
      rw [finder] at h
      dsimp only at h
      cases listed : p.files w.namespace_ d with
      | error e =>
        rw [listed] at h
        split at h
        · cases h
        · split at h <;> cases h
      | ok fs =>
        rw [listed] at h
        refine ⟨d, fs, rfl, listed, ?_⟩
        split at h
        · exact Destination.byFreeSpace_choice distinct (Search.answer.inj h)
        · split at h
          · cases h
          · exact Destination.byAffinity_choice distinct pos (Search.answer.inj h)

end Policy
end Archivist
