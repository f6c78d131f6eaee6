import Mathlib.Data.List.Nodup
set_option autoImplicit false

namespace Archivist.Lookup

variable {κ α : Type}

theorem keys_map {β : Type} {f : κ × α → κ × β} (keys : ∀ e, (f e).1 = e.1) (es : List (κ × α)) :
    (es.map f).map (·.1) = es.map (·.1) := by
  rw [List.map_map]
  exact List.map_congr_left fun e _ => keys e

variable [DecidableEq κ]

theorem fst_change (f : α → α) (k : κ) (e : κ × α) :
    (if e.1 = k then (k, f e.2) else e).1 = e.1 := by
  split
  · rename_i here
    exact here.symm
  · rfl

variable [BEq κ] [LawfulBEq κ]

theorem lookup_cons_if (e : κ × α) (es : List (κ × α)) (k : κ) :
    (e :: es).lookup k = if k = e.1 then some e.2 else es.lookup k := by
  rw [List.lookup_cons]
  by_cases h : k = e.1
  · simp [h]
  · simp [h, beq_eq_false_iff_ne.2 h]

theorem lookup_map {β : Type} {f : κ × α → κ × β} (keys : ∀ e, (f e).1 = e.1)
    (es : List (κ × α)) (k : κ) : (es.map f).lookup k = (es.lookup k).map fun a => (f (k, a)).2 := by
  induction es with
  | nil => rfl
  | cons e es ih =>
    rw [List.map_cons, lookup_cons_if, lookup_cons_if, ih, keys]
    split
    · rename_i here
      rw [here]
      rfl
    · rfl

theorem lookup_map_snd {β : Type} (f : α → β) (es : List (κ × α)) (k : κ) :
    (es.map fun e => (e.1, f e.2)).lookup k = (es.lookup k).map f :=
  lookup_map (f := fun e => (e.1, f e.2)) (fun _ => rfl) es k

theorem lookup_map_at (f : α → α) (es : List (κ × α)) (k k' : κ) :
    (es.map fun e => if e.1 = k then (k, f e.2) else e).lookup k' =
      if k' = k then (es.lookup k).map f else es.lookup k' := by
  rw [lookup_map (fst_change f k)]
  by_cases eq : k' = k
  · simp [eq]
  · simp [eq]

theorem lookup_filter_ne (es : List (κ × α)) (k k' : κ) :
    (es.filter (·.1 ≠ k)).lookup k' = if k' = k then none else es.lookup k' := by
  induction es with
  | nil => simp
  | cons e es ih =>
    rw [List.filter_cons, lookup_cons_if]
    by_cases gone : e.1 = k
    · rw [if_neg (by simpa using gone), ih, gone]
      split <;> rfl
    · rw [if_pos (by simpa using gone), lookup_cons_if, ih]
      by_cases eq : k' = k
      · have ne : k' ≠ e.1 := fun h => gone (h.symm.trans eq)
        rw [if_neg ne, if_pos eq, if_pos eq]
      · rw [if_neg eq, if_neg eq]

theorem mem_of_lookup {es : List (κ × α)} {k : κ} {a : α} (h : es.lookup k = some a) :
    (k, a) ∈ es := by
  induction es with
  | nil => cases h
  | cons e es ih =>
    rw [lookup_cons_if] at h
    split at h
    · rename_i here
      rw [here, ← Option.some.inj h]
      exact List.mem_cons_self
    · exact List.mem_cons_of_mem _ (ih h)

theorem lookup_of_mem {es : List (κ × α)} (nodup : (es.map (·.1)).Nodup) {k : κ} {a : α}
    (h : (k, a) ∈ es) : es.lookup k = some a := by
  induction es with
  | nil => cases h
  | cons e es ih =>
    rw [List.map_cons, List.nodup_cons] at nodup
    rw [lookup_cons_if]
    rcases List.mem_cons.1 h with rfl | h
    · rw [if_pos rfl]
    · have other : k ≠ e.1 := by
        rintro rfl
        exact nodup.1 (List.mem_map.2 ⟨_, h, rfl⟩)
      rw [if_neg other]
      exact ih nodup.2 h

theorem lookup_eq_none {es : List (κ × α)} {k : κ} :
    es.lookup k = none ↔ k ∉ es.map (·.1) := by
  induction es with
  | nil => simp
  | cons e es ih =>
    rw [lookup_cons_if, List.map_cons, List.mem_cons, not_or, ← ih]
    by_cases h : k = e.1 <;> simp [h]

end Archivist.Lookup
