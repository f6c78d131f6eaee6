import Archivist.Proofs.Lookup
import Archivist.Storage.Basic
set_option autoImplicit false

namespace Archivist.Storage

open Lookup

theorem get?_put (s : Storage) {l : Location} (ne : l ≠ []) (item : Item) (l' : Location) :
    (s.put l item).get? l' = if l' = l then some item else s.get? l' := by
  unfold get?
  by_cases root : l' = []
  · have other : l' ≠ l := fun h => ne (h.symm.trans root)
    rw [if_pos root, if_neg other, if_pos root]
  · rw [if_neg root, if_neg root]
    unfold put
    split
    · rename_i there
      change (s.items.map fun e => if e.1 = l then (l, item) else e).lookup l' = _
      rw [lookup_map_at fun _ => item]
      cases found : s.items.lookup l with
      | none =>
        obtain ⟨e, he, eq⟩ := List.any_eq_true.1 there
        have listed := List.mem_map.2 ⟨e, he, of_decide_eq_true eq⟩
        exact absurd listed (lookup_eq_none.1 found)
      | some old => rfl
    · rename_i missing
      rw [List.lookup_append, lookup_cons_if]
      by_cases eq : l' = l
      · have none : s.items.lookup l = none := by
          rw [lookup_eq_none]
          intro listed
          obtain ⟨e, he, here⟩ := List.mem_map.1 listed
          exact missing (List.any_eq_true.2 ⟨e, he, decide_eq_true here⟩)
        rw [if_pos eq, if_pos eq, eq, none]
        rfl
      · rw [if_neg eq, if_neg eq, List.lookup_nil, Option.or_none]

theorem walk_eq_get? {s : Storage} {here : Location} {names : List String} {r : Option Item}
    (h : s.walk here names = .ok r) : r = s.get? (here ++ names) := by
  induction names generalizing here with
  | nil =>
    rw [List.append_nil]
    exact (Except.ok.inj h).symm
  | cons n rest ih =>
    unfold walk at h
    split at h
    · cases h
    · split at h
      · rename_i found
        rw [found]
        exact (Except.ok.inj h).symm
      · cases h
      · cases h
      · rename_i found
        rw [found]
        exact (Except.ok.inj h).symm
      · have deeper := ih h
        rwa [List.append_assoc, List.singleton_append] at deeper

theorem walk_put {s : Storage} {here : Location} {names : List String} {r : Option Item}
    (h : s.walk here names = .ok r) (ne : names ≠ []) (item : Item) :
    (s.put (here ++ names) item).walk here names = .ok (some item) := by
  induction names generalizing here with
  | nil => exact absurd rfl ne
  | cons n rest ih =>
    have whole : here ++ n :: rest ≠ [] := by simp
    unfold walk at h ⊢
    split at h
    · cases h
    · rename_i fits
      rw [if_neg fits]
      cases rest with
      | nil =>
        rw [get?_put s whole, if_pos rfl]
        cases item <;> rfl
      | cons m rest =>
        have short : here ++ [n] ≠ here ++ n :: m :: rest := by simp
        rw [get?_put s whole, if_neg short]
        cases found : s.get? (here ++ [n]) with
        | none =>
          rw [found] at h
          cases h
        | some old =>
          rw [found] at h
          cases old with
          | file c => cases h
          | directory =>
            have deeper := ih h (by simp)
            rwa [List.append_assoc, List.singleton_append] at deeper

theorem find_put {s : Storage} {l : Location} {r : Option Item} (h : s.find l = .ok r)
    (ne : l ≠ []) (item : Item) : (s.put l item).find l = .ok (some item) := by
  unfold find at h ⊢
  split at h
  · cases h
  · rename_i clean
    rw [if_neg clean]
    exact walk_put h ne item

def Holds (s : Storage) (l : Location) (content : List UInt8) : Prop :=
  s.find l = .ok (some (.file content))

variable {s s' : Storage} {l : Location} {content : List UInt8}

theorem Holds.ne_nil (h : s.Holds l content) : l ≠ [] := by
  rintro rfl
  unfold Holds find at h
  split at h
  · cases h
  · cases h

theorem Holds.get? (h : s.Holds l content) : s.get? l = some (.file content) := by
  unfold Holds find at h
  split at h
  · cases h
  · exact (walk_eq_get? h).symm

theorem Holds.put (h : s.Holds l content) (new : List UInt8) :
    (s.put l (.file new)).Holds l new :=
  find_put h h.ne_nil (.file new)

theorem holds_of_openItem (h : s.openItem l = .ok (.file content)) : s.Holds l content := by
  unfold openItem at h
  cases found : s.find l with
  | error e =>
    rw [found] at h
    cases h
  | ok r =>
    rw [found] at h
    cases r with
    | none => cases h
    | some item => rw [Holds, found, Except.ok.inj h]

theorem holds_setLength {n : Nat} (old : s.Holds l content)
    (h : s.setLength l n = (s', .ok ())) : s'.Holds l (resize n content) := by
  unfold setLength at h
  split at h
  · cases h
  · split at h
    · cases h
    · rw [old.get?] at h
      have written : s.put l (.file (resize n content)) = s' := congrArg Prod.fst h
      rw [← written]
      exact old.put _

theorem Holds.append (h : s.Holds l content) (bytes : List UInt8) :
    (s.append l bytes).Holds l (content ++ bytes) := by
  unfold Storage.append
  rw [h.get?]
  exact h.put _

theorem openItem_of_holds (h : s.Holds l content) : s.openItem l = .ok (.file content) := by
  unfold openItem
  rw [h]
  rfl

theorem openFile_of_holds (h : s.Holds l content) : s.openFile l = (s, .ok ()) := by
  unfold openFile
  rw [h]

theorem setLength_of_holds (h : s.Holds l content) {n : Nat} (fits : n ≤ maxLength) :
    s.setLength l n = (s.put l (.file (resize n content)), .ok ()) := by
  have small : maxLength < Word.bound63 := by decide
  unfold setLength
  rw [if_neg (by omega), if_neg (by omega), h.get?]

theorem makeAlong_of_walk {here : Location} {names : List String} {n : String} {item : Item}
    (h : s.walk here (names ++ [n]) = .ok (some item)) : s.makeAlong here names = (s, .ok ()) := by
  induction names generalizing here with
  | nil => rfl
  | cons m rest ih =>
    obtain ⟨last, more, eq⟩ : ∃ last more, rest ++ [n] = last :: more :=
      List.exists_cons_of_ne_nil (by simp)
    rw [List.cons_append, eq] at h
    unfold walk at h
    split at h
    · cases h
    · rename_i short
      rw [makeAlong, if_neg short]
      cases found : s.get? (here ++ [m]) with
      | none =>
        rw [found] at h
        cases h
      | some above =>
        rw [found] at h
        cases above with
        | file c => cases h
        | directory => exact ih (eq ▸ h)

theorem makeDirectories_of_holds {parent : Location} {name : String}
    (h : s.Holds (parent ++ [name]) content) : s.makeDirectories parent = (s, .ok ()) := by
  unfold Holds find at h
  split at h
  · cases h
  · rename_i clean
    have above : ¬ hasNul parent = true := by
      rw [hasNul, List.any_append] at clean
      rw [hasNul]
      simp only [Bool.not_eq_true, Bool.or_eq_false_iff] at clean ⊢
      exact clean.1
    rw [makeDirectories, if_neg above]
    exact makeAlong_of_walk h

end Archivist.Storage
