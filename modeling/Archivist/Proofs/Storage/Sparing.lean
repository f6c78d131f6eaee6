import Archivist.Proofs.Storage.Files
set_option autoImplicit false

/-!
# What an operation leaves alone

A transfer works on one file.  Whatever it does, every directory stays and every other file is as it
was (`Spares`), so a file that was found is found with the same bytes.  Each operation spares all
but its own file, and operations one after the other spare what each of them spares.
-/

namespace Archivist.Storage

/-- Only the file at one place may have changed, and directories may have been made. -/
structure Spares (place : Location) (s s' : Storage) : Prop where
  directories : ∀ l, s.get? l = some .directory → s'.get? l = some .directory
  files : ∀ l, l ≠ place → ∀ c, s'.get? l = some (.file c) ↔ s.get? l = some (.file c)

variable {s s' s'' : Storage} {place l : Location} {content : List UInt8}

theorem Spares.refl (place : Location) (s : Storage) : Spares place s s :=
  ⟨fun _ h => h, fun _ _ _ => Iff.rfl⟩

theorem Spares.trans (h : Spares place s s') (h' : Spares place s' s'') : Spares place s s'' :=
  ⟨fun l there => h'.directories l (h.directories l there),
    fun l other c => (h'.files l other c).trans (h.files l other c)⟩

theorem spares_put_directory (ne : l ≠ []) (missing : s.get? l = none) (place : Location) :
    Spares place s (s.put l .directory) := by
  constructor
  · intro l' there
    rw [get?_put s ne]
    split
    · rfl
    · exact there
  · intro l' _ c
    rw [get?_put s ne]
    split
    · rename_i here
      rw [here, missing]
      simp
    · rfl

theorem spares_put_file (ne : l ≠ []) (free : s.get? l ≠ some .directory) (new : List UInt8) :
    Spares l s (s.put l (.file new)) := by
  constructor
  · intro l' there
    rw [get?_put s ne, if_neg, there]
    rintro rfl
    exact free there
  · intro l' other c
    rw [get?_put s ne, if_neg other]

theorem spares_makeAlong (place : Location) (s : Storage) (here : Location) (names : List String) :
    Spares place s (s.makeAlong here names).1 := by
  induction names generalizing s here with
  | nil => exact .refl _ _
  | cons n rest ih =>
    unfold makeAlong
    split
    · exact .refl _ _
    · split
      · rename_i missing
        exact (spares_put_directory (by simp) missing place).trans (ih _ _)
      · exact ih _ _
      · exact .refl _ _

theorem spares_makeDirectories (place : Location) (s : Storage) (l : Location) :
    Spares place s (s.makeDirectories l).1 := by
  unfold makeDirectories
  split
  · exact .refl _ _
  · exact spares_makeAlong place s [] l

theorem find_eq_get? {r : Option Item} (h : s.find l = .ok r) : r = s.get? l := by
  unfold find at h
  split at h
  · cases h
  · exact walk_eq_get? h

theorem spares_openFile (ne : l ≠ []) (s : Storage) : Spares l s (s.openFile l).1 := by
  unfold openFile
  split
  · exact .refl _ _
  · rename_i found
    refine spares_put_file ne ?_ []
    rw [← find_eq_get? found]
    simp
  · exact .refl _ _
  · exact .refl _ _

theorem spares_setLength (ne : l ≠ []) (s : Storage) (n : Nat) :
    Spares l s (s.setLength l n).1 := by
  unfold setLength
  split
  · exact .refl _ _
  · split
    · exact .refl _ _
    · split
      · rename_i found
        exact spares_put_file ne (by simp [found]) _
      · exact .refl _ _

theorem spares_append (ne : l ≠ []) (s : Storage) (bytes : List UInt8) :
    Spares l s (s.append l bytes) := by
  unfold Storage.append
  split
  · rename_i found
    exact spares_put_file ne (by simp [found]) _
  · exact .refl _ _

/-- The way to a spared file leads through directories, which are still there. -/
theorem walk_spared {here : Location} {names : List String} (spared : Spares place s s')
    (other : here ++ names ≠ place) (h : s.walk here names = .ok (some (.file content))) :
    s'.walk here names = .ok (some (.file content)) := by
  induction names generalizing here with
  | nil =>
    rw [List.append_nil] at other
    rw [walk] at h ⊢
    rw [(spared.files here other content).2 (Except.ok.inj h)]
  | cons n rest ih =>
    unfold walk at h ⊢
    split at h
    · cases h
    · rename_i fits
      rw [if_neg fits]
      cases found : s.get? (here ++ [n]) with
      | none =>
        rw [found] at h
        cases rest <;> cases h
      | some item =>
        rw [found] at h
        cases rest with
        | nil =>
          obtain rfl : item = .file content := by
            cases item with
            | directory => cases h
            | file c => exact (Option.some.inj (Except.ok.inj h))
          rw [(spared.files _ other content).2 found]
        | cons m rest =>
          cases item with
          | file c => cases h
          | directory =>
            rw [spared.directories _ found]
            refine ih ?_ h
            rwa [List.append_assoc, List.singleton_append]

theorem Holds.spared (h : s.Holds l content) (other : l ≠ place) (spared : Spares place s s') :
    s'.Holds l content := by
  unfold Holds find at h ⊢
  split at h
  · cases h
  · rename_i clean
    rw [if_neg clean]
    exact walk_spared spared other h

def bytesAt (s : Storage) (l : Location) : List UInt8 :=
  match s.get? l with
  | some (.file c) => c
  | _ => []

theorem Spares.bytesAt (h : Spares place s s') (other : l ≠ place) :
    s'.bytesAt l = s.bytesAt l := by
  have files := h.files l other
  unfold Storage.bytesAt
  cases after : s'.get? l with
  | none =>
    cases before : s.get? l with
    | none => rfl
    | some item =>
      cases item with
      | directory => rfl
      | file c => rw [(files c).2 before] at after; cases after
  | some item =>
    cases item with
    | file c => rw [(files c).1 after]
    | directory =>
      cases before : s.get? l with
      | none => rfl
      | some item =>
        cases item with
        | directory => rfl
        | file c => rw [(files c).2 before] at after; cases after

theorem holds_openFile (ne : l ≠ []) (h : s.openFile l = (s', .ok ())) :
    s'.Holds l (s.bytesAt l) := by
  unfold openFile at h
  cases found : s.find l with
  | error e =>
    rw [found] at h
    cases h
  | ok r =>
    rw [found] at h
    have there := find_eq_get? found
    match r, h with
    | none, rfl =>
      rw [Storage.bytesAt, ← there]
      exact find_put found ne _
    | some (.file c), rfl =>
      rw [Storage.bytesAt, ← there]
      exact found

theorem get?_put_of_ne (ne : place ≠ []) (other : l ≠ place) (item : Item) :
    (s.put place item).get? l = s.get? l := by
  rw [get?_put s ne, if_neg other]

theorem get?_makeAlong_of_away {here : Location} {names : List String}
    (away : ∀ front, front <+: names → l ≠ here ++ front) :
    (s.makeAlong here names).1.get? l = s.get? l := by
  induction names generalizing s here with
  | nil => rfl
  | cons n rest ih =>
    have first : l ≠ here ++ [n] := away [n] (by simp)
    have later : ∀ front, front <+: rest → l ≠ here ++ [n] ++ front := by
      intro front leads
      rw [List.append_assoc]
      exact away (n :: front) (List.cons_prefix_cons.2 ⟨rfl, leads⟩)
    unfold makeAlong
    split
    · rfl
    · split
      · rw [ih later, get?_put_of_ne (by simp) first]
      · exact ih later
      · rfl

theorem get?_makeDirectories_of_away (away : ∀ front, front <+: place → l ≠ front) :
    (s.makeDirectories place).1.get? l = s.get? l := by
  unfold makeDirectories
  split
  · rfl
  · exact get?_makeAlong_of_away away

theorem get?_openFile_of_ne (ne : place ≠ []) (other : l ≠ place) :
    (s.openFile place).1.get? l = s.get? l := by
  unfold openFile
  split
  · rfl
  · exact get?_put_of_ne ne other _
  · rfl
  · rfl

theorem get?_setLength_of_ne (ne : place ≠ []) (other : l ≠ place) (n : Nat) :
    (s.setLength place n).1.get? l = s.get? l := by
  unfold setLength
  split
  · rfl
  · split
    · rfl
    · split
      · exact get?_put_of_ne ne other _
      · rfl

theorem get?_append_of_ne (ne : place ≠ []) (other : l ≠ place) (bytes : List UInt8) :
    (s.append place bytes).get? l = s.get? l := by
  unfold Storage.append
  split
  · exact get?_put_of_ne ne other _
  · rfl

end Archivist.Storage
