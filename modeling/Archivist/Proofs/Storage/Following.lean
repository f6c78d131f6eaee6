import Archivist.Proofs.Storage.Sparing
import Archivist.Storage.Paths
import Mathlib.Data.List.Induction
set_option autoImplicit false

namespace Archivist

def Pathname.location (ps : List PathPart) : Location := ps.foldl PathPart.onward []

namespace Storage

open Pathname

variable {s : Storage} {here l : Location} {ps : List PathPart}

theorem hasNul_append (l m : Location) : hasNul (l ++ m) = (hasNul l || hasNul m) := by
  unfold hasNul
  exact List.any_append

theorem openItem_eq_directory : s.openItem l = .ok .directory ↔ s.find l = .ok (some .directory) := by
  unfold openItem
  rcases s.find l with e | (_ | item)
  · simp [bind, Except.bind]
  · simp [bind, Except.bind]
  · simp [bind, Except.bind]

theorem enter_eq_ok : s.enter here = .ok () ↔ s.find here = .ok (some .directory) := by
  rw [← openItem_eq_directory]
  unfold enter
  rcases s.openItem here with e | (_ | c)
  · simp [bind, Except.bind]
  · simp [bind, Except.bind]
  · simp [bind, Except.bind]

/-! ## Where a path comes to -/

theorem locate_cons_eq_ok {p : PathPart} :
    s.locate here (p :: ps) = .ok l ↔
      (p = .up → s.find here = .ok (some .directory)) ∧ s.locate (p.onward here) ps = .ok l := by
  rw [locate]
  by_cases up : p = .up
  · rw [if_pos up, ← enter_eq_ok]
    cases s.enter here <;> simp [up]
  · rw [if_neg up]
    simp [up]

theorem eq_foldl_of_locate (h : s.locate here ps = .ok l) : l = ps.foldl PathPart.onward here := by
  induction ps generalizing here with
  | nil => exact (Except.ok.inj h).symm
  | cons p ps ih => exact ih (locate_cons_eq_ok.1 h).2

theorem locate_append (h : s.locate here ps = .ok l) (qs : List PathPart) :
    s.locate here (ps ++ qs) = s.locate l qs := by
  induction ps generalizing here with
  | nil =>
    cases h
    rfl
  | cons p ps ih =>
    obtain ⟨there, rest⟩ := locate_cons_eq_ok.1 h
    rw [List.cons_append, locate, ← ih rest]
    by_cases up : p = .up
    · rw [if_pos up, enter_eq_ok.2 (there up)]
    · rw [if_neg up]

theorem exists_locate_of_append {qs : List PathPart} (h : s.locate here (ps ++ qs) = .ok l) :
    ∃ m, s.locate here ps = .ok m ∧ s.locate m qs = .ok l := by
  induction ps generalizing here with
  | nil => exact ⟨here, rfl, h⟩
  | cons p ps ih =>
    obtain ⟨there, rest⟩ := locate_cons_eq_ok.1 h
    obtain ⟨m, first, last⟩ := ih rest
    exact ⟨m, locate_cons_eq_ok.2 ⟨there, first⟩, last⟩

theorem locate_names (s : Storage) (here : Location) (names : List String) :
    s.locate here (names.map .name) = .ok (here ++ names) := by
  induction names generalizing here with
  | nil => exact congrArg _ (List.append_nil here).symm
  | cons n names ih =>
    rw [List.map_cons, locate, if_neg (by simp)]
    exact (ih _).trans (by simp [PathPart.onward])

/-! ## Directories that are there -/

theorem walk_cons_eq_directory {n : String} {rest : List String} :
    s.walk here (n :: rest) = .ok (some .directory) ↔
      ¬ n.utf8ByteSize > maxName ∧ s.get? (here ++ [n]) = some .directory ∧
        s.walk (here ++ [n]) rest = .ok (some .directory) := by
  rw [walk.eq_def]
  dsimp only
  by_cases long : n.utf8ByteSize > maxName
  · rw [if_pos long]
    simp [long]
  · rw [if_neg long]
    cases found : s.get? (here ++ [n]) with
    | none => cases rest <;> simp
    | some item =>
      cases item with
      | file c => cases rest <;> simp
      | directory => cases rest <;> simp [long, walk, found]

theorem makeAlong_of_directory {names : List String}
    (h : s.walk here names = .ok (some .directory)) : s.makeAlong here names = (s, .ok ()) := by
  induction names generalizing here with
  | nil => rfl
  | cons n rest ih =>
    obtain ⟨short, found, deeper⟩ := walk_cons_eq_directory.1 h
    rw [makeAlong, if_neg short, found]
    exact ih deeper

theorem find_eq_directory :
    s.find l = .ok (some .directory) ↔
      hasNul l = false ∧ s.walk [] l = .ok (some .directory) := by
  unfold find
  cases hasNul l <;> simp

theorem makeDirectories_of_directory (h : s.find l = .ok (some .directory)) :
    s.makeDirectories l = (s, .ok ()) := by
  obtain ⟨clean, way⟩ := find_eq_directory.1 h
  rw [makeDirectories, if_neg (by simp [clean])]
  exact makeAlong_of_directory way

/-- On a path that comes to a place everything that is climbed out of is there. -/
theorem makeAlongPath_append (h : s.locate here ps = .ok l) (qs : List PathPart) :
    s.makeAlongPath here (ps ++ qs) = s.makeAlongPath l qs := by
  induction ps generalizing here with
  | nil =>
    cases h
    rfl
  | cons p ps ih =>
    obtain ⟨there, rest⟩ := locate_cons_eq_ok.1 h
    rw [List.cons_append, makeAlongPath, ← ih rest]
    by_cases up : p = .up
    · rw [if_pos up, makeEntered, makeDirectories_of_directory (there up)]
    · rw [if_neg up]

theorem makeAlongPath_names (s : Storage) (here : Location) (names : List String) :
    s.makeAlongPath here (names.map .name) = s.makeDirectories (here ++ names) := by
  induction names generalizing here with
  | nil => exact congrArg s.makeDirectories (List.append_nil here).symm
  | cons n names ih =>
    rw [List.map_cons, makeAlongPath, if_neg (by simp)]
    exact (ih _).trans (by simp [PathPart.onward])

/-- A path leads to a directory that is there. -/
structure LeadsTo (s : Storage) (ps : List PathPart) (l : Location) : Prop where
  clean : ps.any (·.hasNul) = false
  located : s.locate [] ps = .ok l
  directory : s.find l = .ok (some .directory)

/-! ## Directories stay -/

variable {s' : Storage} {place : Location}

theorem walk_directory_spared {names : List String} (spared : Spares place s s')
    (h : s.walk here names = .ok (some .directory)) :
    s'.walk here names = .ok (some .directory) := by
  induction names generalizing here with
  | nil => exact congrArg Except.ok (spared.directories here (Except.ok.inj h))
  | cons n rest ih =>
    obtain ⟨short, found, deeper⟩ := walk_cons_eq_directory.1 h
    exact walk_cons_eq_directory.2 ⟨short, spared.directories _ found, ih deeper⟩

theorem find_directory_spared (spared : Spares place s s') (h : s.find l = .ok (some .directory)) :
    s'.find l = .ok (some .directory) := by
  obtain ⟨clean, way⟩ := find_eq_directory.1 h
  exact find_eq_directory.2 ⟨clean, walk_directory_spared spared way⟩

theorem locate_spared (spared : Spares place s s') (h : s.locate here ps = .ok l) :
    s'.locate here ps = .ok l := by
  induction ps generalizing here with
  | nil => exact h
  | cons p ps ih =>
    obtain ⟨there, rest⟩ := locate_cons_eq_ok.1 h
    exact locate_cons_eq_ok.2 ⟨fun up => find_directory_spared spared (there up), ih rest⟩

theorem LeadsTo.spared (h : s.LeadsTo ps l) (spared : Spares place s s') : s'.LeadsTo ps l :=
  ⟨h.clean, locate_spared spared h.located, find_directory_spared spared h.directory⟩

/-! ## Everything on the way to a directory is there -/

theorem walk_init {names : List String} {n : String} {item : Item}
    (there : s.get? here = some .directory)
    (h : s.walk here (names ++ [n]) = .ok (some item)) :
    s.walk here names = .ok (some .directory) := by
  induction names generalizing here with
  | nil => exact congrArg Except.ok there
  | cons m rest ih =>
    obtain ⟨last, more, eq⟩ : ∃ last more, rest ++ [n] = last :: more :=
      List.exists_cons_of_ne_nil (by simp)
    rw [List.cons_append, eq] at h
    unfold walk at h
    split at h
    · cases h
    · rename_i short
      cases found : s.get? (here ++ [m]) with
      | none =>
        rw [found] at h
        cases h
      | some above =>
        rw [found] at h
        cases above with
        | file c => cases h
        | directory => exact walk_cons_eq_directory.2 ⟨short, found, ih found (eq ▸ h)⟩

theorem find_init {n : String} {item : Item} (h : s.find (l ++ [n]) = .ok (some item)) :
    s.find l = .ok (some .directory) := by
  unfold find at h
  split at h
  · cases h
  · rename_i clean
    rw [hasNul_append, Bool.or_eq_true, not_or] at clean
    exact find_eq_directory.2 ⟨by simpa using clean.1, walk_init rfl h⟩

theorem location_concat (ps : List PathPart) (p : PathPart) :
    location (ps ++ [p]) = p.onward (location ps) :=
  List.foldl_append

theorem LeadsTo.location_eq (h : s.LeadsTo ps l) : l = location ps := eq_foldl_of_locate h.located

/-- What a path leaves behind on its way to a directory is one as well. -/
theorem LeadsTo.init {p : PathPart} (h : s.LeadsTo (ps ++ [p]) l) (first : p = .top → ps = []) :
    s.LeadsTo ps (location ps) := by
  obtain ⟨clean, located, directory⟩ := h
  rw [List.any_append, Bool.or_eq_false_iff] at clean
  obtain ⟨m, before, last⟩ := exists_locate_of_append located
  obtain ⟨there, onward⟩ := locate_cons_eq_ok.1 last
  obtain rfl : p.onward m = l := Except.ok.inj onward
  obtain rfl : m = location ps := eq_foldl_of_locate before
  refine ⟨clean.1, before, ?_⟩
  cases p with
  | top =>
    rw [first rfl]
    rfl
  | here => exact directory
  | up => exact there rfl
  | name n => exact find_init directory

theorem LeadsTo.get?_of_prefix (h : s.LeadsTo ps l) (plain : .top ∉ ps.tail)
    {front : List PathPart} (leads : front <+: ps) :
    s.get? (location front) = some .directory := by
  induction ps using List.reverseRecOn generalizing l with
  | nil =>
    rw [List.prefix_nil.1 leads]
    rfl
  | append_singleton ps p ih =>
    rcases List.prefix_concat_iff.1 leads with rfl | shorter
    · rw [← h.location_eq, ← find_eq_get? h.directory]
    · have alone : p = .top → ps = [] := by
        rintro rfl
        by_contra ne
        rw [List.tail_append_of_ne_nil ne] at plain
        exact plain (List.mem_append_right _ (List.mem_singleton_self _))
      have plain' : .top ∉ ps.tail := by
        intro later
        cases ps with
        | nil => cases later
        | cons q qs => exact plain (List.mem_append_left _ later)
      exact ih (h.init alone) plain' shorter

theorem exists_front_of_prefix (leads : l <+: location ps) :
    ∃ front, front <+: ps ∧ l = location front := by
  induction ps using List.reverseRecOn with
  | nil => exact ⟨[], List.prefix_rfl, List.prefix_nil.1 leads⟩
  | append_singleton ps p ih =>
    have later : l <+: location ps → ∃ front, front <+: ps ++ [p] ∧ l = location front := by
      intro passed
      obtain ⟨front, shorter, eq⟩ := ih passed
      exact ⟨front, shorter.trans (List.prefix_append _ _), eq⟩
    rw [location_concat] at leads
    cases p with
    | top => exact ⟨[], List.nil_prefix, List.prefix_nil.1 leads⟩
    | here => exact later leads
    | up => exact later (leads.trans (List.dropLast_prefix _))
    | name n =>
      rcases List.prefix_concat_iff.1 leads with eq | passed
      · exact ⟨ps ++ [.name n], List.prefix_rfl, by rw [eq, location_concat]; rfl⟩
      · exact later passed

/-! ## What is made on a path -/

theorem fst_makeEntered (s : Storage) (here : Location) :
    (s.makeEntered here).1 = (s.makeDirectories here).1 := by
  unfold makeEntered
  split
  · rename_i made
    rw [made]
  · rfl

theorem get?_makeAlongPath_of_away (away : ∀ front, front <+: ps →
      ¬ l <+: front.foldl PathPart.onward here) :
    (s.makeAlongPath here ps).1.get? l = s.get? l := by
  have first : (s.makeDirectories here).1.get? l = s.get? l := by
    refine get?_makeDirectories_of_away fun front leads eq => ?_
    exact away [] List.nil_prefix (eq ▸ leads)
  induction ps generalizing s here with
  | nil => exact first
  | cons p ps ih =>
    have later : ∀ front, front <+: ps → ¬ l <+: front.foldl PathPart.onward (p.onward here) :=
      fun front leads => away (p :: front) (List.cons_prefix_cons.2 ⟨rfl, leads⟩)
    have onward : ∀ s' : Storage, (s'.makeDirectories (p.onward here)).1.get? l = s'.get? l := by
      intro s'
      refine get?_makeDirectories_of_away fun front leads eq => ?_
      exact later [] List.nil_prefix (eq ▸ leads)
    unfold makeAlongPath
    by_cases up : p = .up
    · have entered := first
      rw [← fst_makeEntered] at entered
      rw [if_pos up]
      rcases begun : s.makeEntered here with ⟨made, e | ⟨⟩⟩ <;> rw [begun] at entered
      · exact entered
      · exact (ih later (onward made)).trans entered
    · rw [if_neg up]
      exact ih later (onward s)

theorem spares_makeAlongPath (place : Location) (s : Storage) (here : Location)
    (ps : List PathPart) : Spares place s (s.makeAlongPath here ps).1 := by
  induction ps generalizing s here with
  | nil => exact spares_makeDirectories place s here
  | cons p ps ih =>
    unfold makeAlongPath
    by_cases up : p = .up
    · have entered := spares_makeDirectories place s here
      rw [← fst_makeEntered] at entered
      rw [if_pos up]
      rcases begun : s.makeEntered here with ⟨made, e | ⟨⟩⟩ <;> rw [begun] at entered
      · exact entered
      · exact entered.trans (ih made _)
    · rw [if_neg up]
      exact ih s _

theorem get?_makeAt_of_away {path : String}
    (away : ∀ front, front <+: parts path → ¬ l <+: location front) :
    (s.makeAt path).1.get? l = s.get? l := by
  unfold makeAt
  split
  · rfl
  · exact get?_makeAlongPath_of_away away

theorem makeAt_of_ne {path : String} (changed : (s.makeAt path).1.get? l ≠ s.get? l) :
    s.get? l = none ∧ (s.makeAt path).1.get? l = some .directory := by
  have spared : Spares [] s (s.makeAt path).1 := by
    unfold makeAt
    split
    · exact .refl _ _
    · exact spares_makeAlongPath [] s [] _
  by_cases root : l = []
  · subst root
    exact absurd rfl changed
  · cases before : s.get? l with
    | none =>
      refine ⟨rfl, ?_⟩
      cases after : (s.makeAt path).1.get? l with
      | none => exact absurd (after.trans before.symm) changed
      | some item =>
        cases item with
        | directory => rfl
        | file c =>
          rw [(spared.files l root c).1 after] at before
          cases before
    | some item =>
      cases item with
      | directory => exact absurd ((spared.directories l before).trans before.symm) changed
      | file c => exact absurd (((spared.files l root c).2 before).trans before.symm) changed

end Storage
end Archivist
