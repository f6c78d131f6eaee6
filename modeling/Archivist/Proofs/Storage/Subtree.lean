import Archivist.Proofs.Storage.Following
import Mathlib.Data.List.Infix
set_option autoImplicit false

namespace Archivist.Storage

def below? (place : Location) (e : Location × Item) : Option (Location × Item) :=
  if place <+: e.1 then some (e.1.drop place.length, e.2) else none

def subtree (s : Storage) (place : Location) : Storage := ⟨s.items.filterMap (below? place)⟩

variable {s : Storage} {place l : Location}

theorem below?_append (place l : Location) (item : Item) :
    below? place (place ++ l, item) = some (l, item) := by
  rw [below?, if_pos (List.prefix_append place l), List.drop_left]

theorem below?_cases (place : Location) (e : Location × Item) :
    (∃ rest, e.1 = place ++ rest ∧ below? place e = some (rest, e.2)) ∨
      below? place e = none ∧ ∀ l, e.1 ≠ place ++ l := by
  by_cases leads : place <+: e.1
  · obtain ⟨rest, eq⟩ := leads
    exact .inl ⟨rest, eq.symm, by rw [← below?_append place rest e.2, eq]⟩
  · exact .inr ⟨if_neg leads, fun l eq => leads (eq ▸ List.prefix_append place l)⟩

theorem lookup_subtree (es : List (Location × Item)) (place l : Location) :
    (es.filterMap (below? place)).lookup l = es.lookup (place ++ l) := by
  induction es with
  | nil => rfl
  | cons e es ih =>
    rw [Lookup.lookup_cons_if, ← ih]
    rcases below?_cases place e with ⟨rest, eq, below⟩ | ⟨off, other⟩
    · rw [List.filterMap_cons_some below, Lookup.lookup_cons_if, eq]
      simp
    · rw [List.filterMap_cons_none off, if_neg (Ne.symm (other l))]

theorem any_subtree (es : List (Location × Item)) (place l : Location) :
    (es.filterMap (below? place)).any (·.1 = l) = es.any (·.1 = place ++ l) := by
  induction es with
  | nil => rfl
  | cons e es ih =>
    rw [List.any_cons, ← ih]
    rcases below?_cases place e with ⟨rest, eq, below⟩ | ⟨off, other⟩
    · rw [List.filterMap_cons_some below, List.any_cons, eq]
      simp
    · rw [List.filterMap_cons_none off, decide_eq_false (other l), Bool.false_or]

theorem map_subtree (es : List (Location × Item)) (place l : Location) (item : Item) :
    (es.map fun e => if e.1 = place ++ l then (place ++ l, item) else e).filterMap (below? place) =
      (es.filterMap (below? place)).map fun e => if e.1 = l then (l, item) else e := by
  induction es with
  | nil => rfl
  | cons e es ih =>
    rw [List.map_cons]
    rcases below?_cases place e with ⟨rest, eq, below⟩ | ⟨off, other⟩
    · rw [List.filterMap_cons_some below, List.map_cons, eq]
      by_cases same : rest = l
      · rw [if_pos (congrArg _ same), if_pos same,
          List.filterMap_cons_some (below?_append place l item), ih]
      · rw [if_neg (by simpa using same), if_neg same, List.filterMap_cons_some below, ih]
    · rw [if_neg (other l), List.filterMap_cons_none off, List.filterMap_cons_none off, ih]

theorem get?_subtree (there : s.get? place = some .directory) (l : Location) :
    (s.subtree place).get? l = s.get? (place ++ l) := by
  unfold get?
  by_cases root : l = []
  · rw [if_pos root, root, List.append_nil]
    exact there.symm
  · rw [if_neg root, if_neg (by simp [root])]
    exact lookup_subtree s.items place l

theorem subtree_put (s : Storage) (place l : Location) (item : Item) :
    (s.put (place ++ l) item).subtree place = (s.subtree place).put l item := by
  unfold put subtree
  rw [any_subtree]
  split
  · exact congrArg Storage.mk (map_subtree s.items place l item)
  · refine congrArg Storage.mk ?_
    rw [List.filterMap_append, List.filterMap_cons_some (below?_append place l item)]
    rfl

theorem walk_append {here : Location} {names : List String}
    (h : s.walk here names = .ok (some .directory)) (more : List String) :
    s.walk here (names ++ more) = s.walk (here ++ names) more := by
  induction names generalizing here with
  | nil => rw [List.nil_append, List.append_nil]
  | cons n rest ih =>
    obtain ⟨short, found, deeper⟩ := walk_cons_eq_directory.1 h
    rw [List.append_cons here, ← ih deeper, List.cons_append]
    cases behind : rest ++ more with
    | nil =>
      unfold walk
      rw [if_neg short, found]
    | cons m rest =>
      rw [walk.eq_def]
      dsimp only
      rw [if_neg short, found]

theorem makeAlong_append {here : Location} {names : List String}
    (h : s.walk here names = .ok (some .directory)) (more : List String) :
    s.makeAlong here (names ++ more) = s.makeAlong (here ++ names) more := by
  induction names generalizing here with
  | nil => rw [List.nil_append, List.append_nil]
  | cons n rest ih =>
    obtain ⟨short, found, deeper⟩ := walk_cons_eq_directory.1 h
    rw [List.append_cons here, ← ih deeper, List.cons_append, makeAlong, if_neg short, found]

theorem walk_subtree (there : s.get? place = some .directory) (here : Location)
    (names : List String) : (s.subtree place).walk here names = s.walk (place ++ here) names := by
  induction names generalizing here with
  | nil => exact congrArg Except.ok (get?_subtree there here)
  | cons n rest ih =>
    rw [walk.eq_def, walk.eq_def s]
    dsimp only
    rw [get?_subtree there, ih, List.append_assoc]

theorem makeAlong_subtree (there : s.get? place = some .directory) (here : Location)
    (names : List String) :
    (s.subtree place).makeAlong here names =
      ((s.makeAlong (place ++ here) names).1.subtree place,
        (s.makeAlong (place ++ here) names).2) := by
  induction names generalizing s here with
  | nil => rfl
  | cons n rest ih =>
    rw [makeAlong, makeAlong, get?_subtree there, ← List.append_assoc]
    split
    · rfl
    · cases found : s.get? (place ++ here ++ [n]) with
      | none =>
        have still : (s.put (place ++ (here ++ [n])) .directory).get? place = some .directory := by
          rw [get?_put_of_ne (by simp) (by simp), there]
        dsimp only
        rw [List.append_assoc, ← subtree_put, ih still]
      | some item =>
        cases item with
        | file c => rfl
        | directory =>
          dsimp only
          rw [ih there, List.append_assoc]

theorem find_subtree (h : s.find place = .ok (some .directory)) (l : Location) :
    (s.subtree place).find l = s.find (place ++ l) := by
  have there := (find_eq_get? h).symm
  obtain ⟨clean, way⟩ := find_eq_directory.1 h
  unfold find
  rw [hasNul_append, clean, Bool.false_or, walk_append way, walk_subtree there, List.append_nil,
    List.nil_append]

theorem openItem_subtree (h : s.find place = .ok (some .directory)) (l : Location) :
    (s.subtree place).openItem l = s.openItem (place ++ l) := by
  unfold openItem
  rw [find_subtree h]

theorem makeDirectories_subtree (h : s.find place = .ok (some .directory)) (l : Location) :
    (s.subtree place).makeDirectories l =
      ((s.makeDirectories (place ++ l)).1.subtree place, (s.makeDirectories (place ++ l)).2) := by
  obtain ⟨clean, way⟩ := find_eq_directory.1 h
  unfold makeDirectories
  rw [hasNul_append, clean, Bool.false_or]
  split
  · rfl
  · rw [makeAlong_append way, makeAlong_subtree (find_eq_get? h).symm,
      List.append_nil, List.nil_append]

theorem openFile_subtree (h : s.find place = .ok (some .directory)) (l : Location) :
    (s.subtree place).openFile l =
      ((s.openFile (place ++ l)).1.subtree place, (s.openFile (place ++ l)).2) := by
  unfold openFile
  rw [find_subtree h]
  rcases s.find (place ++ l) with e | (_ | _ | c)
  · rfl
  · exact congrArg (·, _) (subtree_put s place l _).symm
  · rfl
  · rfl

theorem setLength_subtree (there : s.get? place = some .directory) (l : Location) (length : Nat) :
    (s.subtree place).setLength l length =
      ((s.setLength (place ++ l) length).1.subtree place, (s.setLength (place ++ l) length).2) := by
  unfold setLength
  rw [get?_subtree there]
  split
  · rfl
  · split
    · rfl
    · rcases s.get? (place ++ l) with _ | (_ | c)
      · rfl
      · rfl
      · exact congrArg (·, _) (subtree_put s place l _).symm

theorem append_subtree (there : s.get? place = some .directory) (l : Location)
    (bytes : List UInt8) :
    (s.subtree place).append l bytes = (s.append (place ++ l) bytes).subtree place := by
  unfold append
  rw [get?_subtree there]
  rcases s.get? (place ++ l) with _ | (_ | c)
  · rfl
  · rfl
  · exact (subtree_put s place l _).symm

theorem get?_append_of_directory (there : s.get? place = some .directory) (l : Location)
    (bytes : List UInt8) : (s.append l bytes).get? place = some .directory := by
  unfold append
  cases found : s.get? l with
  | none => exact there
  | some item =>
    cases item with
    | directory => exact there
    | file c =>
      have ne : l ≠ [] := by
        rintro rfl
        cases found
      have other : place ≠ l := by
        rintro rfl
        cases there.symm.trans found
      exact (get?_put_of_ne ne other _).trans there

end Archivist.Storage
