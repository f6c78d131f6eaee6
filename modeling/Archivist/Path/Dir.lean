import Archivist.Text.Pieces
set_option autoImplicit false

namespace Archivist

/-- A name inside a directory: not empty and without a slash. -/
def IsName (s : String) : Prop := s ≠ "" ∧ '/' ∉ s.toList

instance (s : String) : Decidable (IsName s) := inferInstanceAs (Decidable (_ ∧ _))

/-- A directory, by the names that lead to it. -/
structure Dir where
  parts : List String
  proper : ∀ p ∈ parts, IsName p
deriving DecidableEq

namespace Dir

def names (s : String) : List String :=
  ((Text.pieces '/' s.toList).filter (· ≠ [])).map String.ofList

theorem isName_of_mem_names {s p : String} (h : p ∈ names s) : IsName p := by
  obtain ⟨q, hq, rfl⟩ := List.mem_map.1 h
  obtain ⟨hmem, hne⟩ := List.mem_filter.1 hq
  refine ⟨?_, by simpa using Text.not_mem_of_mem_pieces hmem⟩
  intro e
  have : q = [] := by simpa using congrArg String.toList e
  simp [this] at hne

def ofText (s : String) : Dir := ⟨names s, fun _ => isName_of_mem_names⟩

def root : Dir := ⟨[], by simp⟩

def text (d : Dir) : String := "/" ++ "/".intercalate d.parts

instance : ToString Dir := ⟨text⟩
instance : Inhabited Dir := ⟨root⟩

/-- Directories stand in the order of their texts, character by character. -/
def le (a b : Dir) : Bool := decide (a.text ≤ b.text)

def name (d : Dir) : String := d.parts.getLastD ""

def parent? (d : Dir) : Option Dir :=
  if d.parts = [] then none
  else some ⟨d.parts.dropLast, fun p hp => d.proper p (List.dropLast_subset _ hp)⟩

def join (d : Dir) (s : String) : Dir :=
  ⟨d.parts ++ names s, fun p hp => by
    rcases List.mem_append.1 hp with h | h
    · exact d.proper p h
    · exact isName_of_mem_names h⟩

def contains (d e : Dir) : Bool := d.parts.isPrefixOf e.parts

def containsText (d : Dir) (s : String) : Bool := d.contains (ofText s)

def chain (d : Dir) : List Dir :=
  (List.range d.parts.length).map fun i =>
    ⟨d.parts.take (i + 1), fun p hp => d.proper p (List.mem_of_mem_take hp)⟩

@[ext] theorem ext {a b : Dir} (h : a.parts = b.parts) : a = b := by
  cases a; cases b; simpa using h

@[simp] theorem parts_root : root.parts = [] := rfl

@[simp] theorem parts_join (d : Dir) (s : String) : (d.join s).parts = d.parts ++ names s := rfl

theorem contains_iff {d e : Dir} : d.contains e = true ↔ d.parts <+: e.parts :=
  List.isPrefixOf_iff_prefix

@[simp] theorem contains_self (d : Dir) : d.contains d = true :=
  contains_iff.2 (List.prefix_refl _)

@[simp] theorem contains_root (e : Dir) : root.contains e = true :=
  contains_iff.2 (List.nil_prefix)

end Dir
end Archivist
