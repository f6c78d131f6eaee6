import Archivist.Document.Basic
set_option autoImplicit false

namespace Archivist.Toml

inductive Entry where
  | value (d : Document)
  /-- Only names on the way to something else have made it: `dotted` if they were dotted names. -/
  | table (implied dotted : Bool) (entries : List (String × Entry))
  | tables (elements : List (List (String × Entry)))

abbrev Entries := List (String × Entry)

namespace Entries

def has (es : Entries) (name : String) : Bool := es.any (·.1 == name)

def set (es : Entries) (name : String) (e : Entry) : Entries :=
  if es.has name then es.map fun x => if x.1 == name then (name, e) else x
  else es ++ [(name, e)]

def remove (es : Entries) (name : String) : Entries := es.filter fun x => x.1 != name

/-- Follows names from table to table, making those that are missing, and changes the last one;
`change` is told whether that one was made by dotted names. -/
def descend {α : Type} (dotted : Bool) (change : Bool → Entries → Option (α × Entries)) :
    List String → Bool → Entries → Option (α × Entries)
  | [], isDotted, es => change isDotted es
  | name :: names, _, es =>
    match es.lookup name with
    | none => do
      let (a, inner) ← descend dotted change names dotted []
      return (a, es.set name (.table true dotted inner))
    | some (.table implied isDotted inner) =>
      if dotted && !implied then none
      else do
        let (a, inner) ← descend dotted change names isDotted inner
        return (a, es.set name (.table implied isDotted inner))
    | some (.tables elements) => do
      let last ← elements.getLast?
      let (a, last) ← descend dotted change names false last
      return (a, es.set name (.tables (elements.dropLast ++ [last])))
    | some (.value _) => none

def assign (es : Entries) (path : List String) (name : String) (d : Document) : Option Entries :=
  (descend true (fun isDotted es =>
    if isDotted = path.isEmpty || es.has name then none
    else some ((), es ++ [(name, .value d)])) path false es).map (·.2)

end Entries

mutual

def Entry.document : Entry → Document
  | .value d => d
  | .table _ _ es => .record (entriesDocument es)
  | .tables elements => .list (elementsDocument elements)

def entriesDocument : Entries → List (Option String × Document)
  | [] => []
  | (name, e) :: es => (some name, e.document) :: entriesDocument es

def elementsDocument : List Entries → List Document
  | [] => []
  | es :: rest => .record (entriesDocument es) :: elementsDocument rest

end

structure Draft where
  root : Entries := []
  current : Entries := []
  /-- The names of the current table's header; none for the lines before the first header. -/
  place : List String := []
  /-- True if the current table is an element of a list. -/
  isElement : Bool := false

namespace Draft

def close (d : Draft) : Option Entries :=
  match d.place.getLast? with
  | none => some d.current
  | some name =>
    (Entries.descend false (fun _ es =>
      if d.isElement then
        match es.lookup name with
        | none => some ((), es ++ [(name, .tables [d.current])])
        | some (.tables elements) => some ((), es.set name (.tables (elements ++ [d.current])))
        | some _ => none
      else if es.has name then none
      else some ((), es ++ [(name, .table false false d.current)]))
      d.place.dropLast false d.root).map (·.2)

def openTable (d : Draft) (path : List String) : Option Draft := do
  let root ← d.close
  let name ← path.getLast?
  let (current, root) ← Entries.descend false (fun _ es =>
    match es.lookup name with
    | none => some ([], es)
    | some (.table true false inner) => some (inner, es.remove name)
    | some _ => none) path.dropLast false root
  return { root, current, place := path, isElement := false }

def openElement (d : Draft) (path : List String) : Option Draft := do
  let root ← d.close
  let name ← path.getLast?
  let (_, root) ← Entries.descend false (fun _ es =>
    match es.lookup name with
    | none => some ((), es ++ [(name, .tables [])])
    | some (.tables _) => some ((), es)
    | some _ => none) path.dropLast false root
  return { root, current := [], place := path, isElement := true }

def assign (d : Draft) (path : List String) (name : String) (v : Document) : Option Draft := do
  return { d with current := ← d.current.assign path name v }

end Draft
end Archivist.Toml
