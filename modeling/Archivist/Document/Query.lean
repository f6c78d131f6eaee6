import Archivist.Document.Basic
set_option autoImplicit false

namespace Archivist.Document

abbrev Asked (α : Type) := Except String α

def asText : Document → Asked String
  | .text s => .ok s
  | _ => .error "text expected"

def asNat : Document → Asked Nat
  | .integer n => if 0 ≤ n then .ok n.toNat else .error "natural number expected"
  | _ => .error "number expected"

def asBool : Document → Asked Bool
  | .bool b => .ok b
  | _ => .error "flag expected"

def asList : Document → Asked (List Document)
  | .list ds => .ok ds
  | _ => .error "list expected"

def asEntries : Document → Asked (List (String × Document))
  | .record es => .ok (es.filterMap fun e => e.1.map fun n => (n, e.2))
  | _ => .error "record expected"

def given? (d : Document) (name : String) : Option Document :=
  match d.field? name with
  | some .null => none
  | other => other

def fieldOf (d : Document) (name : String) : Asked Document :=
  match d.field? name with
  | some v => .ok v
  | none => .error s!"no {name}"

def orElse {α : Type} (d : Document) (name : String) (read : Document → Asked α) (other : α) :
    Asked α :=
  match d.given? name with
  | some v => read v
  | none => .ok other

def maybe {α : Type} (d : Document) (name : String) (read : Document → Asked α) :
    Asked (Option α) :=
  match d.given? name with
  | some v => (read v).map some
  | none => .ok none

def textOf (d : Document) (name : String) : Asked String := do (← d.fieldOf name).asText

def natOf (d : Document) (name : String) : Asked Nat := do (← d.fieldOf name).asNat

def boolOf (d : Document) (name : String) : Asked Bool := do (← d.fieldOf name).asBool

def textOr (d : Document) (name other : String) : Asked String := d.orElse name asText other

def natOr (d : Document) (name : String) (other : Nat) : Asked Nat := d.orElse name asNat other

def boolOr (d : Document) (name : String) (other : Bool) : Asked Bool := d.orElse name asBool other

def listOr (d : Document) (name : String) : Asked (List Document) := d.orElse name asList []

def entriesOr (d : Document) (name : String) : Asked (List (String × Document)) :=
  d.orElse name asEntries []

def textsOf (d : Document) (name : String) : Asked (List String) := do
  (← d.listOr name).mapM asText

end Archivist.Document
