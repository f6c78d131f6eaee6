set_option autoImplicit false

namespace Archivist

/-- A document, or as much of one as stands before the first fault of its text. -/
inductive Document where
  | null
  | bool (b : Bool)
  | integer (n : Int)
  /-- A number or date that is not written as an integer. -/
  | quantity
  | text (s : String)
  /-- A text whose escapes name no characters; it may stand where nobody looks. -/
  | illText
  | list (items : List Document)
  /-- Names with their values in the order of the text; a name may be ill, as a text may. -/
  | record (entries : List (Option String × Document))
  | broken

namespace Document

mutual

def intact : Document → Bool
  | .list items => intactItems items
  | .record entries => intactEntries entries
  | .broken => false
  | _ => true

def intactItems : List Document → Bool
  | [] => true
  | d :: ds => d.intact && intactItems ds

def intactEntries : List (Option String × Document) → Bool
  | [] => true
  | (_, d) :: es => d.intact && intactEntries es

end

def field? (d : Document) (name : String) : Option Document :=
  match d with
  | .record es => (es.find? fun e => e.1 = some name).map (·.2)
  | _ => none

end Document
end Archivist
