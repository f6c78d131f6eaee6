set_option autoImplicit false

namespace Archivist

inductive Json where
  | null
  | bool (b : Bool)
  | integer (n : Int)
  | text (s : String)
  | list (items : List Json)
  | record (entries : List (String × Json))
deriving Inhabited

namespace Json

def hexDigits (width n : Nat) : String :=
  let ds := Nat.toDigits 16 n
  String.ofList (List.replicate (width - ds.length) '0' ++ ds)

def escape (c : Char) : String :=
  if c = '"' then "\\\""
  else if c = '\\' then "\\\\"
  else if c = '\n' then "\\n"
  else if c = '\t' then "\\t"
  else if c = '\r' then "\\r"
  else if c = '\x08' then "\\b"
  else if c = '\x0c' then "\\f"
  else if c.toNat < 0x20 then "\\u" ++ hexDigits 4 c.toNat
  else String.singleton c

def quote (s : String) : String := "\"" ++ String.join (s.toList.map escape) ++ "\""

mutual

def render : Json → String
  | .null => "null"
  | .bool b => if b then "true" else "false"
  | .integer n => toString n
  | .text s => quote s
  | .list items => "[" ++ ",".intercalate (renderItems items) ++ "]"
  | .record entries => "\x7b" ++ ",".intercalate (renderEntries entries) ++ "\x7d"

def renderItems : List Json → List String
  | [] => []
  | j :: js => j.render :: renderItems js

def renderEntries : List (String × Json) → List String
  | [] => []
  | (name, j) :: es => (quote name ++ ":" ++ j.render) :: renderEntries es

end

def indent (level : Nat) : String := String.ofList (List.replicate (2 * level) ' ')

def block (opening closing : String) (level : Nat) (lines : List String) : String :=
  if lines = [] then opening ++ closing
  else opening ++ "\n" ++ ",\n".intercalate (lines.map (indent (level + 1) ++ ·)) ++ "\n" ++
    indent level ++ closing

mutual

def prettyAt (level : Nat) : Json → String
  | .list items => block "[" "]" level (prettyItems (level + 1) items)
  | .record entries => block "\x7b" "\x7d" level (prettyEntries (level + 1) entries)
  | .null => "null"
  | .bool b => if b then "true" else "false"
  | .integer n => toString n
  | .text s => quote s

def prettyItems (level : Nat) : List Json → List String
  | [] => []
  | j :: js => prettyAt level j :: prettyItems level js

def prettyEntries (level : Nat) : List (String × Json) → List String
  | [] => []
  | (name, j) :: es => (quote name ++ ": " ++ prettyAt level j) :: prettyEntries level es

end

def pretty (j : Json) : String := prettyAt 0 j

end Json
end Archivist
