set_option autoImplicit false

namespace Archivist.Toml

abbrev Scan (α : Type) := List Char → Option (α × List Char)

def isBlank (c : Char) : Bool := c = ' ' || c = '\t'

def skipBlanks (cs : List Char) : List Char := cs.dropWhile isBlank

def lineEnd? : List Char → Option (List Char)
  | '\n' :: rest => some rest
  | '\r' :: '\n' :: rest => some rest
  | _ => none

def isCommentChar (c : Char) : Bool := c = '\t' || (c.toNat ≥ 0x20 && c.toNat ≠ 0x7f)

def skipComment : List Char → List Char
  | '#' :: rest => rest.dropWhile isCommentChar
  | cs => cs

def endLine? (cs : List Char) : Option (List Char) :=
  match skipComment (skipBlanks cs) with
  | [] => some []
  | rest => lineEnd? rest

/-- Passes over blanks, line ends and whole comments, as they may stand between the items of a
list; a comment must end with its line. -/
def skipSpace : Nat → List Char → Option (List Char)
  | 0, cs => some cs
  | fuel + 1, cs =>
    match skipBlanks cs with
    | '#' :: rest => (lineEnd? (skipComment ('#' :: rest))).bind (skipSpace fuel)
    | '\n' :: rest => skipSpace fuel rest
    | '\r' :: rest => (lineEnd? ('\r' :: rest)).bind (skipSpace fuel)
    | rest => some rest

def hexDigit? (c : Char) : Option Nat :=
  if '0' ≤ c ∧ c ≤ '9' then some (c.toNat - '0'.toNat)
  else if 'a' ≤ c ∧ c ≤ 'f' then some (c.toNat - 'a'.toNat + 10)
  else if 'A' ≤ c ∧ c ≤ 'F' then some (c.toNat - 'A'.toNat + 10)
  else none

/-- The character that some hexadecimal digits name; no character has a surrogate's number. -/
def scalar? (count : Nat) (cs : List Char) : Option (Char × List Char) := do
  let ds := cs.take count
  if ds.length < count then none
  let values ← ds.mapM hexDigit?
  let n := values.foldl (fun n d => n * 16 + d) 0
  if n.isValidChar then some (Char.ofNat n, cs.drop count) else none

def escape? : Scan Char
  | 'b' :: rest => some ('\x08', rest)
  | 't' :: rest => some ('\t', rest)
  | 'n' :: rest => some ('\n', rest)
  | 'f' :: rest => some ('\x0c', rest)
  | 'r' :: rest => some ('\r', rest)
  | '"' :: rest => some ('"', rest)
  | '\\' :: rest => some ('\\', rest)
  | 'u' :: rest => scalar? 4 rest
  | 'U' :: rest => scalar? 8 rest
  | _ => none

def isPlain (quote c : Char) (escapes : Bool) : Bool :=
  isCommentChar c && c ≠ quote && !(escapes && c = '\\')

def line? (quote : Char) (escapes : Bool) : Nat → List Char → List Char → Option (String × List Char)
  | 0, _, _ => none
  | _, [], _ => none
  | fuel + 1, c :: cs, acc =>
    if c = quote then some (String.ofList acc.reverse, cs)
    else if escapes && c = '\\' then
      match escape? cs with
      | some (e, rest) => line? quote escapes fuel rest (e :: acc)
      | none => none
    else if isPlain quote c escapes then line? quote escapes fuel cs (c :: acc)
    else none

def skipBlankLines : Nat → List Char → List Char
  | 0, cs => cs
  | fuel + 1, cs =>
    match lineEnd? (skipBlanks cs) with
    | some rest => skipBlankLines fuel rest
    | none => skipBlanks cs

/-- A backslash at the end of a line joins it to the next characters that are not blank. -/
def joined? (cs : List Char) : Option (List Char) :=
  (lineEnd? (skipBlanks cs)).map fun rest => skipBlankLines (rest.length + 1) rest

/-- Reads a text on several lines up to its three closing quotes; one or two quotes may stand
anywhere in it, even before the closing ones. -/
def lines? (quote : Char) (escapes : Bool) : Nat → List Char → List Char → Option (String × List Char)
  | 0, _, _ => none
  | _, [], _ => none
  | fuel + 1, c :: cs, acc =>
    if c = quote then
      let run := (c :: cs).takeWhile (· = quote)
      let rest := (c :: cs).dropWhile (· = quote)
      if run.length < 3 then lines? quote escapes fuel rest (run ++ acc)
      else if run.length > 5 then none
      else some (String.ofList (acc.reverse ++ run.drop 3), rest)
    else if escapes && c = '\\' then
      match escape? cs with
      | some (e, rest) => lines? quote escapes fuel rest (e :: acc)
      | none =>
        match joined? cs with
        | some rest => lines? quote escapes fuel rest acc
        | none => none
    else if isPlain quote c escapes then lines? quote escapes fuel cs (c :: acc)
    else
      match lineEnd? (c :: cs) with
      | some rest => lines? quote escapes fuel rest ('\n' :: acc)
      | none => none

def quoted? : Scan String
  | '"' :: rest => line? '"' true (rest.length + 1) rest []
  | '\'' :: rest => line? '\'' false (rest.length + 1) rest []
  | _ => none

def dropLineEnd (cs : List Char) : List Char := (lineEnd? cs).getD cs

/-- Reads a quoted text of any kind; a line end right behind three opening quotes is dropped. -/
def text? : Scan String
  | '"' :: '"' :: '"' :: rest =>
    let rest := dropLineEnd rest
    lines? '"' true (rest.length + 1) rest []
  | '\'' :: '\'' :: '\'' :: rest =>
    let rest := dropLineEnd rest
    lines? '\'' false (rest.length + 1) rest []
  | cs => quoted? cs

end Archivist.Toml
