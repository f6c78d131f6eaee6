import Archivist.Document.Decode
import Archivist.Toml.Number
import Archivist.Toml.Table
set_option autoImplicit false

namespace Archivist.Toml

/-- Neither nesting nor the number of a name's parts reaches this. -/
def maxDepth : Nat := 80

def isBareKeyChar (c : Char) : Bool := c.isAlphanum || c = '_' || c = '-'

def part? (cs : List Char) : Option (String × List Char) :=
  match cs with
  | '"' :: _ => quoted? cs
  | '\'' :: _ => quoted? cs
  | _ =>
    match cs.takeWhile isBareKeyChar with
    | [] => none
    | name => some (String.ofList name, cs.drop name.length)

def moreParts : Nat → List Char → List String → Option (List String × List Char)
  | 0, _, _ => none
  | fuel + 1, cs, acc =>
    match part? (skipBlanks cs) with
    | none => none
    | some (name, rest) =>
      match skipBlanks rest with
      | '.' :: rest => moreParts fuel rest (name :: acc)
      | rest => some ((name :: acc).reverse, rest)

def key? (cs : List Char) : Option (List String × List Char) :=
  match moreParts (cs.length + 1) cs [] with
  | some (names, rest) => if names.length ≥ maxDepth then none else some (names, rest)
  | none => none

def splitKey? (names : List String) : Option (List String × String) :=
  names.getLast?.map fun last => (names.dropLast, last)

mutual

def value? : Nat → Nat → Scan Document
  | 0, _, _ => none
  | _, _, [] => none
  | fuel + 1, depth, c :: cs =>
    if c = '"' || c = '\'' then (text? (c :: cs)).map fun (s, rest) => (.text s, rest)
    else if c = '[' then
      if depth + 1 ≥ maxDepth then none
      else (items? fuel (depth + 1) cs []).map fun (ds, rest) => (.list ds, rest)
    else if c = '\x7b' then
      if depth + 1 ≥ maxDepth then none
      else
        match skipBlanks cs with
        | '\x7d' :: rest => some (.record [], rest)
        | _ =>
          (pairs? fuel (depth + 1) cs []).map fun (es, rest) =>
            (.record (entriesDocument es), rest)
    else if c = '+' || c = '-' || c.isDigit then number? (c :: cs)
    else if c = 't' then (word? "true" (c :: cs)).map fun rest => (.bool true, rest)
    else if c = 'f' then (word? "false" (c :: cs)).map fun rest => (.bool false, rest)
    else if c = 'i' || c = 'n' then special? (c :: cs)
    else none

def items? : Nat → Nat → List Char → List Document → Option (List Document × List Char)
  | 0, _, _, _ => none
  | fuel + 1, depth, cs, acc =>
    match skipSpace (cs.length + 1) cs with
    | none => none
    | some (']' :: rest) => some (acc.reverse, rest)
    | some rest =>
      match value? fuel depth rest with
      | none => none
      | some (d, rest) =>
        match skipSpace (rest.length + 1) rest with
        | some (']' :: rest) => some ((d :: acc).reverse, rest)
        | some (',' :: rest) => items? fuel depth rest (d :: acc)
        | _ => none

def pairs? : Nat → Nat → List Char → Entries → Option (Entries × List Char)
  | 0, _, _, _ => none
  | fuel + 1, depth, cs, acc =>
    match key? cs with
    | some (names, '=' :: rest) =>
      match splitKey? names, value? fuel depth (skipBlanks rest) with
      | some (path, name), some (d, rest) =>
        match acc.assign path name d with
        | none => none
        | some acc =>
          match skipBlanks rest with
          | '\x7d' :: rest => some (acc, rest)
          | ',' :: rest => pairs? fuel depth rest acc
          | _ => none
      | _, _ => none
    | _ => none

end

def assignment? (d : Draft) (cs : List Char) : Option (Draft × List Char) := do
  match ← key? cs with
  | (names, '=' :: rest) =>
    let (path, name) ← splitKey? names
    let rest := skipBlanks rest
    let (v, rest) ← value? (2 * rest.length + 2) 0 rest
    return (← d.assign path name v, ← endLine? rest)
  | _ => none

def header? (d : Draft) : List Char → Option (Draft × List Char)
  | '[' :: cs => do
    match ← key? cs with
    | (names, ']' :: ']' :: rest) => return (← d.openElement names, ← endLine? rest)
    | _ => none
  | cs => do
    match ← key? cs with
    | (names, ']' :: rest) => return (← d.openTable names, ← endLine? rest)
    | _ => none

def lines : Nat → Draft → List Char → Option Draft
  | 0, _, _ => none
  | fuel + 1, d, cs =>
    match skipBlanks cs with
    | [] => some d
    | '#' :: rest => (endLine? ('#' :: rest)).bind (lines fuel d)
    | '\n' :: rest => lines fuel d rest
    | '\r' :: rest => (lineEnd? ('\r' :: rest)).bind (lines fuel d)
    | '[' :: rest => (header? d rest).bind fun (d, rest) => lines fuel d rest
    | rest => (assignment? d rest).bind fun (d, rest) => lines fuel d rest

def read (s : String) : Option Document :=
  let cs := match s.toList with
    | '\ufeff' :: rest => rest
    | cs => cs
  match lines (cs.length + 1) {} cs with
  | none => none
  | some d => d.close.map fun root => .record (entriesDocument root)

/-- A list that stands for a record may have spare items, and a choice written as a table has an
empty value. -/
def dialect : Dialect where
  spareItems := true
  isUnit := fun
    | .record [] => true
    | .list [] => true
    | _ => false

def decode {ε α : Type} (decoder : Decoder ε α) (s : String) : Except (Fault ε) α :=
  match read s with
  | some d => decoder d
  | none => .error .malformed

end Archivist.Toml
