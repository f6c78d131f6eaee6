import Archivist.Document.Decode
set_option autoImplicit false

namespace Archivist.Json

def isBlank (c : Char) : Bool := c = ' ' || c = '\n' || c = '\t' || c = '\r'

def skipBlanks (cs : List Char) : List Char := cs.dropWhile isBlank

def hexDigit? (c : Char) : Option Nat :=
  if '0' ≤ c ∧ c ≤ '9' then some (c.toNat - '0'.toNat)
  else if 'a' ≤ c ∧ c ≤ 'f' then some (c.toNat - 'a'.toNat + 10)
  else if 'A' ≤ c ∧ c ≤ 'F' then some (c.toNat - 'A'.toNat + 10)
  else none

def hex4? : List Char → Option (Nat × List Char)
  | a :: b :: c :: d :: rest => do
    let a ← hexDigit? a
    let b ← hexDigit? b
    let c ← hexDigit? c
    let d ← hexDigit? d
    return (((a * 16 + b) * 16 + c) * 16 + d, rest)
  | _ => none

def simpleEscape? : Char → Option Char
  | '"' => some '"'
  | '\\' => some '\\'
  | '/' => some '/'
  | 'b' => some '\x08'
  | 'f' => some '\x0c'
  | 'n' => some '\n'
  | 'r' => some '\r'
  | 't' => some '\t'
  | _ => none

inductive Element where
  | char (c : Char)
  | unit (n : Nat)

def elements : Nat → List Char → List Element → Option (List Element × List Char)
  | 0, _, _ => none
  | _, [], _ => none
  | fuel + 1, c :: cs, acc =>
    if c = '"' then some (acc.reverse, cs)
    else if c = '\\' then
      match cs with
      | 'u' :: rest =>
        match hex4? rest with
        | some (n, rest) => elements fuel rest (.unit n :: acc)
        | none => none
      | e :: rest =>
        match simpleEscape? e with
        | some c => elements fuel rest (.char c :: acc)
        | none => none
      | [] => none
    else if c.toNat < 0x20 then none
    else elements fuel cs (.char c :: acc)

/-- The characters of the elements; a surrogate without its partner is none. -/
def characters : List Element → Option (List Char)
  | [] => some []
  | .char c :: es => (characters es).map (c :: ·)
  | .unit n :: es =>
    if 0xD800 ≤ n ∧ n < 0xDC00 then
      match es with
      | .unit m :: es =>
        if 0xDC00 ≤ m ∧ m < 0xE000 then
          (characters es).map (Char.ofNat (0x10000 + (n - 0xD800) * 0x400 + (m - 0xDC00)) :: ·)
        else none
      | _ => none
    else if 0xDC00 ≤ n ∧ n < 0xE000 then none
    else (characters es).map (Char.ofNat n :: ·)

/-- Reads a text whose opening quote has been read; the inner `none` is an ill text. -/
def quoted (cs : List Char) : Option (Option String × List Char) :=
  match elements (cs.length + 1) cs [] with
  | some (es, rest) => some ((characters es).map String.ofList, rest)
  | none => none

def digits (cs : List Char) : List Char × List Char := cs.span Char.isDigit

def natOf (ds : List Char) : Nat := ds.foldl (fun n c => n * 10 + (c.toNat - '0'.toNat)) 0

def fraction (cs : List Char) : Option (Bool × List Char) :=
  match cs with
  | '.' :: rest =>
    match digits rest with
    | ([], _) => none
    | (_, rest) => some (true, rest)
  | _ => some (false, cs)

def exponent (cs : List Char) : Option (Bool × List Char) :=
  match cs with
  | c :: rest =>
    if c = 'e' || c = 'E' then
      let rest := match rest with
        | '+' :: r => r
        | '-' :: r => r
        | _ => rest
      match digits rest with
      | ([], _) => none
      | (_, rest) => some (true, rest)
    else some (false, cs)
  | [] => some (false, [])

def number (negative : Bool) (cs : List Char) : Option (Document × List Char) :=
  match digits cs with
  | ([], _) => none
  | (ds, rest) =>
    if ds.head? = some '0' ∧ ds.length > 1 then none
    else
      match fraction rest with
      | none => none
      | some (hasFraction, rest) =>
        match exponent rest with
        | none => none
        | some (hasExponent, rest) =>
          let n := natOf ds
          let d : Document :=
            if hasFraction || hasExponent then .quantity
            else if negative then (if n = 0 then .quantity else .integer (-(n : Int)))
            else .integer n
          some (d, rest)

def word? (w : String) (cs : List Char) : Option (List Char) :=
  if w.toList.isPrefixOf cs then some (cs.drop w.length) else none

mutual

def value : Nat → List Char → Document × Option (List Char)
  | 0, _ => (.broken, none)
  | fuel + 1, cs =>
    match skipBlanks cs with
    | [] => (.broken, none)
    | c :: rest =>
      if c = '"' then
        match quoted rest with
        | some (some s, rest) => (.text s, some rest)
        | some (none, rest) => (.illText, some rest)
        | none => (.broken, none)
      else if c = '[' then
        match skipBlanks rest with
        | ']' :: rest => (.list [], some rest)
        | _ =>
          let (ds, rest) := items fuel rest []
          (.list ds, rest)
      else if c = '\x7b' then
        match skipBlanks rest with
        | '\x7d' :: rest => (.record [], some rest)
        | _ =>
          let (es, rest) := entries fuel rest []
          (.record es, rest)
      else if c = '-' then
        match number true rest with
        | some (d, rest) => (d, some rest)
        | none => (.broken, none)
      else if c.isDigit then
        match number false (c :: rest) with
        | some (d, rest) => (d, some rest)
        | none => (.broken, none)
      else
        match word? "null" (c :: rest) with
        | some rest => (.null, some rest)
        | none =>
          match word? "true" (c :: rest) with
          | some rest => (.bool true, some rest)
          | none =>
            match word? "false" (c :: rest) with
            | some rest => (.bool false, some rest)
            | none => (.broken, none)

def items : Nat → List Char → List Document → List Document × Option (List Char)
  | 0, _, acc => ((Document.broken :: acc).reverse, none)
  | fuel + 1, cs, acc =>
    match value fuel cs with
    | (d, none) => ((d :: acc).reverse, none)
    | (d, some rest) =>
      match skipBlanks rest with
      | ']' :: rest => ((d :: acc).reverse, some rest)
      | ',' :: rest => items fuel rest (d :: acc)
      | _ => ((Document.broken :: d :: acc).reverse, none)

def entries : Nat → List Char → List (Option String × Document) →
    List (Option String × Document) × Option (List Char)
  | 0, _, acc => (((some "", Document.broken) :: acc).reverse, none)
  | fuel + 1, cs, acc =>
    match skipBlanks cs with
    | '"' :: rest =>
      match quoted rest with
      | none => (((some "", Document.broken) :: acc).reverse, none)
      | some (name, rest) =>
        match skipBlanks rest with
        | ':' :: rest =>
          match value fuel rest with
          | (d, none) => (((name, d) :: acc).reverse, none)
          | (d, some rest) =>
            match skipBlanks rest with
            | '\x7d' :: rest => (((name, d) :: acc).reverse, some rest)
            | ',' :: rest => entries fuel rest ((name, d) :: acc)
            | _ => (((some "", Document.broken) :: (name, d) :: acc).reverse, none)
        | _ => (((name, Document.broken) :: acc).reverse, none)
    | _ => (((some "", Document.broken) :: acc).reverse, none)

end

def read (s : String) : Document × Bool :=
  let cs := s.toList
  match value (2 * cs.length + 2) cs with
  | (d, none) => (d, false)
  | (d, some rest) => (d, (skipBlanks rest).isEmpty)

/-- A list that stands for a record has no spare items, and a choice written as a record has the
value `null`. -/
def dialect : Dialect where
  spareItems := false
  isUnit := fun
    | .null => true
    | _ => false

def decode {ε α : Type} (decoder : Decoder ε α) (s : String) : Except (Fault ε) α :=
  match read s with
  | (d, ended) => do
    let a ← decoder d
    if ended then .ok a else .error .malformed

end Archivist.Json
