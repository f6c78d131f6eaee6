import Archivist.Document.Basic
import Archivist.Toml.Text
import Archivist.Word
set_option autoImplicit false

namespace Archivist.Toml

def digits? (isDigit : Char → Bool) : Scan (List Char)
  | [] => none
  | c :: cs => if isDigit c then some (go [c] cs) else none
where
  go (acc : List Char) : List Char → List Char × List Char
    | '_' :: d :: rest => if isDigit d then go (d :: acc) rest else (acc.reverse, '_' :: d :: rest)
    | d :: rest => if isDigit d then go (d :: acc) rest else (acc.reverse, d :: rest)
    | [] => (acc.reverse, [])

def valueOf (radix : Nat) (ds : List Char) : Nat :=
  ds.foldl (fun n c => n * radix + (hexDigit? c).getD 0) 0

def sign : List Char → Bool × List Char
  | '-' :: rest => (true, rest)
  | '+' :: rest => (false, rest)
  | cs => (false, cs)

def whole? : Scan (List Char)
  | '0' :: rest => some (['0'], rest)
  | cs => digits? Char.isDigit cs

def integer? (n : Int) : Option Document :=
  if -(Word.bound63 : Int) ≤ n ∧ n < Word.bound63 then some (.integer n) else none

def based? (radix : Nat) (isDigit : Char → Bool) (cs : List Char) :
    Option (Document × List Char) := do
  let (ds, rest) ← digits? isDigit cs
  return (← integer? (valueOf radix ds), rest)

def isHexDigit (c : Char) : Bool := (hexDigit? c).isSome

def isOctalDigit (c : Char) : Bool := '0' ≤ c && c ≤ '7'

def isBinaryDigit (c : Char) : Bool := c = '0' || c = '1'

def wholeNumber? : Scan Document
  | '0' :: 'x' :: rest => based? 16 isHexDigit rest
  | '0' :: 'o' :: rest => based? 8 isOctalDigit rest
  | '0' :: 'b' :: rest => based? 2 isBinaryDigit rest
  | cs => do
    let (negative, rest) := sign cs
    let (ds, rest) ← whole? rest
    let n : Int := valueOf 10 ds
    return (← integer? (if negative then -n else n), rest)

/-- True if a decimal number, rounded to a double, is infinite: from halfway between the greatest
double and the next power of two on. -/
def overflows (mantissa : Nat) (exponent : Int) : Bool :=
  let bound := Nat.pow 2 1024 - Nat.pow 2 970
  let size := (Nat.toDigits 10 mantissa).length
  if mantissa = 0 then false
  else if exponent + size > 400 then true
  else if exponent + size < 300 then false
  else if exponent ≥ 0 then mantissa * Nat.pow 10 exponent.toNat ≥ bound
  else mantissa ≥ bound * Nat.pow 10 (-exponent).toNat

def power? : Scan Int
  | c :: rest =>
    if c = 'e' || c = 'E' then do
      let (negative, rest) := sign rest
      let (ds, rest) ← digits? Char.isDigit rest
      let n : Int := valueOf 10 ds
      return (if negative then -n else n, rest)
    else none
  | [] => none

/-- Reads a number with a fraction or a power of ten; the outer `none` means that it is no such
number, the inner one that it is too large. -/
def fraction? (cs : List Char) : Option (Option (Document × List Char)) := do
  let (negative, rest) := sign cs
  let (front, rest) ← whole? rest
  let (back, rest) ← match rest with
    | '.' :: r => (digits? Char.isDigit r).map fun (ds, r) => (ds, r)
    | _ => (power? rest).map fun _ => ([], rest)
  let (exponent, rest) := (power? rest).getD (0, rest)
  if !negative && overflows (valueOf 10 (front ++ back)) (exponent - back.length) then
    return none
  return some (.quantity, rest)

def word? (w : String) (cs : List Char) : Option (List Char) :=
  if w.toList.isPrefixOf cs then some (cs.drop w.length) else none

def special? (cs : List Char) : Option (Document × List Char) :=
  let (_, rest) := sign cs
  ((word? "inf" rest).or (word? "nan" rest)).map fun rest => (.quantity, rest)

def fixed? (count least greatest : Nat) (cs : List Char) : Option (Nat × List Char) :=
  let ds := cs.take count
  let n := valueOf 10 ds
  if ds.length = count && ds.all Char.isDigit && least ≤ n && n ≤ greatest then
    some (n, cs.drop count)
  else none

def given? (c : Char) : List Char → Option (List Char)
  | d :: rest => if c = d then some rest else none
  | [] => none

def daysIn (year month : Nat) : Nat :=
  if month = 2 then
    if (year % 4 = 0 ∧ year % 100 ≠ 0) ∨ year % 400 = 0 then 29 else 28
  else if month ∈ [4, 6, 9, 11] then 30
  else 31

def day? (cs : List Char) : Option (List Char) := do
  let (year, rest) ← fixed? 4 0 9999 cs
  let (month, rest) ← fixed? 2 1 12 (← given? '-' rest)
  let (_, rest) ← fixed? 2 1 (daysIn year month) (← given? '-' rest)
  return rest

def time? (cs : List Char) : Option (List Char) := do
  let (_, rest) ← fixed? 2 0 23 cs
  let (_, rest) ← fixed? 2 0 59 (← given? ':' rest)
  let (_, rest) ← fixed? 2 0 60 (← given? ':' rest)
  match rest with
  | '.' :: r =>
    match r.takeWhile Char.isDigit with
    | [] => some rest
    | ds => some (r.drop ds.length)
  | _ => some rest

def zone? : List Char → Option (List Char)
  | 'Z' :: rest => some rest
  | 'z' :: rest => some rest
  | c :: rest =>
    if c = '+' || c = '-' then do
      let (_, rest) ← fixed? 2 0 23 rest
      let (_, rest) ← fixed? 2 0 59 (← given? ':' rest)
      return rest
    else none
  | [] => none

def timeOfDay? : List Char → Option (List Char)
  | c :: rest =>
    if c = 'T' || c = 't' || c = ' ' then
      (time? rest).map fun rest => (zone? rest).getD rest
    else none
  | [] => none

/-- A date is a record of its own, which has none of the fields that settings have. -/
def dateDocument : Document := .record [(some "date", .quantity)]

def date? (cs : List Char) : Option (Document × List Char) :=
  match day? cs with
  | some rest => some (dateDocument, (timeOfDay? rest).getD rest)
  | none => (time? cs).map fun rest => (dateDocument, rest)

def number? (cs : List Char) : Option (Document × List Char) :=
  match date? cs with
  | some r => some r
  | none =>
    match fraction? cs with
    | some r => r
    | none => (special? cs).or (wholeNumber? cs)

end Archivist.Toml
