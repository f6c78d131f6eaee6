import Archivist.Word
set_option autoImplicit false

namespace Archivist

inductive Ip where
  | v4 (a b c d : UInt8)
  | v6 (groups : Vector UInt16 8)
deriving DecidableEq

/-- A port of a host; an address of the second family may carry a flow label and the number of its
zone. -/
inductive SocketAddress where
  | v4 (a b c d : UInt8) (port : UInt16)
  | v6 (groups : Vector UInt16 8) (flow zone : UInt32) (port : UInt16)
deriving DecidableEq

namespace Address

def hexText (n : UInt16) : String := String.ofList (Nat.toDigits 16 n.toNat)

def dotted (a b c d : UInt8) : String :=
  ".".intercalate ([a, b, c, d].map fun x => toString x.toNat)

def longestZeros (groups : List UInt16) : Nat × Nat :=
  (groups.foldl step (0, (0, 0), (0, 0))).2.2
where
  step : Nat × (Nat × Nat) × (Nat × Nat) → UInt16 → Nat × (Nat × Nat) × (Nat × Nat)
    | (i, current, longest), g =>
      if g = 0 then
        let current := if current.2 = 0 then (i, 1) else (current.1, current.2 + 1)
        (i + 1, current, if current.2 > longest.2 then current else longest)
      else (i + 1, (0, 0), longest)

def colons (groups : List UInt16) : String := ":".intercalate (groups.map hexText)

def groupsText (groups : Vector UInt16 8) : String :=
  match groups.toList with
  | [0, 0, 0, 0, 0, 0xffff, x, y] =>
    "::ffff:" ++ dotted (x >>> 8).toUInt8 x.toUInt8 (y >>> 8).toUInt8 y.toUInt8
  | gs =>
    let (start, length) := longestZeros gs
    if length > 1 then colons (gs.take start) ++ "::" ++ colons (gs.drop (start + length))
    else colons gs

def digit? (radix : Nat) (c : Char) : Option Nat :=
  let n :=
    if '0' ≤ c ∧ c ≤ '9' then c.toNat - '0'.toNat
    else if 'a' ≤ c ∧ c ≤ 'z' then c.toNat - 'a'.toNat + 10
    else if 'A' ≤ c ∧ c ≤ 'Z' then c.toNat - 'A'.toNat + 10
    else radix
  if n < radix then some n else none

def number? (radix : Nat) (width : Option Nat) (leadingZeros : Bool) (bound : Nat)
    (cs : List Char) : Option (Nat × List Char) :=
  let ds := cs.takeWhile fun c => (digit? radix c).isSome
  let n := ds.foldl (fun n c => n * radix + (digit? radix c).getD 0) 0
  let tooWide := match width with
    | some w => ds.length > w
    | none => false
  if ds.isEmpty || tooWide || n ≥ bound then none
  else if !leadingZeros && ds.head? == some '0' && ds.length > 1 then none
  else some (n, cs.drop ds.length)

def given? (c : Char) : List Char → Option (List Char)
  | d :: rest => if c = d then some rest else none
  | [] => none

def octet? (cs : List Char) : Option (UInt8 × List Char) :=
  (number? 10 (some 3) false 256 cs).map fun (n, rest) => (n.toUInt8, rest)

def dotted? (cs : List Char) : Option ((UInt8 × UInt8 × UInt8 × UInt8) × List Char) := do
  let (a, cs) ← octet? cs
  let (b, cs) ← octet? (← given? '.' cs)
  let (c, cs) ← octet? (← given? '.' cs)
  let (d, cs) ← octet? (← given? '.' cs)
  return ((a, b, c, d), cs)

def afterColon? (first : Bool) (cs : List Char) : Option (List Char) :=
  if first then some cs else given? ':' cs

/-- Reads up to `room` groups, of which the last two may be written as a dotted address; tells
whether they were. -/
def readGroups : Nat → Bool → List Char → List UInt16 × Bool × List Char
  | 0, _, cs => ([], false, cs)
  | room + 1, first, cs =>
    let embedded := if room = 0 then none else (afterColon? first cs).bind dotted?
    match embedded with
    | some ((a, b, c, d), rest) =>
      ([a.toUInt16 * 256 + b.toUInt16, c.toUInt16 * 256 + d.toUInt16], true, rest)
    | none =>
      match (afterColon? first cs).bind (number? 16 (some 4) true 65536) with
      | some (n, rest) =>
        let (gs, isDotted, rest) := readGroups room false rest
        (n.toUInt16 :: gs, isDotted, rest)
      | none => ([], false, cs)

def vector8? (gs : List UInt16) : Option (Vector UInt16 8) :=
  if h : gs.length = 8 then some ⟨gs.toArray, by simpa using h⟩ else none

def groups? (cs : List Char) : Option (Vector UInt16 8 × List Char) :=
  match readGroups 8 true cs with
  | (front, isDotted, rest) =>
    if front.length = 8 then (vector8? front).map fun g => (g, rest)
    else if isDotted then none
    else do
      let rest ← given? ':' rest
      let rest ← given? ':' rest
      let (back, _, rest) := readGroups (7 - front.length) true rest
      let g ← vector8? (front ++ List.replicate (8 - front.length - back.length) 0 ++ back)
      return (g, rest)

def port? (cs : List Char) : Option (UInt16 × List Char) := do
  let (n, rest) ← number? 10 none true 65536 (← given? ':' cs)
  return (n.toUInt16, rest)

def zone (cs : List Char) : UInt32 × List Char :=
  match (given? '%' cs).bind (number? 10 none true Word.bound32) with
  | some (n, rest) => (n.toUInt32, rest)
  | none => (0, cs)

end Address

namespace Ip

def text : Ip → String
  | .v4 a b c d => Address.dotted a b c d
  | .v6 groups => Address.groupsText groups

def localhost : Ip := .v4 127 0 0 1

def isUnspecified : Ip → Bool
  | .v4 a b c d => a = 0 && b = 0 && c = 0 && d = 0
  | .v6 groups => groups.toList.all (· = 0)

def ofText? (s : String) : Option Ip :=
  match Address.dotted? s.toList with
  | some ((a, b, c, d), []) => some (.v4 a b c d)
  | _ =>
    match Address.groups? s.toList with
    | some (g, []) => some (.v6 g)
    | _ => none

end Ip

namespace SocketAddress

def ip : SocketAddress → Ip
  | .v4 a b c d _ => .v4 a b c d
  | .v6 groups _ _ _ => .v6 groups

def port : SocketAddress → UInt16
  | .v4 _ _ _ _ p => p
  | .v6 _ _ _ p => p

def ofIp (ip : Ip) (port : UInt16) : SocketAddress :=
  match ip with
  | .v4 a b c d => .v4 a b c d port
  | .v6 groups => .v6 groups 0 0 port

def text : SocketAddress → String
  | .v4 a b c d port => Address.dotted a b c d ++ ":" ++ toString port.toNat
  | .v6 groups _ zone port =>
    "[" ++ Address.groupsText groups ++ (if zone = 0 then "" else "%" ++ toString zone.toNat) ++
      "]:" ++ toString port.toNat

instance : ToString SocketAddress := ⟨text⟩

def v4? (cs : List Char) : Option SocketAddress := do
  let ((a, b, c, d), rest) ← Address.dotted? cs
  let (port, rest) ← Address.port? rest
  if rest.isEmpty then some (.v4 a b c d port) else none

def v6? (cs : List Char) : Option SocketAddress := do
  let (groups, rest) ← Address.groups? (← Address.given? '[' cs)
  let (zone, rest) := Address.zone rest
  let (port, rest) ← Address.port? (← Address.given? ']' rest)
  if rest.isEmpty then some (.v6 groups 0 zone port) else none

def ofText? (s : String) : Option SocketAddress := (v4? s.toList).or (v6? s.toList)

end SocketAddress
end Archivist
