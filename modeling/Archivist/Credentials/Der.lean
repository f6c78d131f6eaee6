set_option autoImplicit false

namespace Archivist.Der

abbrev Bytes := List UInt8

structure Element where
  tag : UInt8
  value : Bytes

def sequenceTag : UInt8 := 0x30
def integer : UInt8 := 0x02
def bitString : UInt8 := 0x03
def octetString : UInt8 := 0x04
def objectName : UInt8 := 0x06
def boolean : UInt8 := 0x01

def field (n : UInt8) : UInt8 := 0xa0 + n

/-- The length of an element, which is written with as few bytes as possible. -/
def length? : Bytes → Option (Nat × Bytes)
  | 0x81 :: a :: rest => if a.toNat ≥ 128 then some (a.toNat, rest) else none
  | 0x82 :: a :: b :: rest =>
    let n := a.toNat * 256 + b.toNat
    if n ≥ 256 then some (n, rest) else none
  | a :: rest => if a.toNat < 128 then some (a.toNat, rest) else none
  | [] => none

/-- Reads an element; tags that need more than one byte are refused. -/
def read? : Bytes → Option (Element × Bytes)
  | tag :: rest =>
    if tag &&& 0x1f = 0x1f then none
    else
      match length? rest with
      | none => none
      | some (n, rest) =>
        if n ≤ rest.length then some (⟨tag, rest.take n⟩, rest.drop n) else none
  | [] => none

def expect? (tag : UInt8) (bs : Bytes) : Option (Bytes × Bytes) :=
  match read? bs with
  | some (e, rest) => if e.tag = tag then some (e.value, rest) else none
  | none => none

def only? (tag : UInt8) (bs : Bytes) : Option Bytes :=
  match expect? tag bs with
  | some (v, []) => some v
  | _ => none

def wholeBits? : Bytes → Option Bytes
  | 0 :: rest => some rest
  | _ => none

def isNext (tag : UInt8) (bs : Bytes) : Bool := bs.head? = some tag

def all? : Nat → Bytes → Option (List Element)
  | _, [] => some []
  | 0, _ => none
  | fuel + 1, bs =>
    match read? bs with
    | none => none
    | some (e, rest) => (all? fuel rest).map (e :: ·)

def write (tag : UInt8) (value : Bytes) : Bytes :=
  let n := value.length
  let size :=
    if n < 128 then [UInt8.ofNat n]
    else if n < 256 then [0x81, UInt8.ofNat n]
    else [0x82, UInt8.ofNat (n / 256), UInt8.ofNat n]
  tag :: size ++ value

end Archivist.Der
