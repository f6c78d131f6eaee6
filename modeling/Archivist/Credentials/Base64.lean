set_option autoImplicit false

namespace Archivist.Base64

def isBlank (c : Char) : Bool := c = ' ' || c = '\t' || c = '\n' || c = '\r'

def sextet? (c : Char) : Option Nat :=
  if 'A' ≤ c ∧ c ≤ 'Z' then some (c.toNat - 'A'.toNat)
  else if 'a' ≤ c ∧ c ≤ 'z' then some (c.toNat - 'a'.toNat + 26)
  else if '0' ≤ c ∧ c ≤ '9' then some (c.toNat - '0'.toNat + 52)
  else if c = '+' then some 62
  else if c = '/' then some 63
  else none

def triple (a b c d : Nat) : List UInt8 :=
  let n := ((a * 64 + b) * 64 + c) * 64 + d
  [UInt8.ofNat (n / 65536), UInt8.ofNat (n / 256), UInt8.ofNat n]

def groups? : List Char → Option (List UInt8)
  | [] => some []
  | [a, b, '=', '='] => do return (triple (← sextet? a) (← sextet? b) 0 0).take 1
  | [a, b, c, '='] => do return (triple (← sextet? a) (← sextet? b) (← sextet? c) 0).take 2
  | a :: b :: c :: d :: rest => do
    let front := triple (← sextet? a) (← sextet? b) (← sextet? c) (← sextet? d)
    return front ++ (← groups? rest)
  | _ => none

def decode? (cs : List Char) : Option (List UInt8) := groups? (cs.filter fun c => !isBlank c)

end Archivist.Base64
