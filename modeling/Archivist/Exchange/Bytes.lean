import Archivist.Config.Writing
import Archivist.Document.Query
set_option autoImplicit false

namespace Archivist.Exchange

def hexText (bs : List UInt8) : String := String.join (bs.map fun b => Json.hexDigits 2 b.toNat)

def hexValue? (c : Char) : Option Nat :=
  if '0' ≤ c ∧ c ≤ '9' then some (c.toNat - '0'.toNat)
  else if 'a' ≤ c ∧ c ≤ 'f' then some (c.toNat - 'a'.toNat + 10)
  else none

def hexBytes? : List Char → Option (List UInt8)
  | [] => some []
  | a :: b :: rest => do
    let front := UInt8.ofNat ((← hexValue? a) * 16 + (← hexValue? b))
    return front :: (← hexBytes? rest)
  | _ => none

def ofHex (s : String) : Document.Asked (List UInt8) :=
  match hexBytes? s.toList with
  | some bs => .ok bs
  | none => .error "hexadecimal digits expected"

def bytes : Document → Document.Asked (List UInt8)
  | .text s => ofHex s
  | d => do
    let unit ← ofHex (← d.textOf "repeat")
    let tail ← ofHex (← d.textOr "tail" "")
    return (List.replicate (← d.natOf "times") unit).flatten ++ tail

def content : Document → Document.Asked (List UInt8)
  | .text s => .ok s.toUTF8.data.toList
  | d => do ofHex (← d.textOf "hex")

def shownLimit : Nat := 1024

def shown (bs : List UInt8) : Json :=
  if bs.length ≤ shownLimit then .text (hexText bs)
  else
    .record [("len", .nat bs.length), ("head", .text (hexText (bs.take 16))),
      ("tail", .text (hexText (bs.drop (bs.length - 16)))),
      ("sum", .nat (bs.foldl (fun n b => n + b.toNat) 0))]

end Archivist.Exchange
