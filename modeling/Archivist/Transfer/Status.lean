import Archivist.Word
set_option autoImplicit false

namespace Archivist

inductive TransferMode where
  | ascii
  | binary
deriving DecidableEq, Repr, Inhabited

def TransferMode.ofLetter? (c : Char) : Option TransferMode :=
  if c = 'A' ∨ c = 'a' then some .ascii
  else if c = 'I' ∨ c = 'i' then some .binary
  else none

structure TransferStatus where
  elapsedMs : UInt64
  transferred : UInt64
  checksum : UInt32
  finished : Bool
deriving DecidableEq, Repr, Inhabited

/-- Bytes per second: none before the first millisecond has passed, and never more than a word
can hold even before the division. -/
def TransferStatus.throughput (s : TransferStatus) : Nat :=
  if s.elapsedMs = 0 then 0
  else min (s.transferred.toNat * 1000) (Word.bound64 - 1) / s.elapsedMs.toNat

end Archivist
