import Archivist.Transfer.Error
set_option autoImplicit false

namespace Archivist

structure PortRange where
  first : UInt16
  last : UInt16
  ordered : first ≤ last := by decide
deriving DecidableEq

namespace PortRange

def any : PortRange := ⟨0, 0, by decide⟩

def make (first last : UInt16) : Except TransferError PortRange :=
  if h : first ≤ last then .ok ⟨first, last, h⟩
  else .error (.noPortAvailable first.toNat last.toNat)

def isAny (r : PortRange) : Bool := r.first = 0 && r.last = 0

def size (r : PortRange) : Nat := r.last.toNat - r.first.toNat + 1

/-- The ports of the range in the order in which they are tried: all of them once, from some
place on and around.  The host's own choice is written as port 0. -/
def candidates (r : PortRange) (start : Nat) : List Nat :=
  if r.isAny then [0]
  else (List.range r.size).map fun i => r.first.toNat + (start + i) % r.size

def exhausted (r : PortRange) : TransferError := .noPortAvailable r.first.toNat r.last.toNat

theorem size_pos (r : PortRange) : 0 < r.size := by simp [size]

end PortRange
end Archivist
