import Archivist.Text.Pieces
import Archivist.Transfer.Error
set_option autoImplicit false

namespace Archivist

/-- The names that lead from a storage root to a file or directory. -/
abbrev Location := List String

namespace Location

/-- The names of a text without those that lead nowhere. -/
def names (s : String) : List String :=
  (((Text.pieces '/' s.toList).filter fun p => p ≠ [] ∧ p ≠ ['.'])).map String.ofList

def resolve (s : String) : Except TransferError Location :=
  if ".." ∈ names s then .error (.invalidPath s) else .ok (names s)

def isFileName (s : String) : Bool := s ≠ "" && !s.toList.contains '/' && s ≠ ".."

end Location
end Archivist
