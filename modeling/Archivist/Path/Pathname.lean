import Archivist.Text.Pieces
import Archivist.Transfer.Error
set_option autoImplicit false

/-!
# Paths as the system takes them

A path is a text that is made of parts.  A text that begins with a slash takes the place of the path
that it is put behind, dots vanish unless they stand at the front, and slashes may be repeated.
-/

namespace Archivist

/-- What a path is made of. -/
inductive PathPart where
  | top
  | here
  | up
  | name (n : String)
deriving DecidableEq

namespace PathPart

def ofPiece (p : List Char) : PathPart :=
  if p = ['.', '.'] then .up else .name (String.ofList p)

def hasNul : PathPart → Bool
  | .name n => n.toList.contains '\x00'
  | _ => false

end PathPart

namespace Pathname

def front (cs : List Char) : List PathPart :=
  if cs.head? = some '/' then [.top]
  else if (Text.pieces '/' cs).head? = some ['.'] then [.here]
  else []

def body (cs : List Char) : List (List Char) :=
  (Text.pieces '/' cs).filter fun p => p ≠ [] ∧ p ≠ ['.']

def parts (s : String) : List PathPart := front s.toList ++ (body s.toList).map PathPart.ofPiece

/-- A path that ends in a slash or a dot is that of a directory. -/
def endsOpen (s : String) : Bool :=
  let last := (Text.pieces '/' s.toList).getLast?
  last = some [] || last = some ['.']

/-- Puts a text behind a path, or in its place if it begins with a slash. -/
def push (base s : String) : String :=
  if s.toList.head? = some '/' then s
  else if base = "" ∨ base.toList.getLast? = some '/' then base ++ s
  else base ++ "/" ++ s

def follow (text base : String) : PathPart → Except TransferError String
  | .name n => .ok (push base n)
  | .here => .ok base
  | _ => .error (.invalidPath text)

/-- The path to which a text leads from a root; slashes at its front do not count. -/
def resolveUnder (root text : String) : Except TransferError String :=
  (parts (String.ofList (text.toList.dropWhile (· = '/')))).foldlM (follow text) root

end Pathname
end Archivist
