import Archivist.Archive.Error
import Archivist.Archive.Instant
set_option autoImplicit false

namespace Archivist

structure Registration where
  owner : Owner
  sectionName : String
  directory : Dir
  since : Instant := Instant.epoch
deriving DecidableEq

structure Slot where
  directory : Dir
  owner : Owner
deriving DecidableEq

structure Registry where
  entries : List Registration := []

namespace Registry

def find? (r : Registry) (d : Dir) : Option Registration :=
  r.entries.find? (·.directory = d)

def contains (r : Registry) (d : Dir) : Bool := (r.find? d).isSome

def add (r : Registry) (e : Registration) : Except ArchiveError (Registry × Slot) :=
  if r.contains e.directory then .error (.duplicate e.directory)
  else .ok (⟨r.entries ++ [e]⟩, ⟨e.directory, e.owner⟩)

def remove (r : Registry) (d : Dir) (owner : Owner) :
    Except ArchiveError (Registry × Registration) :=
  match r.find? d with
  | none => .error (.inconsistency (.notRegistered d owner))
  | some e =>
    if e.owner = owner then .ok (⟨r.entries.filter (·.directory ≠ d)⟩, e)
    else .error (.inconsistency (.ownedBy d e.owner owner))

def release (r : Registry) (s : Slot) : Except ArchiveError Registry :=
  (r.remove s.directory s.owner).map (·.1)

/-- Gives a slot back; a slot that is not there any more is let go without complaint. -/
def letGo (r : Registry) (s : Slot) : Registry :=
  match r.release s with
  | .ok r => r
  | .error _ => r

/-- True if a directory or one above it is being archived. -/
def isArchiving (r : Registry) (d : Dir) : Bool := r.entries.any (·.directory.contains d)

def handlers (r : Registry) : List Registration := r.entries

end Registry
end Archivist
