import Archivist.Storage.Location
import Archivist.Word
set_option autoImplicit false

namespace Archivist

inductive Item where
  | directory
  | file (content : List UInt8)
deriving DecidableEq

/-- The items below a root, which is a directory itself. -/
structure Storage where
  items : List (Location × Item)

namespace Storage

def empty : Storage := ⟨[]⟩

def maxName : Nat := 255

def maxLength : Nat := 17592186040320

def get? (s : Storage) (l : Location) : Option Item :=
  if l = [] then some .directory else s.items.lookup l

def put (s : Storage) (l : Location) (item : Item) : Storage :=
  if s.items.any (·.1 = l) then
    ⟨s.items.map fun e => if e.1 = l then (l, item) else e⟩
  else ⟨s.items ++ [(l, item)]⟩

def hasNul (l : Location) : Bool := l.any fun n => n.toList.contains '\x00'

/-- Follows the names from `at` on; the last of them may be missing. -/
def walk (s : Storage) : Location → List String → Except IoError (Option Item)
  | here, [] => .ok (s.get? here)
  | here, n :: rest =>
    if n.utf8ByteSize > maxName then .error .nameTooLong
    else
      match s.get? (here ++ [n]), rest with
      | none, [] => .ok none
      | none, _ :: _ => .error .notFound
      | some (.file _), _ :: _ => .error .notDirectory
      | some item, [] => .ok (some item)
      | some .directory, _ :: _ => walk s (here ++ [n]) rest

def find (s : Storage) (l : Location) : Except IoError (Option Item) :=
  if hasNul l then .error .nulInName else s.walk [] l

def openItem (s : Storage) (l : Location) : Except IoError Item := do
  match ← s.find l with
  | some item => .ok item
  | none => .error .notFound

/-- Follows a path from a directory: empty names and `.` stay there, `..` leads up, and nothing
outside the root is known. -/
def follow (s : Storage) : Location → List String → Except IoError Item
  | here, [] =>
    match s.get? here with
    | some item => .ok item
    | none => .error .notFound
  | here, n :: rest =>
    if s.get? here ≠ some .directory then .error .notDirectory
    else if n = "" ∨ n = "." then follow s here rest
    else if n = ".." then
      if here = [] then .error .notFound else follow s here.dropLast rest
    else if n.utf8ByteSize > maxName then .error .nameTooLong
    else
      match s.get? (here ++ [n]) with
      | none => .error .notFound
      | some _ => follow s (here ++ [n]) rest

def readPath (s : Storage) (path : String) : Except IoError (List UInt8) := do
  let names := (Text.pieces '/' path.toList).map String.ofList
  if hasNul names then .error .nulInName
  else if path = "" then .error .notFound
  else if names.head? = some "" ∧ names.any (fun n => n ≠ "" ∧ n ≠ "." ∧ n ≠ "..") then
    .error .notFound
  else
    match ← s.follow [] names with
    | .file content => .ok content
    | .directory => .error .isDirectory

/-- Makes the directories along the names; those made before a failure stay. -/
def makeAlong (s : Storage) : Location → List String → Storage × Except IoError Unit
  | _, [] => (s, .ok ())
  | here, n :: rest =>
    if n.utf8ByteSize > maxName then (s, .error .nameTooLong)
    else
      match s.get? (here ++ [n]) with
      | none => makeAlong (s.put (here ++ [n]) .directory) (here ++ [n]) rest
      | some .directory => makeAlong s (here ++ [n]) rest
      | some (.file _) => (s, .error (if rest = [] then .fileExists else .notDirectory))

def makeDirectories (s : Storage) (l : Location) : Storage × Except IoError Unit :=
  if hasNul l then (s, .error .nulInName) else s.makeAlong [] l

/-- Opens a file for writing and makes an empty one where there is none. -/
def openFile (s : Storage) (l : Location) : Storage × Except IoError Unit :=
  match s.find l with
  | .error e => (s, .error e)
  | .ok none => (s.put l (.file []), .ok ())
  | .ok (some (.file _)) => (s, .ok ())
  | .ok (some .directory) => (s, .error .isDirectory)

def resize (length : Nat) (content : List UInt8) : List UInt8 :=
  content.take length ++ List.replicate (length - content.length) 0

def setLength (s : Storage) (l : Location) (length : Nat) : Storage × Except IoError Unit :=
  if length ≥ Word.bound63 then (s, .error .numberTooLarge)
  else if length > maxLength then (s, .error .fileTooLarge)
  else
    match s.get? l with
    | some (.file content) => (s.put l (.file (resize length content)), .ok ())
    | _ => (s, .error .isDirectory)

def append (s : Storage) (l : Location) (bytes : List UInt8) : Storage :=
  match s.get? l with
  | some (.file content) => s.put l (.file (content ++ bytes))
  | _ => s

/-- Makes a file and the directories above it; a text that ends in a slash makes a directory. -/
def add (s : Storage) (path : String) (content : List UInt8) : Storage :=
  let l := Location.names path
  if path.toList.getLast? = some '/' then (s.makeDirectories l).1
  else ((s.makeDirectories l.dropLast).1).put l (.file content)

theorem length_resize (n : Nat) (c : List UInt8) : (resize n c).length = n := by
  simp [resize]
  omega

end Storage
end Archivist
