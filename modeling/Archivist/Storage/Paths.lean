import Archivist.Path.Pathname
import Archivist.Storage.Basic
set_option autoImplicit false

namespace Archivist

def PathPart.onward (here : Location) : PathPart → Location
  | .top => []
  | .here => here
  | .up => here.dropLast
  | .name n => here ++ [n]

namespace Storage

def enter (s : Storage) (here : Location) : Except IoError Unit := do
  match ← s.openItem here with
  | .directory => .ok ()
  | .file _ => .error .notDirectory

/-- The place that a path comes to; only what it climbs out of has been looked at. -/
def locate (s : Storage) : Location → List PathPart → Except IoError Location
  | here, [] => .ok here
  | here, p :: rest =>
    match if p = .up then s.enter here else .ok () with
    | .error e => .error e
    | .ok () => locate s (p.onward here) rest

def readAt (s : Storage) (path : String) : Except IoError Item :=
  if (Pathname.parts path).any (·.hasNul) then .error .nulInName
  else if path = "" then .error .notFound
  else
    match s.locate [] (Pathname.parts path) with
    | .error e => .error e
    | .ok place =>
      match s.openItem place with
      | .ok (.file content) =>
        if Pathname.endsOpen path then .error .notDirectory else .ok (.file content)
      | found => found

def makeEntered (s : Storage) (here : Location) : Storage × Except IoError Unit :=
  match s.makeDirectories here with
  | (s, .error .fileExists) => (s, .error .notDirectory)
  | made => made

def makeAlongPath (s : Storage) : Location → List PathPart → Storage × Except IoError Unit
  | here, [] => s.makeDirectories here
  | here, p :: rest =>
    match if p = .up then s.makeEntered here else (s, .ok ()) with
    | (s, .error e) => (s, .error e)
    | (s, .ok ()) => makeAlongPath s (p.onward here) rest

def makeAt (s : Storage) (path : String) : Storage × Except IoError Unit :=
  if (Pathname.parts path).any (·.hasNul) then (s, .error .nulInName)
  else s.makeAlongPath [] (Pathname.parts path)

def writeAt (s : Storage) (path : String) : Storage × Except IoError Location :=
  if (Pathname.parts path).any (·.hasNul) then (s, .error .nulInName)
  else if Pathname.endsOpen path then (s, .error .isDirectory)
  else
    match s.locate [] (Pathname.parts path) with
    | .error e => (s, .error e)
    | .ok place =>
      match s.openFile place with
      | (s, .error e) => (s, .error e)
      | (s, .ok ()) => (s, .ok place)

end Storage
end Archivist
