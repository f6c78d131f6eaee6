import Archivist.Archive.Error
import Archivist.Archive.Instant
set_option autoImplicit false

namespace Archivist

structure FileEntry where
  path : String
  size : Nat
  holders : List String
deriving DecidableEq

namespace FileEntry

def directory (f : FileEntry) : Dir := ((Dir.ofText f.path).parent?).getD .root

def name (f : FileEntry) : String := String.ofList ((Text.pieces '/' f.path.toList).getLastD [])

def isOn (f : FileEntry) (node : String) : Bool := f.holders.contains node

end FileEntry

structure DirInfo where
  created : Instant
  files : List FileEntry

/-- The directories in the order of their texts. -/
structure Namespace where
  dirs : List (Dir × DirInfo)

namespace Namespace

def bare : Namespace := ⟨[]⟩

def get? (ns : Namespace) (d : Dir) : Option DirInfo := ns.dirs.lookup d

def exists? (ns : Namespace) (d : Dir) : Bool := (ns.get? d).isSome

def insertSorted (d : Dir) (info : DirInfo) : List (Dir × DirInfo) → List (Dir × DirInfo)
  | [] => [(d, info)]
  | e :: es =>
    if e.1 = d then (d, info) :: es
    else if d.le e.1 then (d, info) :: e :: es
    else e :: insertSorted d info es

def insert (ns : Namespace) (d : Dir) (info : DirInfo) : Namespace :=
  ⟨insertSorted d info ns.dirs⟩

def erase (ns : Namespace) (d : Dir) : Namespace := ⟨ns.dirs.filter (·.1 ≠ d)⟩

def make (ns : Namespace) (created : Instant) (d : Dir) : Namespace :=
  if ns.exists? d then ns else ns.insert d ⟨created, []⟩

def makeDirs (ns : Namespace) (d : Dir) (created : Instant) : Namespace :=
  (Dir.root :: d.chain).foldl (make · created) ns

def empty : Namespace := bare.makeDirs .root .epoch

def update (ns : Namespace) (d : Dir) (f : DirInfo → DirInfo) : Namespace :=
  ⟨ns.dirs.map fun e => if e.1 = d then (d, f e.2) else e⟩

/-- Lists a file last in its directory, which is made if there is none; a file of the same path
is replaced. -/
def addFile (ns : Namespace) (now : Instant) (path : String) (size : Nat)
    (holders : List String) : Namespace :=
  let entry : FileEntry := ⟨(Dir.ofText path).text, size, holders⟩
  (ns.makeDirs entry.directory now).update entry.directory fun info =>
    { info with files := info.files.filter (·.path ≠ entry.path) ++ [entry] }

def removeNode (ns : Namespace) (node : String) : Namespace :=
  ⟨ns.dirs.map fun e => (e.1, { e.2 with
    files := e.2.files.map fun f => { f with holders := f.holders.filter (· ≠ node) } })⟩

def notFound (what : String) : ArchiveError := .namespace (.notFound what)

def children (ns : Namespace) (d : Dir) : List Dir :=
  (ns.dirs.map (·.1)).filter fun e => e.parent? = some d

def subdirectories (ns : Namespace) (d : Dir) : Except ArchiveError (List Dir) :=
  if ns.exists? d then .ok (ns.children d) else .error (notFound d.text)

def collect (ns : Namespace) (recursive : Bool) : Nat → Dir → List FileEntry
  | 0, _ => []
  | fuel + 1, d =>
    match ns.get? d with
    | none => []
    | some info =>
      info.files ++
        (if recursive then (ns.children d).flatMap (ns.collect true fuel) else [])

def files (ns : Namespace) (d : Dir) (recursive : Bool) : Except ArchiveError (List FileEntry) :=
  if ns.exists? d then .ok (ns.collect recursive (ns.dirs.length + 1) d)
  else .error (notFound d.text)

def createdAt (ns : Namespace) (d : Dir) : Except ArchiveError Instant :=
  match ns.get? d with
  | some info => .ok info.created
  | none => .error (notFound d.text)

def file? (ns : Namespace) (path : String) : Option FileEntry :=
  let target := Dir.ofText path
  (ns.get? (target.parent?.getD .root)).bind fun info =>
    info.files.find? (·.path = target.text)

def addHolder (node : String) (f : FileEntry) : FileEntry :=
  if f.isOn node then f else { f with holders := f.holders ++ [node] }

def updateFirst (path : String) (change : FileEntry → FileEntry) :
    List FileEntry → List FileEntry
  | [] => []
  | f :: fs => if f.path = path then change f :: fs else f :: updateFirst path change fs

def addReplica (ns : Namespace) (path node : String) : Except ArchiveError Namespace :=
  let target := Dir.ofText path
  match ns.file? path with
  | none => .error (notFound path)
  | some _ =>
    .ok (ns.update (target.parent?.getD .root) fun info =>
      { info with files := updateFirst target.text (addHolder node) info.files })

/-- Where a directory below `source` goes when `source` becomes `target`. -/
def movedTo (source target d : Dir) : Dir :=
  Dir.ofText (target.text ++ String.ofList (d.text.toList.drop source.text.length))

def moveOne (source target : Dir) (ns : Namespace) (d : Dir) : Namespace :=
  match ns.get? d with
  | none => ns
  | some info =>
    let new := movedTo source target d
    (ns.erase d).insert new { info with
      files := info.files.map fun f => { f with path := new.text ++ "/" ++ f.name } }

def rename (ns : Namespace) (now : Instant) (source target : Dir) :
    Except ArchiveError Namespace :=
  if !ns.exists? source then .error (notFound source.text)
  else if ns.exists? target then .error (.namespace (.alreadyExists target))
  else
    let moved := (ns.dirs.map (·.1)).filter source.contains
    let ns := moved.foldl (moveOne source target) ns
    .ok (match target.parent? with
      | some parent => ns.makeDirs parent now
      | none => ns)

structure Listed where
  dir : Dir
  info : DirInfo

def preorder (ns : Namespace) : Nat → Dir → List Listed
  | 0, _ => []
  | fuel + 1, d =>
    match ns.get? d with
    | none => []
    | some info => ⟨d, info⟩ :: (ns.children d).flatMap (ns.preorder fuel)

def tree (ns : Namespace) : List Listed := ns.preorder (ns.dirs.length + 1) .root

end Namespace
end Archivist
