import Archivist.Archive.Policy
import Archivist.Config.Reading
import Archivist.Config.Writing
set_option autoImplicit false

namespace Archivist

structure ListedDirectory where
  path : Dir
  ageSeconds : Nat := 0

structure ListedFile where
  path : String
  size : Nat := 0
  holders : List String := []

structure Snapshot where
  nodes : List Node := []
  directories : List ListedDirectory := []
  files : List ListedFile := []

namespace Reads

def address : Reads SocketAddress := fun d => do
  required (SocketAddress.ofText? (← Decoder.text d))

def nodeLayout : Layout TransferError (Option String × Node) where
  fields := [
    Layout.field "name" Decoder.text fun s x => (some x, s.2),
    Layout.field "free_space" Decoder.nat64 fun s x => (s.1, { s.2 with free := x }),
    Layout.field "online" Decoder.bool fun s x => (s.1, { s.2 with online := x }),
    Layout.field "addr" (Decoder.optional address) fun s x => (s.1, { s.2 with address := x })]

def node (dialect : Dialect) : Reads Node := fun d => do
  let draft ← nodeLayout.fill dialect (none, ⟨"", 0, true, none⟩) d
  return { draft.2 with name := ← required draft.1 }

def directoryLayout : Layout TransferError (Option Dir × Nat) where
  fields := [
    Layout.field "path" dir fun s x => (some x, s.2),
    Layout.field "age_secs" Decoder.nat64 fun s x => (s.1, x)]

def directory (dialect : Dialect) : Reads ListedDirectory := fun d => do
  let draft ← directoryLayout.fill dialect (none, 0) d
  return ⟨← required draft.1, draft.2⟩

def fileLayout : Layout TransferError (Option String × ListedFile) where
  fields := [
    Layout.field "path" Decoder.text fun s x => (some x, s.2),
    Layout.field "size" Decoder.nat64 fun s x => (s.1, { s.2 with size := x }),
    Layout.field "slaves" (Decoder.listOf Decoder.text) fun s x =>
      (s.1, { s.2 with holders := x })]

def file (dialect : Dialect) : Reads ListedFile := fun d => do
  let draft ← fileLayout.fill dialect (none, { path := "" }) d
  return { draft.2 with path := ← required draft.1 }

def snapshotLayout (dialect : Dialect) : Layout TransferError Snapshot where
  fields := [
    Layout.field "slaves" (Decoder.listOf (node dialect)) fun s x => { s with nodes := x },
    Layout.field "directories" (Decoder.listOf (directory dialect)) fun s x =>
      { s with directories := x },
    Layout.field "files" (Decoder.listOf (file dialect)) fun s x => { s with files := x }]

def snapshot (dialect : Dialect) : Reads Snapshot := (snapshotLayout dialect).fill dialect {}

end Reads

def Node.json (n : Node) : Json :=
  .record [("name", .text n.name), ("free_space", .nat n.free), ("online", .bool n.online),
    ("addr", .orNull (fun a => .text a.text) n.address)]

def ListedDirectory.json (d : ListedDirectory) : Json :=
  .record [("path", d.path.json), ("age_secs", .nat d.ageSeconds)]

def ListedFile.json (f : ListedFile) : Json :=
  .record [("path", .text f.path), ("size", .nat f.size), ("slaves", .texts f.holders)]

namespace Snapshot

def json (s : Snapshot) : Json :=
  .record [("slaves", .list (s.nodes.map Node.json)),
    ("directories", .list (s.directories.map ListedDirectory.json)),
    ("files", .list (s.files.map ListedFile.json))]

def addDirectory (now : Instant) (ns : Namespace) (d : ListedDirectory) : Namespace :=
  ns.makeDirs d.path (now.before d.ageSeconds)

/-- Lists a file; each gets an instant of its own. -/
def addFile (w : World) (f : ListedFile) : World :=
  let (now, clock) := w.clock.read
  { w with clock, namespace_ := w.namespace_.addFile now f.path f.size f.holders }

def build (s : Snapshot) (clock : Clock) : World :=
  let (now, clock) := clock.read
  let ns := s.directories.foldl (addDirectory now) Namespace.empty
  let w : World := s.files.foldl addFile { clock, namespace_ := ns }
  { w with fleet := s.nodes.foldl (fun f n => (f.add n).1) {} }

end Snapshot
end Archivist
