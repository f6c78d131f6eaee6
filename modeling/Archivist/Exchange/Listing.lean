import Archivist.Exchange.Bytes
import Archivist.Archive.Policy
import Archivist.Storage.Basic
set_option autoImplicit false

namespace Archivist.Exchange

def readStorage (d : Document) : Document.Asked Storage := do
  (← d.entriesOr "files").foldlM (fun s (path, b) => do return s.add path (← bytes b)) Storage.empty

def disk (s : Storage) : Json :=
  .record (s.items.map fun (l, item) =>
    let name := "/".intercalate l
    match item with
    | .directory => (name ++ "/", .null)
    | .file content => (name, shown content))

def age (now created : Instant) : Json :=
  if created = Instant.epoch then .text "epoch"
  else .integer ((now - created).tdiv Instant.second)

def fileRow (f : FileEntry) : Json := .list [.text f.path, .nat f.size, .texts f.holders]

def tree (now : Instant) (ns : Namespace) : Json :=
  .list (ns.tree.map fun l =>
    .record [("dir", l.dir.json), ("age", age now l.info.created),
      ("files", .list (l.info.files.map fileRow))])

def node (n : Node) : Json :=
  .record [("name", .text n.name), ("free", .nat n.free), ("online", .bool n.online),
    ("addr", .orNull (fun a => .text a.text) n.address)]

def fleet (f : Fleet) : Json := .list (f.all.map fun m => node m.node)

end Archivist.Exchange
