import Archivist.Exchange.Bytes
import Archivist.Exchange.Failure
import Archivist.Control.Canned
set_option autoImplicit false

namespace Archivist.Exchange

def mode : TransferMode → Json
  | .ascii => .text "Ascii"
  | .binary => .text "Binary"

def readMode : String → Document.Asked TransferMode
  | "Ascii" => .ok .ascii
  | "Binary" => .ok .binary
  | _ => .error "mode expected"

def status (timed : Bool) (s : TransferStatus) : Json :=
  .record ((if timed then [("elapsed_ms", Json.nat s.elapsedMs.toNat)] else []) ++
    [("transferred", .nat s.transferred.toNat), ("checksum", .nat s.checksum.toNat),
      ("finished", .bool s.finished)])

def readStatus (d : Document) : Document.Asked TransferStatus := do
  return ⟨(← d.natOr "elapsed_ms" 0).toUInt64, (← d.natOr "transferred" 0).toUInt64,
    (← d.natOr "checksum" 0).toUInt32, ← d.boolOr "finished" true⟩

def tagged (name : String) (fields : List (String × Json)) : Json :=
  .record [(name, .record fields)]

def request : Request → Json
  | .openChannel .passive => tagged "Open" [("channel", .text "Passive")]
  | .openChannel (.active a) =>
    tagged "Open" [("channel", tagged "Active" [("addr", .text a.text)])]
  | .sendFile path m resume want =>
    tagged "SendFile" [("path", .text path), ("mode", mode m),
      ("resume_position", .nat resume.toNat), ("want_checksum", .bool want)]
  | .receiveFile directory m filename offset =>
    tagged "ReceiveFile" [("directory", .text directory), ("mode", mode m),
      ("filename", .text filename), ("offset", .nat offset.toNat)]
  | .abort reason => tagged "Abort" [("reason", .text reason)]
  | .status => .text "Status"
  | .localPort => .text "LocalPort"

def response (timed : Bool) (veil : String → String) : Response → Json
  | .status s => .record [("Status", status timed s)]
  | .localPort p => .record [("LocalPort", .orNull (fun p => .nat p.toNat) p)]
  | .aborted => .text "Aborted"
  | .error kind message =>
    tagged "Error" [("kind", .text kind.name), ("message", .text (veil message))]

def requestFrame (f : RequestFrame) : Json :=
  .record [("id", .nat f.id.toNat), ("request", request f.request)]

def responseFrame (f : ResponseFrame) : Json :=
  .record [("id", .nat f.id.toNat), ("response", response true id f.response)]

def address (s : String) : Document.Asked SocketAddress :=
  match SocketAddress.ofText? s with
  | some a => .ok a
  | none => .error "address expected"

def readChannel : Document → Document.Asked DataChannel
  | .text "Passive" => .ok .passive
  | d => do return .active (← address (← (← d.fieldOf "Active").textOf "addr"))

def readRequest : Document → Document.Asked Request
  | .text "Status" => .ok .status
  | .text "LocalPort" => .ok .localPort
  | .record [(some "Open", d)] => do return .openChannel (← readChannel (← d.fieldOf "channel"))
  | .record [(some "SendFile", d)] => do
    return .sendFile (← d.textOf "path") (← readMode (← d.textOf "mode"))
      (← d.natOf "resume_position").toUInt64 (← d.boolOf "want_checksum")
  | .record [(some "ReceiveFile", d)] => do
    return .receiveFile (← d.textOf "directory") (← readMode (← d.textOf "mode"))
      (← d.textOf "filename") (← d.natOf "offset").toUInt64
  | .record [(some "Abort", d)] => do return .abort (← d.textOf "reason")
  | _ => .error "request expected"

def readResponse : Document → Document.Asked Response
  | .text "Aborted" => .ok .aborted
  | .record [(some "Status", d)] => do return .status (← readStatus d)
  | .record [(some "LocalPort", .null)] => .ok (.localPort none)
  | .record [(some "LocalPort", d)] => do return .localPort (some (← d.asNat).toUInt16)
  | .record [(some "Error", d)] => do
    return .error (← RemoteKind.ofName (← d.textOf "kind")) (← d.textOf "message")
  | _ => .error "response expected"

def readRequestFrame (d : Document) : Document.Asked RequestFrame := do
  return ⟨(← d.natOf "id").toUInt64, ← readRequest (← d.fieldOf "request")⟩

def readResponseFrame (d : Document) : Document.Asked ResponseFrame := do
  return ⟨(← d.natOf "id").toUInt64, ← readResponse (← d.fieldOf "response")⟩

def readCannedResult : Document → Document.Asked CannedResult
  | .text "hold" => .ok .hold
  | d =>
    match d.given? "err" with
    | some spec => do return .fails (← readTransferError spec)
    | none => do return .ends (← readStatus d)

def readCanned (d : Document) : Document.Asked Canned := do
  let table := fun (name : String) => do
    (← d.entriesOr name).mapM fun (key, v) => do return (key, ← readCannedResult v)
  let progress := (d.given? "progress").getD (.record [])
  let port ← progress.maybe "port" Document.asNat
  return { sends := ← table "send", receives := ← table "receive",
           port := port.map (·.toUInt16),
           progress := { (← readStatus progress) with finished := false } }

def call : Request → Json
  | .sendFile path m resume want =>
    .list [.text "send", .text path, mode m, .nat resume.toNat, .bool want]
  | .receiveFile directory m filename offset =>
    .list [.text "receive", .text directory, mode m, .text filename, .nat offset.toNat]
  | other => request other

end Archivist.Exchange
