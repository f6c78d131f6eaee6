import Archivist.Net.Address
import Archivist.Transfer.Error
import Archivist.Transfer.Status
set_option autoImplicit false

namespace Archivist

/-- How the data channel of a session comes about: the node listens, or it dials. -/
inductive DataChannel where
  | passive
  | active (address : SocketAddress)
deriving DecidableEq

inductive Request where
  | openChannel (channel : DataChannel)
  | sendFile (path : String) (mode : TransferMode) (resume : UInt64) (wantChecksum : Bool)
  | receiveFile (directory : String) (mode : TransferMode) (filename : String) (offset : UInt64)
  | abort (reason : String)
  | status
  | localPort
deriving DecidableEq

inductive Response where
  | status (s : TransferStatus)
  | localPort (port : Option UInt16)
  | aborted
  | error (kind : RemoteKind) (message : String)
deriving DecidableEq

structure RequestFrame where
  id : UInt64
  request : Request
deriving DecidableEq

structure ResponseFrame where
  id : UInt64
  response : Response
deriving DecidableEq

namespace Response

def ofError (e : TransferError) : Response := .error e.remoteKind e.message

def ofResult : Except TransferError TransferStatus → Response
  | .ok s => .status s
  | .error e => .ofError e

def describe : Response → String
  | .localPort none => "LocalPort(None)"
  | .localPort (some p) => s!"LocalPort(Some({p.toNat}))"
  | .aborted => "Aborted"
  | .status s =>
    s!"Status(TransferStatus \x7b elapsed_ms: {s.elapsedMs.toNat}, " ++
      s!"transferred: {s.transferred.toNat}, checksum: {s.checksum.toNat}, " ++
      s!"finished: {s.finished} \x7d)"
  | .error kind message => s!"Error \x7b kind: {kind.name}, message: {quoted message} \x7d"
where
  quoted (s : String) : String :=
    "\"" ++ String.join (s.toList.map fun c =>
      if c = '"' then "\\\"" else if c = '\\' then "\\\\" else if c = '\n' then "\\n"
      else if c = '\t' then "\\t" else if c = '\r' then "\\r" else String.singleton c) ++ "\""

end Response
end Archivist
