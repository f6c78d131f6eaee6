import Archivist.Archive.Job
import Archivist.Config.Writing
import Archivist.Document.Query
set_option autoImplicit false

namespace Archivist

def RemoteKind.all : List RemoteKind := [.unreachable, .aborted, .invalidPath, .busy, .other]

def RemoteKind.ofName (s : String) : Document.Asked RemoteKind :=
  match RemoteKind.all.find? fun k => k.name = s with
  | some k => .ok k
  | none => .error "kind expected"

def TransferError.name : TransferError → String
  | .connectionRefused _ => "ConnectionRefused"
  | .connectionTimeout _ _ => "ConnectionTimeout"
  | .aborted => "Aborted"
  | .alreadyConnected => "AlreadyConnected"
  | .noPortAvailable _ _ => "NoPortAvailable"
  | .nodeUnavailable _ => "NodeUnavailable"
  | .invalidPath _ => "InvalidPath"
  | .remote _ _ _ => "Remote"
  | .tls _ => "TlsError"
  | .messageTooLarge _ _ => "MessageTooLarge"
  | .serialization _ => "SerializationError"
  | .io _ => "IoError"

def ArchiveError.name : ArchiveError → String
  | .duplicate _ => "DuplicateArchive"
  | .nodeUnavailable _ => "NodeUnavailable"
  | .transport _ => "Transport"
  | .inconsistency _ => "InternalConsistency"
  | .state _ => "InvalidState"
  | .namespace _ => "Namespace"
  | .config _ => "Config"

def JobFailure.name : JobFailure → String
  | .nodeUnavailable _ => "NodeUnavailable"
  | .transport _ => "Transport"
  | .executor _ => "Executor"

namespace Exchange

def hideAfter (phrase replacement s : String) : String :=
  match s.splitOn phrase with
  | front :: _ :: _ => front ++ phrase ++ replacement
  | _ => s

def beforeColon (s : String) : String := String.ofList (s.toList.takeWhile (· ≠ ':'))

/-- A failed transfer; `veil` hides what differs from run to run. -/
def transferError (veil : String → String) (e : TransferError) : Json :=
  let kind := ("error", Json.text e.name)
  let message := ("message", Json.text (veil e.message))
  match e with
  | .connectionRefused _ => .record [kind]
  | .noPortAvailable _ _ => .record [kind]
  | .connectionTimeout _ ms => .record [kind, ("timeout_ms", .nat ms)]
  | .serialization m =>
    .record (if m.startsWith "unexpected response" then [kind, message] else [kind])
  | .tls m =>
    .record (if m.startsWith "no " then [kind, message]
      else [kind, ("stage", .text (beforeColon m))])
  | _ => .record [kind, message]

def archiveError (e : ArchiveError) : Json :=
  .record [("error", .text e.name), ("message", .text e.message)]

def jobFailure (f : JobFailure) : Json :=
  .record [("failure", .text f.name),
    ("message", .text (hideAfter "no free port in range " "<ports>"
      (hideAfter "executor: runner panicked" "" f.message)))]

def result {α : Type} (veil : String → String) (f : α → Json) : Except TransferError α → Json
  | .ok a => f a
  | .error e => transferError veil e

def archiveResult {α : Type} (f : α → Json) : Except ArchiveError α → Json
  | .ok a => f a
  | .error e => archiveError e

def readTransferError (d : Document) : Document.Asked TransferError := do
  match ← d.textOf "kind" with
  | "ConnectionRefused" => return .connectionRefused (← d.textOf "addr")
  | "ConnectionTimeout" =>
    return .connectionTimeout (← d.textOf "addr") (← d.natOf "timeout_ms")
  | "Aborted" => return .aborted
  | "AlreadyConnected" => return .alreadyConnected
  | "NoPortAvailable" => return .noPortAvailable (← d.natOf "start") (← d.natOf "end")
  | "NodeUnavailable" => return .nodeUnavailable (← d.textOf "node")
  | "InvalidPath" => return .invalidPath (← d.textOf "path")
  | "Remote" =>
    return .remote (← d.textOf "node") (← RemoteKind.ofName (← d.textOf "remote_kind"))
      (← d.textOf "message")
  | "TlsError" => return .tls (← d.textOf "reason")
  | "MessageTooLarge" => return .messageTooLarge (← d.natOf "size") (← d.natOf "max_size")
  | "SerializationError" => return .serialization (← d.textOf "message")
  | "IoError" => return .io (.other (← d.textOf "message"))
  | _ => .error "kind expected"

def readArchiveError (d : Document) : Document.Asked ArchiveError := do
  match ← d.textOf "kind" with
  | "DuplicateArchive" => return .duplicate (Dir.ofText (← d.textOf "directory"))
  | "NodeUnavailable" => return .nodeUnavailable (← d.textOf "node")
  | "Transport" => return .transport (← readTransferError (← d.fieldOf "inner"))
  | "InternalConsistency" => return .inconsistency (.other (← d.textOf "msg"))
  | "InvalidState" => return .state (.other (← d.textOf "msg"))
  | "Namespace" => return .namespace (.other (← d.textOf "msg"))
  | "Config" => return .config (.other (← d.textOf "msg"))
  | _ => .error "kind expected"

def readJobFailure (d : Document) : Document.Asked JobFailure := do
  match ← d.textOf "kind" with
  | "NodeUnavailable" => return .nodeUnavailable (← d.textOf "node")
  | "Transport" => return .transport (← d.textOf "message")
  | "Executor" => return .executor (← d.textOf "message")
  | _ => .error "kind expected"

end Exchange
end Archivist
