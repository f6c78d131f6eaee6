set_option autoImplicit false

namespace Archivist

inductive IoError where
  | notFound
  | fileExists
  | notDirectory
  | isDirectory
  | invalidArgument
  | fileTooLarge
  | nameTooLong
  | nulInName
  | numberTooLarge
  | unreachable
  | notUtf8
  | earlyEnd
  | bufferSize (size : Nat)
  | addressNotAvailable
  /-- An address of one family where the other is in use. -/
  | familyNotSupported
  | other (message : String)
deriving DecidableEq, Repr

def IoError.message : IoError → String
  | .notFound => "No such file or directory (os error 2)"
  | .fileExists => "File exists (os error 17)"
  | .notDirectory => "Not a directory (os error 20)"
  | .isDirectory => "Is a directory (os error 21)"
  | .invalidArgument => "Invalid argument (os error 22)"
  | .fileTooLarge => "File too large (os error 27)"
  | .nameTooLong => "File name too long (os error 36)"
  | .nulInName => "file name contained an unexpected NUL byte"
  | .numberTooLarge => "number too large to fit in target type"
  | .unreachable => "Network is unreachable (os error 101)"
  | .notUtf8 => "stream did not contain valid UTF-8"
  | .earlyEnd => "early eof"
  | .bufferSize size => s!"socket buffer size {size} out of range"
  | .addressNotAvailable => "Cannot assign requested address (os error 99)"
  | .familyNotSupported => "Address family not supported by protocol (os error 97)"
  | .other message => message

inductive RemoteKind where
  | unreachable
  | aborted
  | invalidPath
  | busy
  | other
deriving DecidableEq, Repr

def RemoteKind.name : RemoteKind → String
  | .unreachable => "Unreachable"
  | .aborted => "Aborted"
  | .invalidPath => "InvalidPath"
  | .busy => "Busy"
  | .other => "Other"

inductive TransferError where
  | connectionRefused (address : String)
  | connectionTimeout (address : String) (milliseconds : Nat)
  | aborted
  | alreadyConnected
  | noPortAvailable (first last : Nat)
  | nodeUnavailable (node : String)
  | invalidPath (path : String)
  | remote (node : String) (kind : RemoteKind) (message : String)
  | tls (reason : String)
  | messageTooLarge (size limit : Nat)
  | serialization (message : String)
  | io (e : IoError)
deriving DecidableEq, Repr

namespace TransferError

def message : TransferError → String
  | .connectionRefused address => s!"connection refused to {address}"
  | .connectionTimeout address ms => s!"connection timeout after {ms}ms to {address}"
  | .aborted => "connection aborted"
  | .alreadyConnected => "connection already used"
  | .noPortAvailable first last => s!"no free port in range {first}-{last}"
  | .nodeUnavailable node => s!"node {node} unavailable"
  | .invalidPath path => s!"invalid transfer path: {path}"
  | .remote node _ message => s!"node {node}: {message}"
  | .tls reason => s!"TLS handshake failed: {reason}"
  | .messageTooLarge size limit => s!"message too large: {size} bytes (max {limit})"
  | .serialization message => s!"serialization error: {message}"
  | .io e => e.message

def isUnreachable : TransferError → Bool
  | .connectionRefused _ => true
  | .connectionTimeout _ _ => true
  | .nodeUnavailable _ => true
  | .remote _ .unreachable _ => true
  | _ => false

def remoteKind (e : TransferError) : RemoteKind :=
  if e.isUnreachable then .unreachable
  else
    match e with
    | .aborted => .aborted
    | .invalidPath _ => .invalidPath
    | .remote _ kind _ => kind
    | _ => .other

end TransferError
end Archivist
