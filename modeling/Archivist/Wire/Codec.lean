import Archivist.Wire.Binary
import Archivist.Wire.Message
set_option autoImplicit false

namespace Archivist.Wire

def putTag (n : Nat) : Bytes := leBytes 4 n

def putMode : TransferMode → Bytes
  | .ascii => putTag 0
  | .binary => putTag 1

def getMode : Get TransferMode := fun bs => do
  match ← getNat 4 bs with
  | (0, rest) => some (.ascii, rest)
  | (1, rest) => some (.binary, rest)
  | _ => none

def putGroups (groups : Vector UInt16 8) : Bytes :=
  groups.toList.flatMap fun g : UInt16 => [(g >>> 8).toUInt8, g.toUInt8]

def pairUp : Bytes → List UInt16
  | hi :: lo :: rest => (hi.toUInt16 * 256 + lo.toUInt16) :: pairUp rest
  | _ => []

def putAddress : SocketAddress → Bytes
  | .v4 a b c d port => putTag 0 ++ [a, b, c, d] ++ putU16 port
  | .v6 groups _ _ port => putTag 1 ++ putGroups groups ++ putU16 port

def getAddress : Get SocketAddress := fun bs => do
  match ← getNat 4 bs with
  | (0, a :: b :: c :: d :: rest) =>
    let (port, rest) ← getU16 rest
    return (.v4 a b c d port, rest)
  | (1, rest) =>
    let (octets, rest) ← getBytes 16 rest
    let groups ← Address.vector8? (pairUp octets)
    let (port, rest) ← getU16 rest
    return (.v6 groups 0 0 port, rest)
  | _ => none

def putChannel : DataChannel → Bytes
  | .passive => putTag 0
  | .active address => putTag 1 ++ putAddress address

def getChannel : Get DataChannel := fun bs => do
  match ← getNat 4 bs with
  | (0, rest) => return (.passive, rest)
  | (1, rest) =>
    let (address, rest) ← getAddress rest
    return (.active address, rest)
  | _ => none

def putRequest : Request → Bytes
  | .openChannel channel => putTag 0 ++ putChannel channel
  | .sendFile path mode resume want =>
    putTag 1 ++ putText path ++ putMode mode ++ putU64 resume ++ putBool want
  | .receiveFile directory mode filename offset =>
    putTag 2 ++ putText directory ++ putMode mode ++ putText filename ++ putU64 offset
  | .abort reason => putTag 3 ++ putText reason
  | .status => putTag 4
  | .localPort => putTag 5

def getRequest : Get Request := fun bs => do
  match ← getNat 4 bs with
  | (0, rest) =>
    let (channel, rest) ← getChannel rest
    return (.openChannel channel, rest)
  | (1, rest) =>
    let (path, rest) ← getText rest
    let (mode, rest) ← getMode rest
    let (resume, rest) ← getU64 rest
    let (want, rest) ← getBool rest
    return (.sendFile path mode resume want, rest)
  | (2, rest) =>
    let (directory, rest) ← getText rest
    let (mode, rest) ← getMode rest
    let (filename, rest) ← getText rest
    let (offset, rest) ← getU64 rest
    return (.receiveFile directory mode filename offset, rest)
  | (3, rest) =>
    let (reason, rest) ← getText rest
    return (.abort reason, rest)
  | (4, rest) => return (.status, rest)
  | (5, rest) => return (.localPort, rest)
  | _ => none

def putStatus (s : TransferStatus) : Bytes :=
  putU64 s.elapsedMs ++ putU64 s.transferred ++ putU32 s.checksum ++ putBool s.finished

def getStatus : Get TransferStatus := fun bs => do
  let (elapsedMs, rest) ← getU64 bs
  let (transferred, rest) ← getU64 rest
  let (checksum, rest) ← getU32 rest
  let (finished, rest) ← getBool rest
  return (⟨elapsedMs, transferred, checksum, finished⟩, rest)

def putKind : RemoteKind → Bytes
  | .unreachable => putTag 0
  | .aborted => putTag 1
  | .invalidPath => putTag 2
  | .busy => putTag 3
  | .other => putTag 4

def getKind : Get RemoteKind := fun bs => do
  match ← getNat 4 bs with
  | (0, rest) => return (.unreachable, rest)
  | (1, rest) => return (.aborted, rest)
  | (2, rest) => return (.invalidPath, rest)
  | (3, rest) => return (.busy, rest)
  | (4, rest) => return (.other, rest)
  | _ => none

def putResponse : Response → Bytes
  | .status s => putTag 0 ++ putStatus s
  | .localPort port => putTag 1 ++ putOption putU16 port
  | .aborted => putTag 2
  | .error kind message => putTag 3 ++ putKind kind ++ putText message

def getResponse : Get Response := fun bs => do
  match ← getNat 4 bs with
  | (0, rest) =>
    let (s, rest) ← getStatus rest
    return (.status s, rest)
  | (1, rest) =>
    let (port, rest) ← getOption getU16 rest
    return (.localPort port, rest)
  | (2, rest) => return (.aborted, rest)
  | (3, rest) =>
    let (kind, rest) ← getKind rest
    let (message, rest) ← getText rest
    return (.error kind message, rest)
  | _ => none

def putRequestFrame (f : RequestFrame) : Bytes := putU64 f.id ++ putRequest f.request

def getRequestFrame : Get RequestFrame := fun bs => do
  let (id, rest) ← getU64 bs
  let (request, rest) ← getRequest rest
  return (⟨id, request⟩, rest)

def putResponseFrame (f : ResponseFrame) : Bytes := putU64 f.id ++ putResponse f.response

def getResponseFrame : Get ResponseFrame := fun bs => do
  let (id, rest) ← getU64 bs
  let (response, rest) ← getResponse rest
  return (⟨id, response⟩, rest)

/-- Decodes a message from bytes that begin with it; bytes after it are passed over. -/
def decode {α : Type} (get : Get α) (bs : Bytes) : Option α := (get bs).map (·.1)

end Archivist.Wire
