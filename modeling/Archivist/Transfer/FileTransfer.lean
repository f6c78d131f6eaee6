import Archivist.Net.Connection
import Archivist.Storage.Paths
import Archivist.Transfer.Checksum
import Archivist.Transfer.LineEnding
import Archivist.Transfer.Status
set_option autoImplicit false

/-!
# Moving one file over a data connection

A transfer first prepares its file, then waits for its connection, then moves the bytes piece by
piece.  `sendPiece` and `receivePiece` are the steps of the two directions; the state after some
pieces is a fold of them, so a transfer that is cut off anywhere has a state as well.  The
checksum is always that of the file's bytes, the count that of the bytes on the wire.
-/

namespace Archivist

structure FileTransfer where
  connection : DataConnection
  transferred : UInt64 := 0
  checksum : UInt32 := 0
  started : Bool := false
  finishedAfter : Option UInt64 := none
  cancelled : Bool := false

/-- What remains to be done once the connection stands. -/
inductive TransferTask where
  /-- Send the rest of a file; a directory can be opened but not read. -/
  | send (content : Except IoError (List UInt8)) (mode : TransferMode) (wantChecksum : Bool)
  /-- Receive behind what a file holds. -/
  | receive (location : Location) (mode : TransferMode)

namespace FileTransfer

def bufferSize : Nat := 65536

def cut (size : Nat) : Nat → List UInt8 → List (List UInt8)
  | 0, _ => []
  | fuel + 1, bs => if bs = [] then [] else bs.take size :: cut size fuel (bs.drop size)

def pieces (bs : List UInt8) : List (List UInt8) := cut bufferSize (bs.length / bufferSize + 1) bs

theorem flatten_cut {size fuel : Nat} {bs : List UInt8} (enough : bs.length ≤ fuel * size) :
    (cut size fuel bs).flatten = bs := by
  induction fuel generalizing bs with
  | zero =>
    rw [Nat.zero_mul, Nat.le_zero] at enough
    rw [List.length_eq_zero_iff.1 enough]
    rfl
  | succ fuel ih =>
    unfold cut
    split
    · rename_i empty
      rw [empty]
      rfl
    · have rest : (bs.drop size).length ≤ fuel * size := by
        rw [List.length_drop]
        rw [Nat.succ_mul] at enough
        omega
      rw [List.flatten_cons, ih rest, List.take_append_drop]

theorem flatten_pieces (bs : List UInt8) : (pieces bs).flatten = bs := by
  apply flatten_cut
  have parts := Nat.div_add_mod bs.length bufferSize
  have rest := Nat.mod_lt bs.length (by decide : 0 < bufferSize)
  rw [Nat.add_mul, Nat.one_mul, Nat.mul_comm]
  omega

def abort (t : FileTransfer) : FileTransfer :=
  { t with cancelled := true, connection := t.connection.abort }

def localPort (t : FileTransfer) : Option UInt16 := t.connection.localPort

def status (t : FileTransfer) (elapsed : UInt64) : TransferStatus where
  elapsedMs := t.finishedAfter.getD (if t.started then elapsed else 0)
  transferred := t.transferred
  checksum := t.checksum
  finished := t.finishedAfter.isSome

/-- The state of a running transfer as it is told to the peer. -/
def progress (t : FileTransfer) (elapsed : UInt64) : TransferStatus :=
  { t.status elapsed with finished := false }

def sendItem (mode : TransferMode) (resume : UInt64) (wantChecksum : Bool) (item : Item) :
    Except TransferError TransferTask :=
  if resume.toNat > Storage.maxLength then .error (.io .invalidArgument)
  else
    match item with
    | .directory => .ok (.send (.error .isDirectory) mode wantChecksum)
    | .file content => .ok (.send (.ok (content.drop resume.toNat)) mode wantChecksum)

/-- Gets a file below a root ready to be sent; the paths come first that are asked for. -/
def prepareSendAt (root : String) (storage : Storage) (path : String) (mode : TransferMode)
    (resume : UInt64) (wantChecksum : Bool) : List String × Except TransferError TransferTask :=
  match Pathname.resolveUnder root path with
  | .error e => ([], .error e)
  | .ok file =>
    ([file],
      match storage.readAt file with
      | .error e => .error (.io e)
      | .ok item => sendItem mode resume wantChecksum item)

/-- Makes the directory, opens the file and cuts it at the offset; the paths come first that are
asked for. -/
def prepareReceiveAt (root : String) (storage : Storage) (directory : String) (mode : TransferMode)
    (filename : String) (offset : UInt64) :
    List String × Storage × Except TransferError TransferTask :=
  if !Location.isFileName filename then ([], storage, .error (.invalidPath filename))
  else
    match Pathname.resolveUnder root directory with
    | .error e => ([], storage, .error e)
    | .ok parent =>
      match storage.makeAt parent with
      | (storage, .error e) => ([parent], storage, .error (.io e))
      | (storage, .ok ()) =>
        let file := Pathname.push parent filename
        ([parent, file],
          match storage.writeAt file with
          | (storage, .error e) => (storage, .error (.io e))
          | (storage, .ok place) =>
            match storage.setLength place offset.toNat with
            | (storage, .error e) => (storage, .error (.io e))
            | (storage, .ok ()) => (storage, .ok (.receive place mode)))

/-- The root of a node that has a storage to itself. -/
def top : String := "/"

def prepareSend (storage : Storage) (path : String) (mode : TransferMode) (resume : UInt64)
    (wantChecksum : Bool) : Except TransferError TransferTask :=
  (prepareSendAt top storage path mode resume wantChecksum).2

def prepareReceive (storage : Storage) (directory : String) (mode : TransferMode)
    (filename : String) (offset : UInt64) : Storage × Except TransferError TransferTask :=
  (prepareReceiveAt top storage directory mode filename offset).2

def attempt (t : FileTransfer) (net : Network) : FileTransfer × Attempt :=
  let (connection, a) := t.connection.attempt net
  ({ t with connection }, a)

def timedOut (t : FileTransfer) : TransferError :=
  match t.connection with
  | .passive c => c.timedOut
  | .active c => .connectionTimeout c.address.text c.settings.timeoutMs

def begin (t : FileTransfer) : Except TransferError FileTransfer :=
  if t.cancelled then .error .aborted
  else if t.started then .error .alreadyConnected
  else .ok { t with started := true }

def complete (t : FileTransfer) (elapsed : UInt64) : FileTransfer × TransferStatus :=
  let t := { t with finishedAfter := some elapsed }
  (t, ⟨elapsed, t.transferred, t.checksum, true⟩)

structure Sending where
  transfer : FileTransfer
  mode : TransferMode
  wantChecksum : Bool
  afterCr : Bool := false
  register : UInt32 := Checksum.start
  /-- The pieces written so far, the last one first. -/
  written : List (List UInt8) := []

def sendPiece (s : Sending) (piece : List UInt8) : Sending :=
  let register := if s.wantChecksum then Checksum.update s.register piece else s.register
  let wire := match s.mode with
    | .binary => piece
    | .ascii => LineEnding.encode s.afterCr piece
  { s with
    register := register
    afterCr := LineEnding.endsInCr s.afterCr piece
    written := wire :: s.written
    transfer := { s.transfer with
      checksum := if s.wantChecksum then Checksum.sum register else s.transfer.checksum
      transferred := s.transfer.transferred + UInt64.ofNat wire.length } }

structure Receiving where
  transfer : FileTransfer
  storage : Storage
  location : Location
  mode : TransferMode
  held : Bool := false
  register : UInt32 := Checksum.start

def keep (r : Receiving) (data : List UInt8) : Receiving :=
  let register := Checksum.update r.register data
  { r with
    register := register
    storage := r.storage.append r.location data
    transfer := { r.transfer with checksum := Checksum.sum register } }

def receivePiece (r : Receiving) (piece : List UInt8) : Receiving :=
  let r := { r with transfer := { r.transfer with
    transferred := r.transfer.transferred + UInt64.ofNat piece.length } }
  match r.mode with
  | .binary => keep r piece
  | .ascii => { keep r (LineEnding.decode r.held piece) with
      held := LineEnding.endsInCr r.held piece }

def flushHeld (r : Receiving) : Receiving :=
  if r.mode = .ascii ∧ r.held = true then { keep r (LineEnding.flush true) with held := false }
  else r

/-- Sends the pieces of a file over a standing connection: the transfer, its result, and the
bytes that went out. -/
def runSend (t : FileTransfer) (mode : TransferMode) (wantChecksum : Bool)
    (content : Except IoError (List (List UInt8))) (breaks : Option Interruption)
    (elapsed : UInt64) : FileTransfer × Except TransferError TransferStatus × List UInt8 :=
  match t.begin with
  | .error e => (t, .error e, [])
  | .ok t =>
    match content, breaks with
    | .error e, _ => (t, .error (.io e), [])
    | .ok ps, some i =>
      let s := (ps.take i.after).foldl sendPiece { transfer := t, mode, wantChecksum }
      (s.transfer, .error i.error, s.written.reverse.flatten)
    | .ok ps, none =>
      let s := ps.foldl sendPiece { transfer := t, mode, wantChecksum }
      let (t, status) := s.transfer.complete elapsed
      (t, .ok status, s.written.reverse.flatten)

/-- Receives a stream in the pieces in which it comes, until it ends. -/
def runReceive (t : FileTransfer) (storage : Storage) (location : Location) (mode : TransferMode)
    (arriving : List (List UInt8)) (breaks : Option Interruption) (elapsed : UInt64) :
    FileTransfer × Storage × Except TransferError TransferStatus :=
  match t.begin with
  | .error e => (t, storage, .error e)
  | .ok t =>
    match breaks with
    | some i =>
      let r := (arriving.take i.after).foldl receivePiece { transfer := t, storage, location, mode }
      (r.transfer, r.storage, .error i.error)
    | none =>
      let r := flushHeld (arriving.foldl receivePiece { transfer := t, storage, location, mode })
      let (t, status) := r.transfer.complete elapsed
      (t, r.storage, .ok status)

/-- Sends a file: what a dialling transfer comes to, with the bytes that its peer got. -/
def sendFile (t : FileTransfer) (storage : Storage) (net : Network) (path : String)
    (mode : TransferMode) (resume : UInt64) (wantChecksum : Bool) (elapsed : UInt64) :
    FileTransfer × Except TransferError TransferStatus × List UInt8 :=
  match prepareSend storage path mode resume wantChecksum with
  | .error e => (t, .error e, [])
  | .ok (.receive _ _) => (t, .error .aborted, [])
  | .ok (.send content mode want) =>
    match t.attempt net with
    | (t, .failed e) => (t, .error e, [])
    | (t, .waiting) => (t, .error t.timedOut, [])
    | (t, .connected) => t.runSend mode want (content.map pieces) net.breaks elapsed

/-- Receives a file that has been got ready: `peer` is what comes over the connection, if somebody
dials at all. -/
def receiveReady (t : FileTransfer) (net : Network) (peer : Option (List (List UInt8)))
    (elapsed : UInt64) :
    Storage × Except TransferError TransferTask →
      FileTransfer × Storage × Except TransferError TransferStatus
  | (storage, .error e) => (t, storage, .error e)
  | (storage, .ok (.send _ _ _)) => (t, storage, .error .aborted)
  | (storage, .ok (.receive location mode)) =>
    match t.attempt net with
    | (t, .failed e) => (t, storage, .error e)
    | (t, .connected) => t.runReceive storage location mode (peer.getD []) net.breaks elapsed
    | (t, .waiting) =>
      match net.reach, peer with
      | .loopback, some arriving => t.runReceive storage location mode arriving net.breaks elapsed
      | _, _ => (t, storage, .error t.timedOut)

def receiveFile (t : FileTransfer) (storage : Storage) (net : Network)
    (peer : Option (List (List UInt8))) (directory : String) (mode : TransferMode)
    (filename : String) (offset : UInt64) (elapsed : UInt64) :
    FileTransfer × Storage × Except TransferError TransferStatus :=
  t.receiveReady net peer elapsed (prepareReceive storage directory mode filename offset)

end FileTransfer
end Archivist
