import Archivist.Control.Server
import Archivist.Transfer.FileTransfer
set_option autoImplicit false

namespace Archivist

structure NodeWorker where
  transfer : FileTransfer
  storage : Storage
  network : Network
  waiting : Option TransferTask := none
  /-- What has come of the transfer in hand. -/
  result : Option (Except TransferError TransferStatus) := none
  /-- The bytes of the peer that has dialled, in the pieces in which they come. -/
  peer : Option (List (List UInt8)) := none
  /-- What went out over the data connection. -/
  sent : Option (List UInt8) := none

namespace NodeWorker

def carryOut (s : NodeWorker) (arriving : List (List UInt8)) : TransferTask → NodeWorker
  | .send content mode want =>
    let (t, result, wire) :=
      s.transfer.runSend mode want (content.map FileTransfer.pieces) s.network.breaks 0
    { s with transfer := t, result := some result, sent := some wire, waiting := none }
  | .receive location mode =>
    let (t, storage, result) := s.transfer.runReceive s.storage location mode arriving s.network.breaks 0
    { s with transfer := t, storage, result := some result, waiting := none }

def close (s : NodeWorker) : NodeWorker :=
  match s.transfer.localPort with
  | some p => { s with network := s.network.close p.toNat }
  | none => s

def connect (s : NodeWorker) (task : TransferTask) : NodeWorker :=
  match s.transfer.attempt s.network with
  | (t, .failed e) => { s with transfer := t, result := some (.error e) }
  | (t, .connected) => carryOut { s with transfer := t } [] task
  | (t, .waiting) =>
    match s.peer with
    | some arriving => (carryOut { s with transfer := t, peer := none } arriving task).close
    | none => { s with transfer := t, waiting := some task }

def start (s : NodeWorker) : Request → NodeWorker
  | .sendFile path mode resume want =>
    match FileTransfer.prepareSend s.storage path mode resume want with
    | .error e => { s with result := some (.error e) }
    | .ok task => s.connect task
  | .receiveFile directory mode filename offset =>
    match FileTransfer.prepareReceive s.storage directory mode filename offset with
    | (storage, .error e) => { s with storage, result := some (.error e) }
    | (storage, .ok task) => { s with storage }.connect task
  | _ => s

def abort (s : NodeWorker) : NodeWorker :=
  let s := { s with transfer := s.transfer.abort }.close
  if s.waiting.isSome then { s with waiting := none, result := some (.error .aborted) } else s

def dialled (s : NodeWorker) (arriving : List (List UInt8)) : NodeWorker :=
  match s.waiting with
  | some task => (carryOut s arriving task).close
  | none => { s with peer := some arriving }

def poll (s : NodeWorker) : Option (Except TransferError TransferStatus) × NodeWorker :=
  (s.result, { s with result := none })

def expire (s : NodeWorker) : Option (Except TransferError TransferStatus) × NodeWorker :=
  match s.waiting with
  | some _ => (some (.error s.transfer.timedOut), { s with waiting := none }.close)
  | none => s.poll

def view (s : NodeWorker) : WorkerView where
  progress := s.transfer.progress 0
  localPort := s.transfer.localPort

def worker : Worker NodeWorker where
  start := start
  abort s _ := s.abort
  view := view
  poll := poll
  expire := expire

end NodeWorker
end Archivist
