import Archivist.Control.NodeWorker
import Archivist.Proofs.Transfer.Stream
set_option autoImplicit false

/-!
# A worker that can be watched

A `Mover` moves a file in the steps between which a node can be asked about it: the connection
stands, a piece of the file was read, the piece is on the wire, bytes have come, the file or the
stream has ended, everything is put away.  Its surroundings decide which of them comes next and
when something fails; a step that is not possible changes nothing.  It notes all bytes that went
over the data connection, all bytes that entered the checksum, and what was reported of transfers
that are complete.

Left to itself it does what the worker of a session does at once (`carryOut_eq`).
-/

namespace Archivist

namespace FileTransfer

def readPiece (s : Sending) (piece : List UInt8) : Sending :=
  let register := if s.wantChecksum then Checksum.update s.register piece else s.register
  { s with
    register := register
    transfer := { s.transfer with
      checksum := if s.wantChecksum then Checksum.sum register else s.transfer.checksum } }

def writePiece (s : Sending) (piece : List UInt8) : Sending :=
  let wire := onWire s.mode s.afterCr piece
  { s with
    afterCr := LineEnding.endsInCr s.afterCr piece
    written := wire :: s.written
    transfer := { s.transfer with
      transferred := s.transfer.transferred + UInt64.ofNat wire.length } }

theorem writePiece_readPiece (s : Sending) (piece : List UInt8) :
    writePiece (readPiece s piece) piece = sendPiece s piece := by
  obtain ⟨transfer, mode, want, afterCr, register, written⟩ := s
  cases mode <;> rfl

end FileTransfer

open FileTransfer

namespace Mover

/-- How far a transfer has come. -/
inductive Stage where
  | idle (t : FileTransfer)
  /-- The file is ready, and the connection is to come. -/
  | connecting (t : FileTransfer) (task : TransferTask)
  /-- A piece that was read is to be written first. -/
  | sending (s : Sending) (piece : Option (List UInt8))
  | receiving (r : Receiving)
  /-- All bytes have been moved. -/
  | closing (t : FileTransfer)
  | done (t : FileTransfer) (result : Except TransferError TransferStatus)

def Stage.transfer : Stage → FileTransfer
  | .idle t | .connecting t _ | .closing t | .done t _ => t
  | .sending s _ => s.transfer
  | .receiving r => r.transfer

def Stage.abort : Stage → Stage
  | .idle t => .idle t.abort
  | .connecting t task => .connecting t.abort task
  | .sending s piece => .sending { s with transfer := s.transfer.abort } piece
  | .receiving r => .receiving { r with transfer := r.transfer.abort }
  | .closing t => .closing t.abort
  | .done t result => .done t.abort result

theorem Stage.transfer_abort (s : Stage) : s.abort.transfer = s.transfer.abort := by
  cases s <;> rfl

end Mover

/-- What has happened over a session. -/
structure Notes where
  /-- The bytes that went over the data connection. -/
  moved : List UInt8 := []
  /-- The bytes that entered the checksum. -/
  summed : List UInt8 := []
  /-- The reports of transfers that are complete. -/
  completed : List TransferStatus := []

structure Mover where
  stage : Mover.Stage
  /-- While a file is received its stage has the storage. -/
  storage : Storage
  network : Network
  /-- The time since the transfer has started. -/
  clock : UInt64 := 0
  notes : Notes := {}

namespace Mover

inductive Event where
  | tick (elapsed : UInt64)
  | connected
  | read (piece : List UInt8)
  | written
  | arrives (piece : List UInt8)
  /-- The file or the stream has no more bytes. -/
  | ends
  /-- Everything is put away. -/
  | closed
  | fails (e : TransferError)

def join (m : Mover) (t : FileTransfer) : TransferTask → Mover
  | .send (.error e) _ _ => { m with stage := .done t (.error (.io e)) }
  | .send (.ok _) mode want => { m with
    stage := .sending { transfer := t, mode, wantChecksum := want } none }
  | .receive location mode => { m with
    stage := .receiving { transfer := t, storage := m.storage, location, mode } }

def heldBack (r : Receiving) : List UInt8 :=
  if r.mode = .ascii ∧ r.held = true then LineEnding.flush true else []

def occurs (m : Mover) (event : Event) : Mover :=
  match event, m.stage with
  | .tick elapsed, _ => { m with clock := elapsed }
  | .connected, .connecting t task =>
    match t.begin with
    | .error e => { m with stage := .done t (.error e) }
    | .ok t => m.join t task
  | .read piece, .sending s none => { m with
    stage := .sending (readPiece s piece) (some piece)
    notes := { m.notes with
      summed := m.notes.summed ++ if s.wantChecksum then piece else [] } }
  | .written, .sending s (some piece) => { m with
    stage := .sending (writePiece s piece) none
    notes := { m.notes with moved := m.notes.moved ++ onWire s.mode s.afterCr piece } }
  | .arrives piece, .receiving r => { m with
    stage := .receiving (receivePiece r piece)
    notes := { m.notes with
      moved := m.notes.moved ++ piece
      summed := m.notes.summed ++ offWire r.mode r.held piece } }
  | .ends, .sending s none => { m with stage := .closing s.transfer }
  | .ends, .receiving r => { m with
    stage := .closing (flushHeld r).transfer
    storage := (flushHeld r).storage
    notes := { m.notes with summed := m.notes.summed ++ heldBack r } }
  | .closed, .closing t =>
    let (t, status) := t.complete m.clock
    { m with
      stage := .done t (.ok status)
      notes := { m.notes with completed := m.notes.completed ++ [status] } }
  | .fails e, .connecting t _ => { m with stage := .done t (.error e) }
  | .fails e, .sending s _ => { m with stage := .done s.transfer (.error e) }
  | .fails e, .receiving r => { m with stage := .done r.transfer (.error e), storage := r.storage }
  | .fails e, .closing t => { m with stage := .done t (.error e) }
  | _, _ => m

def after (m : Mover) (events : List Event) : Mover := events.foldl occurs m

theorem after_append (m : Mover) (events later : List Event) :
    m.after (events ++ later) = (m.after events).after later := List.foldl_append

def connect (m : Mover) (task : TransferTask) : Mover :=
  match m.stage.transfer.attempt m.network with
  | (t, .failed e) => { m with stage := .done t (.error e) }
  | (t, .connected) => { m with stage := .connecting t task }
  | (t, .waiting) => { m with stage := .connecting t task }

def start (m : Mover) : Request → Mover
  | .sendFile path mode resume want =>
    match prepareSend m.storage path mode resume want with
    | .error e => { m with stage := .done m.stage.transfer (.error e) }
    | .ok task => m.connect task
  | .receiveFile directory mode filename offset =>
    match prepareReceive m.storage directory mode filename offset with
    | (storage, .error e) => { m with storage, stage := .done m.stage.transfer (.error e) }
    | (storage, .ok task) => { m with storage }.connect task
  | _ => m

def abort (m : Mover) : Mover := { m with stage := m.stage.abort }

def poll (m : Mover) : Option (Except TransferError TransferStatus) × Mover :=
  match m.stage with
  | .done t result => (some result, { m with stage := .idle t })
  | _ => (none, m)

def view (m : Mover) : WorkerView where
  progress := m.stage.transfer.progress m.clock
  localPort := m.stage.transfer.localPort

def worker : Worker Mover where
  start := start
  abort m _ := m.abort
  view := view
  poll := poll
  expire := poll

def steps (arriving : List (List UInt8)) : TransferTask → List (List Event)
  | .send (.ok content) _ _ => (pieces content).map fun p => [.read p, .written]
  | .send (.error _) _ _ => []
  | .receive _ _ => arriving.map fun p => [.arrives p]

/-- All that happens over a connection that breaks off where the host says, or not at all. -/
def course (arriving : List (List UInt8)) (task : TransferTask) : Option Interruption → List Event
  | none => (steps arriving task).flatten ++ [.ends, .closed]
  | some i => ((steps arriving task).take i.after).flatten ++ [.fails i.error]

variable {m : Mover}

theorem after_of_done {t : FileTransfer} {result : Except TransferError TransferStatus}
    (h : m.stage = .done t result) (events : List Event) :
    (m.after events).stage = .done t result ∧ (m.after events).storage = m.storage ∧
      (m.after events).notes = m.notes := by
  induction events generalizing m with
  | nil => exact ⟨h, rfl, rfl⟩
  | cons event events ih =>
    obtain ⟨stage, storage, network, clock, notes⟩ := m
    cases h
    cases event <;> exact ih rfl

theorem after_sends {s : Sending} (h : m.stage = .sending s none) (ps : List (List UInt8)) :
    ∃ notes wire, m.after (ps.map fun p => [.read p, .written]).flatten =
        { m with stage := .sending (ps.foldl sendPiece s) none, notes } ∧
      notes.moved = m.notes.moved ++ wire ∧
      (ps.foldl sendPiece s).written.reverse.flatten = s.written.reverse.flatten ++ wire := by
  induction ps generalizing m s with
  | nil =>
    refine ⟨m.notes, [], ?_, (List.append_nil _).symm, (List.append_nil _).symm⟩
    rw [List.foldl_nil, ← h]
    rfl
  | cons p ps ih =>
    obtain ⟨stage, storage, network, clock, notes⟩ := m
    cases h
    have one : (Mover.mk (.sending s none) storage network clock notes).after
        [.read p, .written] =
          ⟨.sending (sendPiece s p) none, storage, network, clock, { notes with
            summed := notes.summed ++ if s.wantChecksum then p else []
            moved := notes.moved ++ onWire s.mode s.afterCr p }⟩ := by
      rw [← writePiece_readPiece]
      rfl
    obtain ⟨later, wire, sent, moved, written⟩ := ih (m := ⟨.sending (sendPiece s p) none,
      storage, network, clock, { notes with
        summed := notes.summed ++ if s.wantChecksum then p else []
        moved := notes.moved ++ onWire s.mode s.afterCr p }⟩) rfl
    refine ⟨later, onWire s.mode s.afterCr p ++ wire, ?_, ?_, ?_⟩
    · rw [List.map_cons, List.flatten_cons, after_append, one]
      exact sent
    · rw [moved, List.append_assoc]
    · rw [List.foldl_cons, written, written_sendPiece, List.reverse_cons, List.flatten_append,
        List.flatten_singleton, List.append_assoc]

theorem after_arrives {r : Receiving} (h : m.stage = .receiving r) (ps : List (List UInt8)) :
    ∃ notes, m.after (ps.map fun p => [.arrives p]).flatten =
        { m with stage := .receiving (ps.foldl receivePiece r), notes } ∧
      notes.moved = m.notes.moved ++ ps.flatten := by
  induction ps generalizing m r with
  | nil =>
    refine ⟨m.notes, ?_, (List.append_nil _).symm⟩
    rw [List.foldl_nil, ← h]
    rfl
  | cons p ps ih =>
    obtain ⟨stage, storage, network, clock, notes⟩ := m
    cases h
    obtain ⟨later, kept, moved⟩ := ih (m := (Mover.mk (.receiving r) storage network clock
      notes).occurs (.arrives p)) (r := receivePiece r p) rfl
    refine ⟨later, ?_, ?_⟩
    · rw [List.map_cons, List.flatten_cons, after_append]
      exact kept
    · rw [moved, List.flatten_cons, ← List.append_assoc]
      rfl

/-- Who moves a file at once, and a mover over the same connection. -/
theorem after_course_send (m : Mover) {t t₁ : FileTransfer} (begun : t.begin = .ok t₁)
    (content : Except IoError (List UInt8)) (mode : TransferMode) (want : Bool)
    (arriving : List (List UInt8)) (breaks : Option Interruption) :
    let task := TransferTask.send content mode want
    let later := (m.join t₁ task).after (course arriving task breaks)
    let r := t.runSend mode want (content.map pieces) breaks m.clock
    later.stage = .done r.1 r.2.1 ∧ later.storage = m.storage ∧
      later.notes.moved = m.notes.moved ++ r.2.2 := by
  intro task later r
  cases content with
  | error e =>
    have ran : r = (t₁, .error (.io e), []) := by
      change t.runSend mode want (.error e) breaks m.clock = _
      rw [runSend, begun]
    obtain ⟨stage, storage, notes⟩ := after_of_done (m := m.join t₁ task) rfl
      (course arriving task breaks)
    rw [ran, List.append_nil]
    exact ⟨stage, storage, congrArg Notes.moved notes⟩
  | ok content =>
    cases breaks with
    | none =>
      let s := (pieces content).foldl sendPiece { transfer := t₁, mode, wantChecksum := want }
      have ran : r = ((s.transfer.complete m.clock).1, .ok (s.transfer.complete m.clock).2,
          s.written.reverse.flatten) := by
        change t.runSend mode want (.ok (pieces content)) none m.clock = _
        rw [runSend, begun]
      obtain ⟨notes, wire, sent, moved, written⟩ := after_sends (m := m.join t₁ task) rfl
        (pieces content)
      have all : later = after (after (m.join t₁ task) (steps arriving task).flatten)
        [.ends, .closed] := after_append _ _ _
      have sent : after (m.join t₁ task) (steps arriving task).flatten = _ := sent
      rw [all, sent, ran]
      exact ⟨rfl, rfl, moved.trans (congrArg (m.notes.moved ++ ·) written.symm)⟩
    | some i =>
      let s := ((pieces content).take i.after).foldl sendPiece
        { transfer := t₁, mode, wantChecksum := want }
      have ran : r = (s.transfer, .error i.error, s.written.reverse.flatten) := by
        change t.runSend mode want (.ok (pieces content)) (some i) m.clock = _
        rw [runSend, begun]
      obtain ⟨notes, wire, sent, moved, written⟩ := after_sends (m := m.join t₁ task) rfl
        ((pieces content).take i.after)
      rw [List.map_take] at sent
      have all : later = after (after (m.join t₁ task) ((steps arriving task).take i.after).flatten)
        [.fails i.error] := after_append _ _ _
      have sent : after (m.join t₁ task) ((steps arriving task).take i.after).flatten = _ := sent
      rw [all, sent, ran]
      exact ⟨rfl, rfl, moved.trans (congrArg (m.notes.moved ++ ·) written.symm)⟩

theorem after_course_receive (m : Mover) {t t₁ : FileTransfer} (begun : t.begin = .ok t₁)
    (location : Location) (mode : TransferMode) (arriving : List (List UInt8))
    (breaks : Option Interruption) :
    let task := TransferTask.receive location mode
    let later := (m.join t₁ task).after (course arriving task breaks)
    let r := t.runReceive m.storage location mode arriving breaks m.clock
    later.stage = .done r.1 r.2.2 ∧ later.storage = r.2.1 := by
  intro task later r
  cases breaks with
  | none =>
    let last := flushHeld (arriving.foldl receivePiece
      { transfer := t₁, storage := m.storage, location, mode })
    have ran : r = ((last.transfer.complete m.clock).1, last.storage,
        .ok (last.transfer.complete m.clock).2) := by
      change t.runReceive m.storage location mode arriving none m.clock = _
      rw [runReceive, begun]
    obtain ⟨notes, kept, -⟩ := after_arrives (m := m.join t₁ task) rfl arriving
    have all : later = after (after (m.join t₁ task) (steps arriving task).flatten)
      [.ends, .closed] := after_append _ _ _
    have kept : after (m.join t₁ task) (steps arriving task).flatten = _ := kept
    rw [all, kept, ran]
    exact ⟨rfl, rfl⟩
  | some i =>
    let last := (arriving.take i.after).foldl receivePiece
      { transfer := t₁, storage := m.storage, location, mode }
    have ran : r = (last.transfer, last.storage, .error i.error) := by
      change t.runReceive m.storage location mode arriving (some i) m.clock = _
      rw [runReceive, begun]
    obtain ⟨notes, kept, -⟩ := after_arrives (m := m.join t₁ task) rfl (arriving.take i.after)
    rw [List.map_take] at kept
    have all : later = after (after (m.join t₁ task) ((steps arriving task).take i.after).flatten)
      [.fails i.error] := after_append _ _ _
    have kept : after (m.join t₁ task) ((steps arriving task).take i.after).flatten = _ := kept
    rw [all, kept, ran]
    exact ⟨rfl, rfl⟩

def ofWorker (n : NodeWorker) (task : TransferTask) : Mover where
  stage := .connecting n.transfer task
  storage := n.storage
  network := n.network

/-- What the worker of a session does at once is what comes of a transfer that nobody disturbs. -/
theorem carryOut_eq (n : NodeWorker) (arriving : List (List UInt8)) (task : TransferTask) :
    let later := ((ofWorker n task).occurs .connected).after (course arriving task n.network.breaks)
    ∃ result, (n.carryOut arriving task).result = some result ∧
      later.stage = .done (n.carryOut arriving task).transfer result ∧
      later.storage = (n.carryOut arriving task).storage := by
  cases begun : n.transfer.begin with
  | error e =>
    have refused : (ofWorker n task).occurs .connected =
        { ofWorker n task with stage := .done n.transfer (.error e) } := by
      unfold occurs ofWorker
      dsimp only
      rw [begun]
    obtain ⟨stage, storage, -⟩ := after_of_done (m := { ofWorker n task with
      stage := .done n.transfer (.error e) }) rfl (course arriving task n.network.breaks)
    refine ⟨.error e, ?_⟩
    rw [refused, stage, storage]
    cases task with
    | send content mode want => simp [NodeWorker.carryOut, runSend, begun, ofWorker]
    | receive location mode => simp [NodeWorker.carryOut, runReceive, begun, ofWorker]
  | ok t₁ =>
    have joined : (ofWorker n task).occurs .connected = (ofWorker n task).join t₁ task := by
      unfold occurs ofWorker
      dsimp only
      rw [begun]
    dsimp only
    rw [joined]
    cases task with
    | send content mode want =>
      obtain ⟨stage, storage, -⟩ :=
        after_course_send (ofWorker n _) begun content mode want arriving n.network.breaks
      exact ⟨_, rfl, stage, storage⟩
    | receive location mode =>
      obtain ⟨stage, storage⟩ :=
        after_course_receive (ofWorker n _) begun location mode arriving n.network.breaks
      exact ⟨_, rfl, stage, storage⟩

end Mover
end Archivist
