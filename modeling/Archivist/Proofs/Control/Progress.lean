import Archivist.Proofs.Control.Acts
import Archivist.Proofs.Control.Mover
import Archivist.Proofs.Transfer.Reception
import Archivist.Proofs.Transfer.Wording
set_option autoImplicit false

namespace Archivist

open FileTransfer

/-- The notes are right about a transfer. -/
structure Notes.Tell (n : Notes) (t : FileTransfer) : Prop where
  count : t.transferred = UInt64.ofNat n.moved.length
  sum : t.checksum = Checksum.crc32 n.summed
  finished : t.finishedAfter.isSome = true ↔ n.completed ≠ []
  fresh : t.started = false → n = {}

namespace Mover

/-- A transfer that moves bytes has started, and its register is that of the bytes so far. -/
def Moves (summed : List UInt8) : Stage → Prop
  | .idle _ | .connecting _ _ | .done _ _ => True
  | .closing t => t.started = true
  | .sending s _ => s.transfer.started = true ∧
      (s.wantChecksum = true → s.register = Checksum.update Checksum.start summed)
  | .receiving r => r.transfer.started = true ∧
      r.register = Checksum.update Checksum.start summed

structure Right (m : Mover) : Prop where
  tell : m.notes.Tell m.stage.transfer
  moves : Moves m.notes.summed m.stage

def fresh (connection : DataConnection) (storage : Storage) (network : Network) : Mover where
  stage := .idle { connection }
  storage := storage
  network := network

theorem right_fresh (connection : DataConnection) (storage : Storage) (network : Network) :
    Right (fresh connection storage network) where
  tell := ⟨rfl, (by decide : 0 = Checksum.crc32 []), ⟨fun h => (by cases h), fun h => absurd rfl h⟩,
    fun _ => rfl⟩
  moves := trivial

variable {m : Mover}

theorem tell_of_started {n : Notes} {t : FileTransfer} (started : t.started = true)
    (count : t.transferred = UInt64.ofNat n.moved.length)
    (sum : t.checksum = Checksum.crc32 n.summed)
    (finished : t.finishedAfter.isSome = true ↔ n.completed ≠ []) : n.Tell t :=
  ⟨count, sum, finished, fun idle => absurd (started.symm.trans idle) Bool.noConfusion⟩

theorem count_append {count : UInt64} {moved : List UInt8}
    (h : count = UInt64.ofNat moved.length) (more : List UInt8) :
    count + UInt64.ofNat more.length = UInt64.ofNat (moved ++ more).length := by
  rw [h, List.length_append, UInt64.ofNat_add]

theorem Right.connected (h : m.Right) : (m.occurs .connected).Right := by
  obtain ⟨stage, storage, network, clock, notes⟩ := m
  cases stage with
  | connecting t task =>
    have tell : notes.Tell t := h.tell
    unfold occurs
    dsimp only
    cases begun : t.begin with
    | error e => exact ⟨tell, trivial⟩
    | ok t₁ =>
      have unused : t.started = false := (begin_isOk.1 ⟨t₁, begun⟩).2
      obtain rfl := begin_eq_ok begun
      have started : notes.Tell { t with started := true } :=
        tell_of_started rfl tell.count tell.sum tell.finished
      -- Nothing was summed before, so a new register is that of the bytes so far.
      rw [tell.fresh unused] at started ⊢
      rcases task with ⟨_ | _, mode, want⟩ | ⟨location, mode⟩
      · exact ⟨started, trivial⟩
      · exact ⟨started, rfl, fun _ => rfl⟩
      · exact ⟨started, rfl, rfl⟩
  | _ => exact h

theorem Right.read (h : m.Right) (piece : List UInt8) : (m.occurs (.read piece)).Right := by
  obtain ⟨stage, storage, network, clock, notes⟩ := m
  cases stage with
  | sending s waiting =>
    cases waiting with
    | some _ => exact h
    | none =>
      obtain ⟨transfer, mode, want, afterCr, register, written⟩ := s
      have tell : notes.Tell transfer := h.tell
      obtain ⟨started, summed⟩ := h.moves
      cases want with
      | false =>
        have same : notes.summed ++ (if false = true then piece else []) = notes.summed :=
          List.append_nil _
        refine ⟨tell_of_started started tell.count ?_ tell.finished, started, fun yes => ?_⟩
        · change transfer.checksum = Checksum.crc32 (notes.summed ++ _)
          rw [same]
          exact tell.sum
        · cases yes
      | true =>
        have hregister : Checksum.update register piece =
            Checksum.update Checksum.start (notes.summed ++ piece) := by
          have before : register = Checksum.update Checksum.start notes.summed := summed rfl
          rw [Checksum.update_append, ← before]
        exact ⟨tell_of_started started tell.count (congrArg Checksum.sum hregister) tell.finished,
          started, fun _ => hregister⟩
  | _ => exact h

theorem Right.written (h : m.Right) : (m.occurs .written).Right := by
  obtain ⟨stage, storage, network, clock, notes⟩ := m
  cases stage with
  | sending s waiting =>
    cases waiting with
    | none => exact h
    | some piece =>
      have tell : notes.Tell s.transfer := h.tell
      obtain ⟨started, summed⟩ := h.moves
      exact ⟨tell_of_started started (count_append tell.count _) tell.sum tell.finished, started,
        summed⟩
  | _ => exact h

theorem Right.arrives (h : m.Right) (piece : List UInt8) : (m.occurs (.arrives piece)).Right := by
  obtain ⟨stage, storage, network, clock, notes⟩ := m
  cases stage with
  | receiving r =>
    obtain ⟨transfer, store, location, mode, held, register⟩ := r
    have tell : notes.Tell transfer := h.tell
    obtain ⟨started, summed⟩ := h.moves
    have hregister : Checksum.update register (offWire mode held piece) =
        Checksum.update Checksum.start (notes.summed ++ offWire mode held piece) := by
      have before : register = Checksum.update Checksum.start notes.summed := summed
      rw [Checksum.update_append, ← before]
    have count := count_append tell.count piece
    have sum := congrArg Checksum.sum hregister
    cases mode <;> exact ⟨tell_of_started started count sum tell.finished, started, hregister⟩
  | _ => exact h

theorem Right.ends (h : m.Right) : (m.occurs .ends).Right := by
  obtain ⟨stage, storage, network, clock, notes⟩ := m
  cases stage with
  | sending s piece =>
    cases piece with
    | none => exact ⟨h.tell, h.moves.1⟩
    | some piece => exact h
  | receiving r =>
    have tell : notes.Tell r.transfer := h.tell
    obtain ⟨started, summed⟩ := h.moves
    by_cases back : r.mode = .ascii ∧ r.held = true
    · have flushed : flushHeld r = { keep r (LineEnding.flush true) with held := false } :=
        if_pos back
      have bytes : heldBack r = LineEnding.flush true := if_pos back
      have register : Checksum.update r.register (LineEnding.flush true) =
          Checksum.update Checksum.start (notes.summed ++ LineEnding.flush true) := by
        rw [Checksum.update_append, ← summed]
      unfold occurs
      dsimp only
      rw [flushed, bytes]
      exact ⟨tell_of_started started tell.count (congrArg Checksum.sum register) tell.finished,
        started⟩
    · have flushed : flushHeld r = r := if_neg back
      have bytes : heldBack r = [] := if_neg back
      unfold occurs
      dsimp only
      rw [flushed, bytes, List.append_nil]
      exact ⟨tell, started⟩
  | _ => exact h

theorem Right.closed (h : m.Right) : (m.occurs .closed).Right := by
  obtain ⟨stage, storage, network, clock, notes⟩ := m
  cases stage with
  | closing t =>
    have tell : notes.Tell t := h.tell
    refine ⟨tell_of_started h.moves tell.count tell.sum ?_, trivial⟩
    exact iff_of_true rfl (List.append_ne_nil_of_right_ne_nil _ (List.cons_ne_nil _ _))
  | _ => exact h

theorem Right.fails (h : m.Right) (e : TransferError) : (m.occurs (.fails e)).Right := by
  obtain ⟨stage, storage, network, clock, notes⟩ := m
  cases stage with
  | idle t => exact h
  | done t result => exact h
  | _ => exact ⟨h.tell, trivial⟩

theorem Right.occurs (h : m.Right) (event : Event) : (m.occurs event).Right := by
  cases event with
  | tick elapsed => exact ⟨h.tell, h.moves⟩
  | connected => exact h.connected
  | read piece => exact h.read piece
  | written => exact h.written
  | arrives piece => exact h.arrives piece
  | ends => exact h.ends
  | closed => exact h.closed
  | fails e => exact h.fails e

theorem Right.abort (h : m.Right) : m.abort.Right := by
  obtain ⟨stage, storage, network, clock, notes⟩ := m
  have tell : notes.Tell stage.abort.transfer := by
    rw [Stage.transfer_abort]
    exact ⟨h.tell.count, h.tell.sum, h.tell.finished, h.tell.fresh⟩
  have moves := h.moves
  cases stage <;> exact ⟨tell, moves⟩

theorem Right.connect (h : m.Right) (task : TransferTask) : (m.connect task).Right := by
  unfold Mover.connect
  have used : m.notes.Tell (m.stage.transfer.attempt m.network).1 :=
    ⟨h.tell.count, h.tell.sum, h.tell.finished, h.tell.fresh⟩
  generalize m.stage.transfer.attempt m.network = out at used
  obtain ⟨t, _ | _ | _⟩ := out <;> exact ⟨used, trivial⟩

theorem Right.start (h : m.Right) (request : Request) : (m.start request).Right := by
  cases request with
  | sendFile path mode resume want =>
    unfold Mover.start
    dsimp only
    split
    · exact ⟨h.tell, trivial⟩
    · exact h.connect _
  | receiveFile directory mode filename offset =>
    unfold Mover.start
    dsimp only
    split
    · exact ⟨h.tell, trivial⟩
    · rename_i storage task _
      have ready : Right { m with storage } := ⟨h.tell, h.moves⟩
      exact ready.connect task
  | _ => exact h

theorem Right.poll (h : m.Right) : m.poll.2.Right := by
  unfold Mover.poll
  split
  · rename_i t result stage
    have tell := h.tell
    rw [stage] at tell
    exact ⟨tell, trivial⟩
  · exact h

theorem kept_right : Station.Kept worker Mover.occurs Right where
  start _ request h := h.start request
  abort _ _ h := h.abort
  occurs _ event h := h.occurs event
  poll _ h := h.poll
  expire _ h := h.poll

def status (m : Mover) : TransferStatus := m.stage.transfer.status m.clock

end Mover

theorem Server.handle_status {σ : Type} (w : Worker σ) (s : Server σ) (id : UInt64) :
    s.handle w (.received ⟨id, .status⟩) =
      (s, [⟨id, .status { (w.view s.worker).progress with finished := false }⟩]) := by
  have framed (told : TransferStatus) : Wire.frame (Wire.putResponseFrame ⟨id, .status told⟩) = _ :=
    Wire.Kind.frame_of_fits (Response.fits_status id told)
  unfold handle react
  dsimp only [obey]
  rw [framed]

/-- Whatever the requests and whatever befalls the transfers of a session: the transfer's own state
has the count of the bytes that were moved and the checksum of those that were summed, and calls
itself finished exactly if a transfer of the session is complete.  Who asks the node for this state
gets it at once, and nothing else changes, but it is never called finished.  So what is told agrees
with the state as long as no transfer is complete, and not any more from then on. -/
theorem take_status_written (connection : DataConnection)
    (storage : Storage) (network : Network) (stream : List UInt8)
    (acts : List (Station.Act Mover.Event)) :
    let s := (Station.start (Mover.fresh connection storage network) stream).act Mover.worker
      Mover.occurs acts
    let notes := s.server.worker.notes
    let now := s.server.worker.status
    let told := { now with finished := false }
    now.transferred = UInt64.ofNat notes.moved.length ∧
    now.checksum = Checksum.crc32 notes.summed ∧
    (now.finished = true ↔ notes.completed ≠ []) ∧
    (∀ f queue, s.queue = f :: queue → f.request = .status →
      s.take Mover.worker = { s with
        queue, taken := s.taken ++ [f]
        written := s.written ++ [(s.taken.length, ⟨f.id, .status told⟩)] }) ∧
    (told = now ↔ notes.completed = []) := by
  intro s notes now told
  have right : s.server.worker.Right :=
    Mover.kept_right.act (Mover.right_fresh connection storage network) acts
  have finished : now.finished = true ↔ notes.completed ≠ [] := right.tell.finished
  refine ⟨right.tell.count, right.tell.sum, finished, ?_, ?_⟩
  · rintro ⟨id, request⟩ queue next rfl
    unfold Station.take
    rw [next]
    dsimp only
    rw [Server.handle_status]
    rfl
  · rw [← not_iff_not, ← ne_eq notes.completed, ← finished]
    constructor
    · intro differs
      by_contra running
      refine differs ?_
      have running : now.finished = false := Bool.eq_false_iff.2 running
      change { now with finished := false } = now
      rw [← running]
    · intro complete same
      rw [← same] at complete
      cases complete

def receivedAndAsked : List UInt8 :=
  let frames : List RequestFrame := [⟨7, .receiveFile "d" .binary "f" 0⟩, ⟨8, .status⟩]
  (frames.map fun f => ((Wire.frame (Wire.putRequestFrame f)).toOption).getD []).flatten

def receivedAll : List (Station.Act Mover.Event) :=
  [.read, .pass, .take, .befalls .connected, .befalls (.arrives [1, 2, 3]), .befalls .ends,
    .befalls .closed, .poll, .read, .pass]

def listener : DataConnection := .passive ⟨.localhost, 7100, {}, true, false⟩

theorem take_status_receivedAll :
    let s := (Station.start (Mover.fresh listener .empty { reach := .loopback })
      receivedAndAsked).act Mover.worker Mover.occurs receivedAll
    let whole : TransferStatus := ⟨0, 3, Checksum.crc32 [1, 2, 3], true⟩
    s.server.worker.status = whole ∧
      (s.take Mover.worker).written =
        [(0, ⟨7, .status whole⟩), (1, ⟨8, .status { whole with finished := false }⟩)] := by
  intro s whole
  obtain ⟨-, -, -, asked, -⟩ := take_status_written listener .empty
    { reach := .loopback } receivedAndAsked receivedAll
  have next : s.queue = [⟨8, .status⟩] := by decide +kernel
  have now : s.server.worker.status = whole := by decide +kernel
  have before : s.written = [(0, ⟨7, .status whole⟩)] := by decide +kernel
  have place : s.taken.length = 1 := by decide +kernel
  have told := congrArg Station.written (asked _ _ next rfl)
  refine ⟨now, told.trans ?_⟩
  change s.written ++
    [(s.taken.length, ⟨8, .status { s.server.worker.status with finished := false }⟩)] = _
  rw [now, before, place]
  rfl

end Archivist
