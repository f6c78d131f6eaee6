import Archivist.Proofs.Copy.Serving
import Archivist.Proofs.Wire.Streams
set_option autoImplicit false

/-!
# A node at its control stream

A `Station` is the node's end of a control stream with all that happens at once: one side reads
requests and passes them on through a queue of limited length, the other takes them up, and the
transfer that is running goes on and ends whenever it likes.  A schedule is a list of their moves in
any order; a move that is not possible changes nothing.

The station notes the requests it has taken up, each of them has its place among these, and every
answer is noted with the place of its request.
-/

namespace Archivist

def Station.capacity : Nat := 16

structure Station (σ : Type) where
  server : Server σ
  unread : List UInt8
  /-- A request that was read and is not in the queue yet. -/
  hand : Option RequestFrame := none
  queue : List RequestFrame := []
  /-- How the stream has ended, once it has. -/
  readTo : Option (Option TransferError) := none
  taken : List RequestFrame := []
  /-- The places of the transfers that were started. -/
  begun : List Nat := []
  written : List (Nat × ResponseFrame) := []
  closed : Bool := false

inductive Move (σ : Type) where
  | read
  | pass
  | take
  /-- The worker does something of its own accord. -/
  | work (change : σ → σ)
  /-- The transfer that is running is looked after. -/
  | settle (look : σ → Option (Except TransferError TransferStatus) × σ)
  | close

/-- Whether the node makes the move without waiting for the transfer. -/
def Move.Own {σ : Type} : Move σ → Prop
  | .work _ | .settle _ => False
  | .read | .pass | .take | .close => True

namespace Server

variable {σ : Type}

def starts (s : Server σ) (f : RequestFrame) : Bool :=
  match f.request with
  | .sendFile .. | .receiveFile .. => s.running.isNone
  | _ => false

theorem moves_of_starts {s : Server σ} {f : RequestFrame} (h : s.starts f = true) :
    Moves f.request := by
  unfold starts at h
  split at h
  · rename_i eq
    rw [eq]
    trivial
  · rename_i eq
    rw [eq]
    trivial
  · cases h

theorem starts_of_idle {s : Server σ} {f : RequestFrame} (moves : Moves f.request)
    (idle : s.running = none) : s.starts f = true := by
  unfold starts
  rw [idle]
  cases request : f.request with
  | sendFile | receiveFile => rfl
  | _ =>
    rw [request] at moves
    cases moves

theorem not_starts_of_busy {s : Server σ} (f : RequestFrame) {other : UInt64}
    (running : s.running = some other) : s.starts f = false := by
  unfold starts
  rw [running]
  split <;> rfl

/-- What a server can make of a request: it starts a transfer and answers nothing yet, or it answers
and starts nothing, or it cannot write its answer. -/
inductive Hears (w : Worker σ) (s : Server σ) (f : RequestFrame) :
    Server σ × List ResponseFrame → Prop where
  | started (starts : s.starts f = true) (idle : s.running = none) :
      Hears w s f ({ s with running := some f.id, worker := w.start s.worker f.request }, [])
  | answered (response : Response) (worker : σ) (still : s.starts f = false)
      (refused : Moves f.request → ∃ other, s.running = some other ∧ response = busy other ∧
        worker = s.worker) :
      Hears w s f ({ s with worker }, [⟨f.id, response⟩])
  | broken (later : Server σ) (ended : later.ended.isSome = true) : Hears w s f (later, [])

theorem hears_reply {w : Worker σ} {s : Server σ} {f : RequestFrame} {response : Response}
    {order : Option WorkerOrder} (still : s.starts f = false)
    (refused : Moves f.request → ∃ other, s.running = some other ∧ response = busy other ∧
      obey w s.worker order = s.worker)
    (reacted : react s.running (w.view s.worker) (.received f) =
      { running := s.running, reply := some ⟨f.id, response⟩, order }) :
    Hears w s f (s.handle w (.received f)) := by
  unfold handle
  rw [reacted]
  dsimp only
  split
  · exact .answered response _ still refused
  · exact .broken _ rfl

theorem react_of_busy {running : Option UInt64} {other : UInt64} (hbusy : running = some other)
    (view : WorkerView) {f : RequestFrame} (moves : Moves f.request) :
    react running view (.received f) = { running, reply := some ⟨f.id, busy other⟩ } := by
  obtain ⟨id, request⟩ := f
  unfold react
  rw [hbusy]
  cases request with
  | sendFile path mode resume want => rfl
  | receiveFile directory mode filename offset => rfl
  | _ => cases moves

theorem handle_of_busy (w : Worker σ) {s : Server σ} {f : RequestFrame} {other : UInt64}
    (running : s.running = some other) (moves : Moves f.request) :
    s.handle w (.received f) = (s, [⟨f.id, busy other⟩]) ∨
      (s.handle w (.received f)).1.ended.isSome = true := by
  unfold handle
  rw [react_of_busy running _ moves]
  dsimp only [obey]
  split
  · exact .inl rfl
  · exact .inr rfl

theorem hears_of_moves (w : Worker σ) (s : Server σ) {f : RequestFrame} (moves : Moves f.request) :
    Hears w s f (s.handle w (.received f)) := by
  cases running : s.running with
  | none =>
    rw [handle_of_moves moves running]
    exact .started (starts_of_idle moves running) running
  | some other =>
    have reacted := react_of_busy running (w.view s.worker) moves
    exact hears_reply (not_starts_of_busy f running) (fun _ => ⟨other, running, rfl, rfl⟩) reacted

theorem hears (w : Worker σ) (s : Server σ) (f : RequestFrame) :
    Hears w s f (s.handle w (.received f)) := by
  obtain ⟨id, request⟩ := f
  cases request with
  | sendFile path mode resume want => exact hears_of_moves w s trivial
  | receiveFile directory mode filename offset => exact hears_of_moves w s trivial
  | abort reason => exact hears_reply rfl (fun moves => by cases moves) rfl
  | status => exact hears_reply rfl (fun moves => by cases moves) rfl
  | localPort => exact hears_reply rfl (fun moves => by cases moves) rfl
  | openChannel channel => exact hears_reply rfl (fun moves => by cases moves) rfl

/-- What can come of looking after the work in hand. -/
inductive Settles (s : Server σ) : Server σ × List ResponseFrame → Prop where
  | goesOn (worker : σ) : Settles s ({ s with worker }, [])
  | ends (id : UInt64) (result : Except TransferError TransferStatus) (worker : σ)
      (running : s.running = some id) :
      Settles s ({ s with worker, running := none }, [⟨id, .ofResult result⟩])
  | broken (later : Server σ) (ended : later.ended.isSome = true) : Settles s (later, [])

theorem settles (w : Worker σ) (s : Server σ)
    (look : σ → Option (Except TransferError TransferStatus) × σ) :
    Settles s (s.settle w look) := by
  unfold settle
  split
  · exact .goesOn s.worker
  · rename_i stands
    split
    · exact .goesOn _
    · rename_i result worker _
      cases running : s.running with
      | none => simp [running] at stands
      | some id =>
        unfold handle react
        dsimp only
        split
        · exact .ends id result worker running
        · exact .broken _ rfl

end Server

namespace Station

variable {σ : Type}

def start (worker : σ) (stream : List UInt8) : Station σ :=
  { server := { worker }, unread := stream }

def read (s : Station σ) : Station σ :=
  match s.hand, s.readTo with
  | none, none =>
    match Wire.readFrame Wire.getRequestFrame s.unread with
    | (.ok (some f), rest) => { s with hand := some f, unread := rest }
    | (.ok none, rest) => { s with readTo := some none, unread := rest }
    | (.error e, rest) => { s with readTo := some (some e), unread := rest }
  | _, _ => s

def pass (s : Station σ) : Station σ :=
  match s.hand with
  | some f =>
    if s.queue.length < capacity then { s with hand := none, queue := s.queue ++ [f] } else s
  | none => s

def take (w : Worker σ) (s : Station σ) : Station σ :=
  match s.queue with
  | [] => s
  | f :: queue =>
    let (server, replies) := s.server.handle w (.received f)
    { s with
      server, queue
      taken := s.taken ++ [f]
      begun := if s.server.starts f then s.begun ++ [s.taken.length] else s.begun
      written := s.written ++ replies.map fun r => (s.taken.length, r) }

def settle (w : Worker σ) (s : Station σ)
    (look : σ → Option (Except TransferError TransferStatus) × σ) : Station σ :=
  let (server, replies) := s.server.settle w look
  { s with server, written := s.written ++ replies.map fun r => (s.begun.getLastD 0, r) }

/-- When the reader is done and the queue is empty the other side gives up. -/
def close (w : Worker σ) (s : Station σ) : Station σ :=
  match s.hand, s.queue, s.readTo with
  | none, [], some e => { s with server := s.server.hangUp w e, closed := true }
  | _, _, _ => s

def step (w : Worker σ) (s : Station σ) (m : Move σ) : Station σ :=
  if s.server.ended.isSome then s
  else
    match m with
    | .read => s.read
    | .pass => s.pass
    | .take => s.take w
    | .work change => { s with server := { s.server with worker := change s.server.worker } }
    | .settle look => s.settle w look
    | .close => s.close w

def run (w : Worker σ) (s : Station σ) (ms : List (Move σ)) : Station σ := ms.foldl (step w) s

/-- An answer could not be written, and so the stream was given up before its end. -/
def Broken (s : Station σ) : Prop := s.server.ended.isSome = true ∧ s.closed = false

/-- The place of the transfer that is running. -/
def current (s : Station σ) : List Nat :=
  if s.server.running.isSome then [s.begun.getLastD 0] else []

def answered (s : Station σ) : List Nat := s.written.map (·.1)

theorem run_append (w : Worker σ) (s : Station σ) (ms ns : List (Move σ)) :
    s.run w (ms ++ ns) = (s.run w ms).run w ns := List.foldl_append

end Station
end Archivist
