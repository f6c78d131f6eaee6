import Archivist.Wire.Frame
set_option autoImplicit false

/-!
# The node's end of a control stream

`react` is the whole rule: what a node answers to a request, when it takes up a transfer, when it
refuses one as busy, and what it does when the peer hangs up.  It is a step on the number of the
running transfer alone, so it can be put under any order of requests and completions.  A `Worker`
does the moving of bytes, and `Server` joins both.
-/

namespace Archivist

inductive ServerEvent where
  | received (f : RequestFrame)
  | completed (result : Except TransferError TransferStatus)
  | hungUp

inductive WorkerOrder where
  | start (request : Request)
  | abort (reason : String)
deriving DecidableEq

structure WorkerView where
  progress : TransferStatus
  localPort : Option UInt16

structure Reaction where
  /-- The number of the request that is being worked on from now on. -/
  running : Option UInt64
  reply : Option ResponseFrame := none
  order : Option WorkerOrder := none

namespace Server

def hangUpReason : String := "control stream closed"

def busy (id : UInt64) : Response := .error .busy s!"request {id.toNat} is still transferring"

def alreadyOpen : Response := .error .other "data channel already open"

def react (running : Option UInt64) (view : WorkerView) : ServerEvent → Reaction
  | .received ⟨id, request⟩ =>
    match request with
    | .abort reason =>
      { running, reply := some ⟨id, .aborted⟩, order := some (.abort reason) }
    | .status => { running, reply := some ⟨id, .status { view.progress with finished := false }⟩ }
    | .localPort => { running, reply := some ⟨id, .localPort view.localPort⟩ }
    | .openChannel _ => { running, reply := some ⟨id, alreadyOpen⟩ }
    | .sendFile _ _ _ _ | .receiveFile _ _ _ _ =>
      match running with
      | some other => { running, reply := some ⟨id, busy other⟩ }
      | none => { running := some id, order := some (.start request) }
  | .completed result =>
    match running with
    | some id => { running := none, reply := some ⟨id, .ofResult result⟩ }
    | none => { running }
  | .hungUp =>
    match running with
    | some _ => { running, order := some (.abort hangUpReason) }
    | none => { running }

end Server

/-- Whoever moves the bytes for a control stream. -/
structure Worker (σ : Type) where
  start : σ → Request → σ
  abort : σ → String → σ
  view : σ → WorkerView
  /-- The result of the work in hand, if it is there. -/
  poll : σ → Option (Except TransferError TransferStatus) × σ
  /-- The result of the work in hand once its time limit has passed. -/
  expire : σ → Option (Except TransferError TransferStatus) × σ

structure Server (σ : Type) where
  worker : σ
  running : Option UInt64 := none
  /-- How the end has come, once it has. -/
  ended : Option (Except TransferError Unit) := none

namespace Server

variable {σ : Type}

def obey (w : Worker σ) (s : σ) : Option WorkerOrder → σ
  | none => s
  | some (.start request) => w.start s request
  | some (.abort reason) => w.abort s reason

/-- Handles an event; an answer that is too long for a message ends the stream. -/
def handle (w : Worker σ) (s : Server σ) (event : ServerEvent) : Server σ × List ResponseFrame :=
  let r := react s.running (w.view s.worker) event
  let s := { s with running := r.running, worker := obey w s.worker r.order }
  match r.reply with
  | none => (s, [])
  | some reply =>
    match Wire.frame (Wire.putResponseFrame reply) with
    | .ok _ => (s, [reply])
    | .error e => ({ s with ended := some (.error e) }, [])

def settle (w : Worker σ)
    (look : σ → Option (Except TransferError TransferStatus) × σ) (s : Server σ) :
    Server σ × List ResponseFrame :=
  if s.running.isNone || s.ended.isSome then (s, [])
  else
    match look s.worker with
    | (none, worker) => ({ s with worker }, [])
    | (some result, worker) => handle w { s with worker } (.completed result)

def receive (w : Worker σ) (s : Server σ) (f : RequestFrame) : Server σ × List ResponseFrame :=
  if s.ended.isSome then (s, [])
  else
    let (s, replies) := handle w s (.received f)
    let (s, more) := settle w w.poll s
    (s, replies ++ more)

def hangUp (w : Worker σ) (s : Server σ) (e : Option TransferError) : Server σ :=
  if s.ended.isSome then s
  else
    let (s, _) := handle w s .hungUp
    { s with ended := some (match e with
      | some e => .error e
      | none => .ok ()) }

def serve (w : Worker σ) (s : Server σ) (requests : List RequestFrame)
    (ending : Option TransferError) : Server σ × List ResponseFrame :=
  let (s, replies) := requests.foldl (fun (s, acc) f =>
    let (s, replies) := receive w s f
    (s, acc ++ replies)) (s, [])
  (hangUp w s ending, replies)

end Server
end Archivist
