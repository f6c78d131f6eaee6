import Archivist.Archive.RemoteCopy
import Archivist.Proofs.Copy.Answers
import Archivist.Proofs.Copy.Workers
import Archivist.Proofs.Wire.RoundTrip
set_option autoImplicit false

/-!
# What a node answers to a transfer

A server that takes up a transfer answers it with the result of its worker and with nothing else,
at once if the worker is done and later if it has to wait.  On a stream that breaks the node answers
nothing any more.
-/

namespace Archivist

namespace Server

variable {σ : Type} {w : Worker σ} {s : Server σ} {id : UInt64}

def Silent (s : Server σ) : Prop := s.running = none ∨ s.ended.isSome = true

variable {look : σ → Option (Except TransferError TransferStatus) × σ}

theorem settle_of_silent (h : s.Silent) : s.settle w look = (s, []) := by
  rw [settle, if_pos]
  rcases h with idle | ended
  · simp [idle]
  · simp [ended]

theorem settle_of_none (running : s.running = some id) (stands : s.ended = none) {worker : σ}
    (looked : look s.worker = (none, worker)) : s.settle w look = ({ s with worker }, []) := by
  rw [settle, if_neg (by simp [running, stands]), looked]

theorem settle_of_some (running : s.running = some id) (stands : s.ended = none)
    {r : Except TransferError TransferStatus} {worker : σ}
    (looked : look s.worker = (some r, worker)) :
    (s.settle w look).1.Silent ∧ (s.settle w look).1.worker = worker ∧
      ∀ reply ∈ (s.settle w look).2, reply = ⟨id, .ofResult r⟩ := by
  rw [settle, if_neg (by simp [running, stands]), looked]
  dsimp only
  unfold handle react
  rw [running]
  dsimp only
  split
  · refine ⟨.inl rfl, rfl, ?_⟩
    intro reply mem
    exact List.mem_singleton.1 mem
  · refine ⟨.inr rfl, rfl, ?_⟩
    intro reply mem
    cases mem

def Moves : Request → Prop
  | .sendFile .. | .receiveFile .. => True
  | _ => False

theorem handle_of_moves {f : RequestFrame} (moves : Moves f.request) (idle : s.running = none) :
    s.handle w (.received f) =
      ({ s with running := some f.id, worker := w.start s.worker f.request }, []) := by
  obtain ⟨id, request⟩ := f
  unfold handle react
  rw [idle]
  cases request with
  | sendFile path mode resume want => rfl
  | receiveFile directory mode filename offset => rfl
  | _ => cases moves

theorem receive_of_moves (idle : s.running = none) (stands : s.ended = none) {request : Request}
    (moves : Moves request) :
    s.receive w ⟨id, request⟩ =
      settle w w.poll { s with running := some id, worker := w.start s.worker request } := by
  rw [receive, if_neg (by simp [stands]), handle_of_moves moves idle]
  dsimp only
  rw [List.nil_append]

section NodeServer

variable {s : NodeWorker} {request : Request}

theorem receive_of_done (moves : Moves request) {r : Except TransferError TransferStatus}
    (done : (s.start request).result = some r) :
    ∃ later replies,
      Server.receive NodeWorker.worker { worker := s } ⟨id, request⟩ = (later, replies) ∧
      later.Silent ∧ later.worker = { s.start request with result := none } ∧
      ∀ reply ∈ replies, reply = ⟨id, .ofResult r⟩ := by
  have polled := NodeWorker.poll_eq (s.start request)
  rw [done] at polled
  have settled := settle_of_some (w := NodeWorker.worker)
    (s := { worker := s.start request, running := some id }) rfl rfl polled
  rw [receive_of_moves rfl rfl moves]
  exact ⟨_, _, rfl, settled⟩

theorem receive_of_waiting (id : UInt64) (moves : Moves request)
    (waits : (s.start request).result = none) :
    Server.receive NodeWorker.worker { worker := s } ⟨id, request⟩ =
      ({ worker := { s.start request with result := none }, running := some id }, []) := by
  have polled := NodeWorker.poll_eq (s.start request)
  rw [waits] at polled
  rw [receive_of_moves rfl rfl moves]
  exact settle_of_none (s := { worker := s.start request, running := some id }) rfl rfl polled

end NodeServer
end Server

namespace HostSession

variable {service : NodeService} {s : Session} {ds : List Delivery}

theorem speaks_of_broken : peer.speaks (.node service s [.broken]) = false := by
  simp [peer, next]

theorem hear_cases (service : NodeService) (s : Session) (ds : List Delivery) {f : RequestFrame}
    {bytes : List UInt8}
    (framed : Wire.frame (Wire.putRequestFrame f) = .ok bytes) :
    peer.hear (.node service s ds) bytes =
        (.node service (s.receive service ⟨f.id, f.request.zoneless⟩).1 ds.tail,
          (s.receive service ⟨f.id, f.request.zoneless⟩).2) ∨
      ∃ s', peer.hear (.node service s ds) bytes = (.node service s' [.broken], []) := by
  have heard : (Session.peer service).hear s bytes =
      s.receive service ⟨f.id, f.request.zoneless⟩ := by
    change hearFrame (Session.receive service) s bytes = _
    rw [hearFrame, Wire.readFrame_of_frame framed]
  change hear (.node service s ds) bytes = _ ∨ ∃ s', hear (.node service s ds) bytes = _
  rw [hear, heard]
  cases next ds with
  | answered => exact .inl rfl
  | unanswered => exact .inr ⟨_, rfl⟩
  | lost => exact .inr ⟨_, rfl⟩
  | broken => exact .inr ⟨_, rfl⟩

theorem goOn_cases (service : NodeService) (s : Session) (ds : List Delivery) :
    peer.goOn (.node service s ds) =
        (.node service ((Session.peer service).goOn s).1 ds.tail,
          ((Session.peer service).goOn s).2) ∨
      (peer.goOn (.node service s ds)).2 = [] := by
  change goOn (.node service s ds) = _ ∨ (goOn (.node service s ds)).2 = []
  rw [goOn]
  cases next ds with
  | answered => exact .inl rfl
  | unanswered => exact .inr rfl
  | lost => exact .inr rfl
  | broken => exact .inr rfl

variable {server : Server NodeWorker} {id : UInt64}

theorem goOn_of_silent (h : server.Silent) :
    (peer.goOn (.node service (.serving server) ds)).2 = [] := by
  have still : (Session.peer service).goOn (.serving server) = (.serving server, []) := by
    simp only [Session.peer, Session.settle, Session.expire, Server.settle_of_silent h]
  rcases goOn_cases service (.serving server) ds with on | silence
  · rw [on, still]
  · exact silence

theorem goOn_of_done (running : server.running = some id) (stands : server.ended = none)
    {r : Except TransferError TransferStatus} (done : server.worker.result = some r)
    {reply : ResponseFrame}
    (mem : reply ∈ (peer.goOn (.node service (.serving server) ds)).2) :
    reply = ⟨id, .ofResult r⟩ ∧
      (peer.goOn (.node service (.serving server) ds)).1.storage? =
        some server.worker.storage := by
  have polled := NodeWorker.poll_eq server.worker
  rw [done] at polled
  obtain ⟨silent, kept, answers⟩ :=
    Server.settle_of_some (w := NodeWorker.worker) running stands polled
  have settled : (Session.peer service).goOn (.serving server) =
      (.serving (server.settle NodeWorker.worker NodeWorker.worker.poll).1,
        (server.settle NodeWorker.worker NodeWorker.worker.poll).2) := by
    unfold Session.peer
    dsimp only
    rw [Session.settle]
    generalize server.settle NodeWorker.worker NodeWorker.worker.poll = out at silent
    obtain ⟨later, replies⟩ := out
    cases replies with
    | cons reply rest => rfl
    | nil => simp only [Session.expire, Server.settle_of_silent silent]
  rcases goOn_cases service (.serving server) ds with on | silence
  · rw [on, settled] at mem ⊢
    refine ⟨answers reply mem, ?_⟩
    have storage := congrArg NodeWorker.storage kept
    exact congrArg some storage
  · rw [silence] at mem
    cases mem

end HostSession

/-- A request that a node got through an unbroken stream, or one behind which the stream broke. -/
theorem Conversation.begin_node {c c' : Conversation HostSession} {service : NodeService}
    {s : Session} {ds : List Delivery} (node : c.peer = .node service s ds)
    (nothing : c.arriving = []) {request : Request} {id : UInt64}
    (h : c.begin HostSession.peer request = (c', .ok id)) :
    c'.client.parked = c.client.parked ∧
      ((c'.peer = .node service (s.receive service ⟨id, request.zoneless⟩).1 ds.tail ∧
          c'.arriving = (s.receive service ⟨id, request.zoneless⟩).2.map .ok) ∨
        ∃ s', c'.peer = .node service s' [.broken] ∧ c'.arriving = []) := by
  obtain ⟨-, bytes, framed, rfl⟩ := begin_eq_ok h
  refine ⟨rfl, ?_⟩
  dsimp only
  rw [nothing, List.nil_append, node]
  rcases HostSession.hear_cases service s ds framed with eq | ⟨s', eq⟩
  · rw [eq]
    exact .inl ⟨rfl, rfl⟩
  · rw [eq]
    exact .inr ⟨s', rfl, rfl⟩

end Archivist
