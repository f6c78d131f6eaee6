import Archivist.Proofs.Control.Arrivals
import Archivist.Proofs.Copy.Serving
set_option autoImplicit false

namespace Archivist

namespace TransferError

theorem remoteKind_eq_unreachable (e : TransferError) :
    e.remoteKind = .unreachable ↔ e.isUnreachable = true := by
  unfold remoteKind
  split
  · rename_i far
    simp [far]
  · rename_i near
    constructor
    · intro kind
      split at kind
      · cases kind
      · cases kind
      · rename_i node k message
        rw [kind] at near
        exact absurd rfl near
      · cases kind
    · exact fun far => absurd far near

end TransferError

namespace Client

theorem conclude_node {c c' : Client} (same : c'.node = c.node) (r : Response) :
    c'.conclude r = c.conclude r := by
  unfold conclude
  rw [same]

/-- The class of a failure and whether the node could be reached survive the way to the peer. -/
theorem conclude_ofError (c : Client) (e : TransferError) :
    ∃ e', c.conclude (.ofError e) = .error e' ∧ e'.remoteKind = e.remoteKind ∧
      e'.isUnreachable = e.isUnreachable := by
  have reach := e.remoteKind_eq_unreachable
  cases kind : e.remoteKind with
  | aborted =>
    refine ⟨.aborted, ?_, rfl, ?_⟩
    · rw [Response.ofError, kind]
      rfl
    · rw [kind] at reach
      exact (Bool.eq_false_iff.2 fun far => RemoteKind.noConfusion (reach.2 far)).symm
  | unreachable =>
    refine ⟨.remote c.node .unreachable e.message, ?_, rfl, (reach.1 kind).symm⟩
    rw [Response.ofError, kind]
    rfl
  | invalidPath | busy | other =>
    refine ⟨.remote c.node e.remoteKind e.message, ?_, ?_, ?_⟩
    · rw [Response.ofError, kind]
      rfl
    · rw [kind]
      rfl
    · rw [kind] at reach ⊢
      exact (Bool.eq_false_iff.2 fun far => RemoteKind.noConfusion (reach.2 far)).symm

end Client

def Worker.outcome {σ : Type} (w : Worker σ) (s : σ) (request : Request) :
    Option (Except TransferError TransferStatus) :=
  match w.poll (w.start s request) with
  | (some r, _) => some r
  | (none, s) => (w.expire s).1

namespace Server

variable {σ : Type} {w : Worker σ} {s : Server σ} {id : UInt64}
  {look : σ → Option (Except TransferError TransferStatus) × σ}

theorem settle_eq_of_some (running : s.running = some id) (stands : s.ended = none)
    {r : Except TransferError TransferStatus} {worker : σ}
    (looked : look s.worker = (some r, worker)) {bytes : List UInt8}
    (framed : Wire.frame (Wire.putResponseFrame ⟨id, .ofResult r⟩) = .ok bytes) :
    s.settle w look = ({ s with worker, running := none }, [⟨id, .ofResult r⟩]) := by
  rw [settle, if_neg (by simp [running, stands]), looked]
  dsimp only
  unfold handle react
  rw [running]
  dsimp only
  rw [framed]
  rfl

theorem peer_hear_of_moves (idle : s.running = none) (stands : s.ended = none) {request : Request}
    (moves : Moves request) {bytes : List UInt8}
    (framed : Wire.frame (Wire.putRequestFrame ⟨id, request⟩) = .ok bytes) :
    (peer w).hear s bytes =
      settle w w.poll { s with running := some id, worker := w.start s.worker request } := by
  have plain : request.zoneless = request := by
    cases request with
    | openChannel channel => cases moves
    | _ => rfl
  change hearFrame (receive w) s bytes = _
  rw [hearFrame, Wire.readFrame_of_frame framed]
  dsimp only
  rw [plain, receive_of_moves idle stands moves]

end Server

namespace Conversation

variable {σ : Type}

theorem begin_eq {p : Peer σ} {c : Conversation σ} {request : Request} {bytes : List UInt8}
    (framed : Wire.frame (Wire.putRequestFrame ⟨c.client.nextId, request⟩) = .ok bytes)
    (listens : p.listens c.peer = true) :
    c.begin p request =
      (⟨{ c.client with nextId := c.client.nextId + 1 }, (p.hear c.peer bytes).1,
        c.arriving ++ (p.hear c.peer bytes).2.map .ok⟩, .ok c.client.nextId) := by
  rw [begin, Client.send_of_frame framed]
  dsimp only
  rw [if_pos listens]

theorem await_eq {p : Peer σ} {c : Conversation σ} {id : UInt64} {client : Client}
    {answer : Except TransferError Response} {rest : Client.Arrivals}
    (replied : c.client.reply id c.arriving = (client, some answer, rest)) :
    c.await p id = ({ c with client, arriving := rest }, some answer) := by
  rw [await, replied]

theorem await_eq_of_waiting {p : Peer σ} {c : Conversation σ} {id : UInt64} {client later : Client}
    {answer : Except TransferError Response} {rest : Client.Arrivals}
    (waits : c.client.reply id c.arriving = (client, none, []))
    (speaks : p.speaks c.peer = true)
    (replied : client.reply id ((p.goOn c.peer).2.map .ok) = (later, some answer, rest)) :
    c.await p id =
      ({ client := later, peer := (p.goOn c.peer).1, arriving := rest }, some answer) := by
  rw [await, waits]
  dsimp only
  rw [if_pos speaks, List.nil_append, replied]

variable {w : Worker σ} {c : Conversation (Server σ)} {coming : List (UInt64 × Response)}

theorem finish_eq {p : Peer σ} {c c' : Conversation σ} {id : UInt64} {r : Response}
    (answered : c.await p id = (c', some (.ok r))) :
    c.finish p id = (c', some (c'.client.conclude r)) := by
  rw [finish, answered]

theorem transfer_of_await {p : Peer σ} {c c₁ c₂ : Conversation σ} {request : Request} {id : UInt64}
    {r : Response} (begun : c.begin p request = (c₁, .ok id))
    (answered : c₁.await p id = (c₂, some (.ok r))) :
    c.transfer p request = (c₂, some (c₂.client.conclude r)) := by
  rw [transfer, begun]
  exact finish_eq answered

variable {id : UInt64} {r : Except TransferError TransferStatus} {reply : List UInt8}

theorem await_of_expire (arriving : c.arriving = coming.map Client.carry)
    (apart : c.client.Apart coming) (new : id ∉ (c.client.parked ++ coming).map (·.1))
    (running : c.peer.running = some id) (stands : c.peer.ended = none)
    (expires : (w.expire c.peer.worker).1 = some r)
    (answered : Wire.frame (Wire.putResponseFrame ⟨id, .ofResult r⟩) = .ok reply) :
    ∃ c', c.await (Server.peer w) id = (c', some (.ok (.ofResult r))) ∧
      c'.client.node = c.client.node := by
  rcases Client.reply_carry apart id with ⟨r', parked, later, -, perm⟩ | ⟨-, parked, waits, -⟩
  · exact absurd (List.mem_map.2 ⟨_, perm.mem_iff.2 List.mem_cons_self, rfl⟩) new
  rw [← arriving] at waits
  obtain ⟨parked', rest, eq⟩ := Client.reply_last apart new (.ofResult r)
  have waited : (c.client.reply id c.arriving).2.1 = none := congrArg (·.2.1) waits
  rw [← arriving, Client.reply_append _ _ waited, waits] at eq
  have goes : (Server.peer w).goOn c.peer =
      ({ c.peer with worker := (w.expire c.peer.worker).2, running := none },
        [⟨id, .ofResult r⟩]) :=
    Server.settle_eq_of_some running stands (Prod.ext expires rfl) answered
  have replied : Client.reply { c.client with parked } id
      (((Server.peer w).goOn c.peer).2.map .ok) =
        ({ c.client with parked := parked' }, some (.ok (.ofResult r)), rest) := by
    rw [goes]
    exact eq
  have speaks : (Server.peer w).speaks c.peer = true := by simp [Server.peer, stands]
  exact ⟨_, await_eq_of_waiting waits speaks replied, rfl⟩

/-- A transfer that the node takes up at once ends for the coordinator as it does for the node, with
whatever else is on its way. -/
theorem transfer_eq (arriving : c.arriving = coming.map Client.carry)
    (apart : c.client.Apart coming)
    (new : c.client.nextId ∉ (c.client.parked ++ coming).map (·.1))
    (idle : c.peer.running = none) (stands : c.peer.ended = none) {request : Request}
    (moves : Server.Moves request) {bytes : List UInt8}
    (framed : Wire.frame (Wire.putRequestFrame ⟨c.client.nextId, request⟩) = .ok bytes)
    (ends : w.outcome c.peer.worker request = some r)
    (answered : Wire.frame (Wire.putResponseFrame ⟨c.client.nextId, .ofResult r⟩) = .ok reply) :
    (c.transfer (Server.peer w) request).2 = some (c.client.conclude (.ofResult r)) := by
  have begun := begin_eq (p := Server.peer w) framed (by simp [Server.peer, stands])
  rw [Server.peer_hear_of_moves idle stands moves framed, arriving] at begun
  let numbered : Client := { c.client with nextId := c.client.nextId + 1 }
  let busy : Server σ :=
    { c.peer with running := some c.client.nextId, worker := w.start c.peer.worker request }
  change c.begin (Server.peer w) request =
    (⟨numbered, (busy.settle w w.poll).1, _ ++ (busy.settle w w.poll).2.map .ok⟩, _) at begun
  unfold Worker.outcome at ends
  rcases polled : w.poll (w.start c.peer.worker request) with ⟨_ | r', worker⟩
  · rw [polled] at ends
    rw [Server.settle_of_none (s := busy) rfl stands polled, List.map_nil, List.append_nil] at begun
    obtain ⟨c', awaited, node⟩ := await_of_expire (w := w)
      (c := ⟨numbered, { busy with worker }, coming.map Client.carry⟩) rfl apart new rfl stands ends
      answered
    rw [transfer_of_await begun awaited, Client.conclude_node node]
    rfl
  · rw [polled] at ends
    cases ends
    rw [Server.settle_eq_of_some (s := busy) rfl stands polled answered] at begun
    obtain ⟨parked, rest, eq⟩ := Client.reply_last (c := numbered) apart new (.ofResult r)
    rw [transfer_of_await begun (await_eq eq)]
    rfl

end Conversation
end Archivist
