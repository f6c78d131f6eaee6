import Archivist.Proofs.Copy.Serving
import Archivist.Proofs.Copy.Workers
set_option autoImplicit false

namespace Archivist

namespace Conversation

variable {σ : Type} {p : Peer σ} {c c' : Conversation σ}

theorem call_eq_ok {request : Request} {r : Response}
    (h : c.call p request = (c', some (.ok r))) :
    ∃ c₁ id, c.begin p request = (c₁, .ok id) ∧ c₁.await p id = (c', some (.ok r)) := by
  unfold call at h
  split at h
  · cases h
  · rename_i c₁ id begun
    exact ⟨c₁, id, begun, h⟩

theorem transfer_eq_ok {request : Request} {status : TransferStatus}
    (h : c.transfer p request = (c', some (.ok status))) :
    ∃ c₁ id, c.begin p request = (c₁, .ok id) ∧ c₁.finish p id = (c', some (.ok status)) := by
  unfold transfer at h
  split at h
  · cases h
  · rename_i c₁ id begun
    exact ⟨c₁, id, begun, h⟩

theorem await_of_arrived {id : UInt64} {r : Response} (new : c.client.parked = [])
    (arrived : c.arriving = [.ok ⟨id, r⟩]) :
    c.await p id = ({ c with arriving := [] }, some (.ok r)) := by
  unfold await Client.reply
  rw [new, arrived, List.lookup_nil]
  dsimp only
  rw [Client.await, if_pos rfl]

theorem await_of_broken {c c' : Conversation HostSession} {service : NodeService} {s : Session}
    {id : UInt64} {r : Response} (broken : c.peer = .node service s [.broken])
    (nothing : c.arriving = []) (new : c.client.parked = []) :
    c.await HostSession.peer id ≠ (c', some (.ok r)) := by
  intro answered
  have fresh : c.client.parked.lookup id = none := by rw [new, List.lookup_nil]
  rcases await_eq_ok fresh answered with ⟨arrived, -⟩ | ⟨speaks, -⟩
  · rw [nothing] at arrived
    cases arrived
  · rw [broken, HostSession.speaks_of_broken] at speaks
    cases speaks

end Conversation

namespace RemoteCopy

/-- A line to a node that has not been asked anything yet. -/
structure Connected (c : Line) (service : NodeService) (storage : Storage) : Prop where
  node : ∃ net ds, c.peer = .node service (.fresh storage net) ds
  nothing : c.arriving = []
  new : c.client.parked = []

structure Ready (c : Line) (storage : Storage) (connection : DataConnection) : Prop where
  node : ∃ service network ds, c.peer = .node service
    (.serving { worker := .opened connection storage network }) ds
  nothing : c.arriving = []
  new : c.client.parked = []

variable {c c' : Line} {storage : Storage}

theorem settled_eq_ok {α : Type} {r : Option (Except TransferError α)} {a : α}
    (h : settled c r = .ok a) : r = some (.ok a) := by
  unfold settled at h
  split at h
  · rw [Except.ok.inj h]
  · cases h
  · cases h

theorem openChannel_eq_ok {channel : DataChannel} {port : Option UInt16}
    (h : openChannel c channel = (c', .ok port)) :
    c.call HostSession.peer (.openChannel channel) = (c', some (.ok (.localPort port))) := by
  unfold openChannel at h
  cases called : c.call HostSession.peer (.openChannel channel) with
  | mk c₁ r =>
    rw [called] at h
    obtain ⟨rfl, read⟩ := Prod.mk.inj h
    cases answer : settled c₁ r with
    | error e =>
      rw [answer] at read
      cases read
    | ok response =>
      rw [answer] at read
      rw [settled_eq_ok answer]
      cases response with
      | localPort p => rw [Except.ok.inj read]
      | _ => cases read

theorem Connected.opened {service : NodeService} (fresh : Connected c service storage)
    {channel : DataChannel} {port : Option UInt16} (h : openChannel c channel = (c', .ok port)) :
    ∃ connection, Ready c' storage connection ∧ ∃ net net',
      service.openChannel net 0 channel.zoneless = .ok (connection, net') := by
  obtain ⟨net, ds, node⟩ := fresh.node
  obtain ⟨c₁, id, begun, awaited⟩ := Conversation.call_eq_ok (openChannel_eq_ok h)
  obtain ⟨parked, heard | ⟨s', lost, empty⟩⟩ := Conversation.begin_node node fresh.nothing begun
  · obtain ⟨peer, arriving⟩ := heard
    have new : c₁.client.parked = [] := parked.trans fresh.new
    cases tried : service.openChannel net 0 channel.zoneless with
    | error e =>
      have refused : Session.receive service (.fresh storage net)
          ⟨id, Request.zoneless (.openChannel channel)⟩ =
          (.over storage (.ok ()), [⟨id, .ofError e⟩]) := by
        simp only [Request.zoneless, Session.receive, tried]
      rw [refused] at arriving
      rw [Conversation.await_of_arrived new arriving] at awaited
      cases awaited
    | ok made =>
      obtain ⟨connection, net'⟩ := made
      have taken : Session.receive service (.fresh storage net)
          ⟨id, Request.zoneless (.openChannel channel)⟩ =
          (.serving { worker := { transfer := { connection }, storage, network := net' } },
            [⟨id, .localPort connection.localPort⟩]) := by
        simp only [Request.zoneless, Session.receive, tried]
      rw [taken] at arriving peer
      rw [Conversation.await_of_arrived new arriving] at awaited
      cases awaited
      exact ⟨connection, ⟨⟨service, net', ds.tail, peer⟩, rfl, new⟩, net, net', tried⟩
  · exact absurd awaited (Conversation.await_of_broken lost empty (parked.trans fresh.new))

theorem openChannel_passive {service : NodeService} {net net' : Network} {start : Nat}
    {connection : DataConnection}
    (h : service.openChannel net start .passive = .ok (connection, net')) :
    ∃ passive, connection = .passive passive := by
  unfold NodeService.openChannel at h
  cases bound : PassiveConnection.bind service.bindIp service.ports service.settings start net with
  | error e =>
    rw [bound] at h
    cases h
  | ok made =>
    rw [bound] at h
    cases h
    exact ⟨made.1, rfl⟩

theorem openChannel_active {service : NodeService} {net net' : Network} {start : Nat}
    {address : SocketAddress} {connection : DataConnection}
    (h : service.openChannel net start (.active address) = .ok (connection, net')) :
    ∃ active, connection = .active active := by
  cases h
  exact ⟨_, rfl⟩

theorem ofResult_eq_status {r : Except TransferError TransferStatus}
    {status : TransferStatus} (h : Response.status status = .ofResult r) : r = .ok status := by
  cases r with
  | ok s =>
    injection h with same
    rw [same]
  | error e => cases h

variable {status : TransferStatus}

theorem ok_of_answers {replies : List ResponseFrame} {id : UInt64}
    {r : Except TransferError TransferStatus}
    (answers : ∀ reply ∈ replies, reply = ⟨id, .ofResult r⟩)
    (status_mem : ⟨id, .status status⟩ ∈ replies) : r = .ok status := by
  have reply := answers _ status_mem
  injection reply with _ same
  exact ofResult_eq_status same

/-- A node that reports a file as sent has sent it whole. -/
theorem Ready.sent {connection : ActiveConnection} (ready : Ready c storage (.active connection))
    {path : String} {want : Bool}
    (h : c.transfer HostSession.peer (.sendFile path .binary 0 want) = (c', some (.ok status))) :
    ∃ location content, Location.resolve path = .ok location ∧ storage.Holds location content ∧
      c'.peer.sent = some content := by
  obtain ⟨service, network, ds, node⟩ := ready.node
  obtain ⟨c₁, id, begun, finished⟩ := Conversation.transfer_eq_ok h
  have answered := Conversation.finish_eq_ok finished
  obtain ⟨parked, ⟨peer, arriving⟩ | ⟨s', lost, empty⟩⟩ :=
    Conversation.begin_node node ready.nothing begun
  · have new : c₁.client.parked.lookup id = none := by rw [parked, ready.new, List.lookup_nil]
    have moves : Server.Moves (.sendFile path .binary 0 want) := trivial
    have same : Request.zoneless (.sendFile path .binary 0 want) =
      .sendFile path .binary 0 want := rfl
    obtain ⟨r, done, whole⟩ :=
      NodeWorker.hasSent_start (.opened (.active connection) storage network) rfl path want
    obtain ⟨server, replies, received, silent, worker, answers⟩ :=
      Server.receive_of_done moves done
    rw [same, Session.receive, received] at peer arriving
    -- the worker is done at once, so its answer has come with the request and nothing comes later
    rcases Conversation.await_eq_ok new answered with ⟨arrived, same⟩ | ⟨-, later, -⟩
    · rw [arriving] at arrived
      have ok := ok_of_answers answers (by simpa using arrived)
      obtain ⟨location, content, place, held, sent⟩ := whole status ok
      refine ⟨location, content, place, held, ?_⟩
      rw [same, peer]
      change server.worker.sent = some content
      rw [worker, ← sent]
    · rw [peer, HostSession.goOn_of_silent silent] at later
      cases later
  · exact absurd answered (Conversation.await_of_broken lost empty (parked.trans ready.new))

/-- A node that reports a file as received holds what has come through its channel. -/
theorem Ready.received {connection : PassiveConnection}
    (ready : Ready c storage (.passive connection)) {directory filename : String}
    {c₁ : Line} {pending : UInt64}
    (begun : c.begin HostSession.peer (.receiveFile directory .binary filename 0) =
      (c₁, .ok pending)) {arriving : List (List UInt8)}
    (h : Conversation.finish HostSession.peer { c₁ with peer := c₁.peer.dialled arriving } pending =
      (c', some (.ok status))) :
    ∃ parent stored, Location.isFileName filename = true ∧ filename ≠ "." ∧
      Location.resolve directory = .ok parent ∧ c'.peer.storage? = some stored ∧
      stored.Holds (parent ++ [filename]) arriving.flatten := by
  obtain ⟨service, network, ds, node⟩ := ready.node
  have answered := Conversation.finish_eq_ok h
  obtain ⟨parked, ⟨peer, replied⟩ | ⟨s', lost, empty⟩⟩ :=
    Conversation.begin_node node ready.nothing begun
  · have new : c₁.client.parked.lookup pending = none := by
      rw [parked, ready.new, List.lookup_nil]
    have moves : Server.Moves (.receiveFile directory .binary filename 0) := trivial
    have same : Request.zoneless (.receiveFile directory .binary filename 0) =
      .receiveFile directory .binary filename 0 := rfl
    rw [same, Session.receive] at peer replied
    have answer := Conversation.await_eq_ok
      (c := { c₁ with peer := c₁.peer.dialled arriving }) new answered
    dsimp only at answer
    rcases NodeWorker.awaitsFile_start (.opened (.passive connection) storage network) rfl rfl rfl
      directory filename with ⟨e, failed⟩ | ⟨idle, parent, name, plain, place, waits, held⟩
    · obtain ⟨server, replies, received, silent, -, answers⟩ :=
        Server.receive_of_done moves failed
      rw [received] at peer replied
      rcases answer with ⟨arrived, -⟩ | ⟨-, later, -⟩
      · rw [replied] at arrived
        cases ok_of_answers answers (by simpa using arrived)
      · have still : Server.Silent
            { server with worker := server.worker.dialled arriving } := silent
        rw [peer, HostSession.dialled, Session.dialled, HostSession.goOn_of_silent still] at later
        cases later
    -- the node waits for its peer, so the answer is that of the worker after it was dialled
    · have started := Server.receive_of_waiting pending moves idle
      rw [started] at peer replied
      rcases answer with ⟨arrived, -⟩ | ⟨-, later, ended⟩
      · rw [replied] at arrived
        cases arrived
      · obtain ⟨r, done, stored⟩ := NodeWorker.dialled_of_waiting
          { (NodeWorker.opened (.passive connection) storage network).start
            (.receiveFile directory .binary filename 0) with result := none } waits held arriving
        rw [peer] at later ended
        obtain ⟨reply, kept⟩ := HostSession.goOn_of_done rfl rfl done later
        injection reply with _ reply
        refine ⟨parent, _, name, plain, place, ?_, stored status (ofResult_eq_status reply)⟩
        rw [ended]
        exact kept
  · have still : c₁.peer.dialled arriving =
        .node service (s'.dialled arriving) [.broken] := by
      rw [lost]
      rfl
    exact absurd answered (Conversation.await_of_broken still empty (parked.trans ready.new))

end RemoteCopy
end Archivist
