import Archivist.Archive.Job
import Archivist.Config.Settings
import Archivist.Control.Conversation
set_option autoImplicit false

/-!
# Copying a file between two nodes

The coordinator opens a listening channel at the destination and has a source dial it.  The
destination waits for the file before the source sends it; if sending fails, the destination is
told to give up.  A copy counts only if both ends report the same checksum.

Whatever can go wrong on the way stands with the hosts: a control stream may break at any
exchange, a transfer at any piece, and of the bytes of a broken transfer any beginning may come
through.
-/

namespace Archivist

/-- What comes through a data channel of the bytes that were sent over it, in which pieces: always
the first of them, and all if the sender has sent its file to the end. -/
structure Channel where
  deliver : Bool → List UInt8 → List (List UInt8)
  inOrder : ∀ whole sent, (deliver whole sent).flatten <+: sent
  complete : ∀ sent, (deliver true sent).flatten = sent

def Channel.direct : Channel where
  deliver _ sent := FileTransfer.pieces sent
  inOrder _ sent := by simp [FileTransfer.flatten_pieces]
  complete := FileTransfer.flatten_pieces

/-- What becomes of a request on a control stream, or of the wait for its answer. -/
inductive Delivery where
  | answered
  /-- The node gets the request, but the stream breaks before the answer is through. -/
  | unanswered
  /-- The stream breaks before the node gets the request. -/
  | lost
  /-- The stream is broken already. -/
  | broken
deriving DecidableEq

structure Fate where
  /-- What becomes of the exchanges on a control stream; the later ones go well. -/
  deliveries : List Delivery := []
  breaks : Option Interruption := none
  channel : Channel := .direct

inductive Host where
  /-- A storage node; `taken` are ports of its host that others listen at. -/
  | node (service : NodeService) (storage : Storage) (taken : List Nat := []) (fate : Fate := {})
  /-- Answers the requests of each session with these in turn and then hangs up. -/
  | script (responses : List Response)
  | closed
  | unreachable (e : TransferError)

structure Site where
  reach : Reach
  hosts : List (SocketAddress × Host) := []

namespace Site

def host (s : Site) (a : SocketAddress) : Host := (s.hosts.lookup a).getD .closed

def setStorage (s : Site) (a : SocketAddress) (storage : Storage) : Site :=
  { s with hosts := s.hosts.map fun e =>
      match e with
      | (b, .node service old taken fate) =>
        (b, .node service (if b = a then storage else old) taken fate)
      | e => e }

def add (s : Site) (a : SocketAddress) (h : Host) : Site := { s with hosts := s.hosts ++ [(a, h)] }

def freshAddress (s : Site) : SocketAddress :=
  .ofIp .localhost (UInt16.ofNat (7100 + s.hosts.length))

def channelTo (s : Site) (a : SocketAddress) : Channel :=
  match s.host a with
  | .node _ _ _ fate => fate.channel
  | _ => .direct

def storage? (s : Site) (a : SocketAddress) : Option Storage :=
  match s.host a with
  | .node _ storage _ _ => some storage
  | _ => none

end Site

inductive HostSession where
  | node (service : NodeService) (s : Session) (deliveries : List Delivery := [])
  | script (responses : List Response)

namespace HostSession

def next (deliveries : List Delivery) : Delivery := deliveries.head?.getD .answered

def hear : HostSession → List UInt8 → HostSession × List ResponseFrame
  | .node service s deliveries, bytes =>
    let (heard, replies) := (Session.peer service).hear s bytes
    match next deliveries with
    | .answered => (.node service heard deliveries.tail, replies)
    | .unanswered => (.node service heard [.broken], [])
    | .lost | .broken => (.node service s [.broken], [])
  | .script [], _ => (.script [], [])
  | .script (r :: rest), bytes =>
    match Wire.readFrame Wire.getRequestFrame bytes with
    | (.ok (some f), _) => (.script rest, [⟨f.id, r⟩])
    | _ => (.script [], [])

def goOn : HostSession → HostSession × List ResponseFrame
  | .node service s deliveries =>
    let (later, replies) := (Session.peer service).goOn s
    match next deliveries with
    | .answered => (.node service later deliveries.tail, replies)
    | _ => (.node service later [.broken], [])
  | s => (s, [])

def peer : Peer HostSession where
  hear := hear
  goOn := goOn
  listens
    | .node _ s deliveries => s.isOpen && next deliveries ≠ .broken
    | .script responses => !responses.isEmpty
  speaks
    | .node _ s deliveries => s.isOpen && next deliveries ≠ .broken
    | .script _ => false

def listening : HostSession → List Nat
  | .node _ (.serving server) _ => server.worker.network.listening
  | _ => []

def sent : HostSession → Option (List UInt8)
  | .node _ (.serving server) _ => server.worker.sent
  | _ => none

def dialled (arriving : List (List UInt8)) : HostSession → HostSession
  | .node service s deliveries => .node service (s.dialled arriving) deliveries
  | s => s

def learn (ports : List Nat) : HostSession → HostSession
  | .node service (.serving server) deliveries =>
    .node service (.serving { server with worker := { server.worker with
      network := { server.worker.network with listening := ports } } }) deliveries
  | s => s

def storage? : HostSession → Option Storage
  | .node _ s _ => some s.storage
  | .script _ => none

end HostSession

namespace RemoteCopy

abbrev Line := Conversation HostSession

def connect (site : Site) (settings : TransferSettings) (n : Node) : Except ArchiveError Line :=
  match n.address with
  | none => .error (.nodeUnavailable n.name)
  | some a =>
    match site.reach with
    | .isolated => .error (.transport (.io .unreachable))
    | .loopback =>
      if settings.connection.timeoutMs = 0 then
        .error (.transport (.connectionTimeout a.text 0))
      else
        match site.host a with
        | .closed => .error (.transport (.connectionRefused a.text))
        | .unreachable e => .error (.transport e)
        | .node service storage taken fate =>
          let net : Network := { reach := site.reach, listening := taken, breaks := fate.breaks }
          .ok { client := { node := n.name },
                peer := .node service (.fresh storage net) fate.deliveries }
        | .script responses => .ok { client := { node := n.name }, peer := .script responses }

/-- The result of waiting on a control stream; one that waits for ever has lost its node. -/
def settled {α : Type} (c : Line) : Option (Except TransferError α) → Except ArchiveError α
  | some (.ok a) => .ok a
  | some (.error e) => .error (.transport e)
  | none => .error (.transport c.client.unavailable)

def openChannel (c : Line) (channel : DataChannel) : Line × Except ArchiveError (Option UInt16) :=
  let (c, r) := c.call HostSession.peer (.openChannel channel)
  (c, do
    match ← settled c r with
    | .localPort port => .ok port
    | .error kind message => .error (.transport (.remote c.client.node kind message))
    | other => .error (.state (.unexpectedReply c.client.node other.describe)))

/-- The first of the file's holders that can be reached, other than the destination. -/
def sourceFor (fleet : Fleet) (job : Job) (destination : String) : Except ArchiveError Node :=
  let found := ((job.file.holders.filter (· ≠ destination)).filterMap fleet.find?).find? fun m =>
    m.node.online && m.node.address.isSome
  match found with
  | some m => .ok m.node
  | none => .error (.nodeUnavailable (",".intercalate job.file.holders))

def compare (path : String) (sent received : TransferStatus) : Except ArchiveError TransferStatus :=
  if sent.checksum = received.checksum then .ok received
  else .error (.state (.checksum path sent.checksum received.checksum))

def move (channel : Channel) (receiver sender : Line) (job : Job) :
    Line × Except ArchiveError TransferStatus :=
  let (receiver, pending) := receiver.begin HostSession.peer
    (.receiveFile job.file.directory.text .binary job.file.name 0)
  match pending with
  | .error e => (receiver, .error (.transport e))
  | .ok pending =>
    let sender := { sender with peer := sender.peer.learn receiver.peer.listening }
    let (sender, sent) := sender.transfer HostSession.peer (.sendFile job.file.path .binary 0 true)
    let sent := settled sender sent
    let receiver := match sender.peer.sent with
      | some bytes =>
        { receiver with peer := receiver.peer.dialled (channel.deliver sent.isOk bytes) }
      | none => receiver
    let receiver := match sent with
      | .ok _ => receiver
      | .error e =>
        let reason := match e with
          | .transport e => e.message
          | e => e.message
        (receiver.call HostSession.peer (.abort s!"sender failed: {reason}")).1
    let (receiver, received) := receiver.finish HostSession.peer pending
    (receiver, do
      let sent ← sent
      let received ← settled receiver received
      compare job.file.path sent received)

def run (site : Site) (fleet : Fleet) (settings : TransferSettings) (job : Job) :
    Site × Except ArchiveError TransferStatus :=
  match fleet.node? job.destination with
  | none => (site, .error (.nodeUnavailable ""))
  | some destination =>
    match sourceFor fleet job destination.name with
    | .error e => (site, .error e)
    | .ok source =>
      match connect site settings destination with
      | .error e => (site, .error e)
      | .ok receiver =>
        match openChannel receiver .passive with
        | (_, .error e) => (site, .error e)
        | (_, .ok none) => (site, .error (.state (.noPassivePort destination.name)))
        | (receiver, .ok (some port)) =>
          match destination.address with
          | none => (site, .error (.nodeUnavailable destination.name))
          | some a =>
            match connect site settings source with
            | .error e => (site, .error e)
            | .ok sender =>
              match openChannel sender (.active (.ofIp a.ip port)) with
              | (_, .error e) => (site, .error e)
              | (sender, .ok _) =>
                let (receiver, result) := move (site.channelTo a) receiver sender job
                let site := match receiver.peer.storage? with
                  | some storage => site.setStorage a storage
                  | none => site
                (site, result)

end RemoteCopy
end Archivist
