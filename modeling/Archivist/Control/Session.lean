import Archivist.Control.NodeWorker
set_option autoImplicit false

namespace Archivist

structure NodeService where
  bindIp : Ip
  ports : PortRange
  settings : SocketSettings

namespace NodeService

def openChannel (service : NodeService) (net : Network) (start : Nat) :
    DataChannel → Except TransferError (DataConnection × Network)
  | .passive =>
    (PassiveConnection.bind service.bindIp service.ports service.settings start net).map
      fun (c, net) => (.passive c, net)
  | .active address =>
    let bindIp := if service.bindIp.isUnspecified then none else some service.bindIp
    .ok (.active { address, bindIp, settings := service.settings }, net)

end NodeService

inductive Session where
  | fresh (storage : Storage) (network : Network)
  | serving (server : Server NodeWorker)
  | over (storage : Storage) (result : Except TransferError Unit)

namespace Session

def notOpen : Response := .error .other "session not open"

def storage : Session → Storage
  | .fresh s _ => s
  | .serving server => server.worker.storage
  | .over s _ => s

def receive (service : NodeService) : Session → RequestFrame → Session × List ResponseFrame
  | .fresh storage net, ⟨id, .openChannel channel⟩ =>
    match service.openChannel net 0 channel with
    | .error e => (.over storage (.ok ()), [⟨id, .ofError e⟩])
    | .ok (connection, net) =>
      let worker : NodeWorker := { transfer := { connection }, storage, network := net }
      (.serving { worker }, [⟨id, .localPort connection.localPort⟩])
  | .fresh storage _, ⟨id, _⟩ => (.over storage (.ok ()), [⟨id, notOpen⟩])
  | .serving server, f =>
    let (server, replies) := server.receive NodeWorker.worker f
    (.serving server, replies)
  | s@(.over _ _), _ => (s, [])

def expire : Session → Session × List ResponseFrame
  | .serving server =>
    let (server, replies) := server.settle NodeWorker.worker NodeWorker.worker.expire
    (.serving server, replies)
  | s => (s, [])

def settle : Session → Session × List ResponseFrame
  | .serving server =>
    let (server, replies) := server.settle NodeWorker.worker NodeWorker.worker.poll
    (.serving server, replies)
  | s => (s, [])

def dialled (arriving : List (List UInt8)) : Session → Session
  | .serving server => .serving { server with worker := server.worker.dialled arriving }
  | s => s

def isOpen : Session → Bool
  | .fresh _ _ => true
  | .serving server => server.ended.isNone
  | .over _ _ => false

def hangUp : Session → Session
  | .fresh storage _ => .over storage (.ok ())
  | .serving server =>
    let server := server.hangUp NodeWorker.worker none
    .over server.worker.storage (server.ended.getD (.ok ()))
  | s@(.over _ _) => s

def result : Session → Except TransferError Unit
  | .over _ r => r
  | _ => .ok ()

end Session
end Archivist
