import Archivist.Net.Connection
set_option autoImplicit false

namespace Archivist

structure Bench where
  network : Network
  connections : List (String × DataConnection) := []
  /-- The ports that listeners were given, also of those that are gone. -/
  ports : List (String × Nat) := []
  /-- The connects that nobody has asked about yet; each goes on even if its connection is let
  go. -/
  underWay : List (String × DataConnection × Attempt) := []

namespace Bench

def bind {α : Type} (name : String) (a : α) (entries : List (String × α)) :
    List (String × α) :=
  (name, a) :: entries.filter (·.1 ≠ name)

def put (b : Bench) (name : String) (c : DataConnection) : Bench :=
  { b with connections := bind name c b.connections }

def connection? (b : Bench) (name : String) : Option DataConnection := b.connections.lookup name

def port? (b : Bench) (name : String) : Option Nat := b.ports.lookup name

def listen (b : Bench) (name : String) (range : PortRange) (settings : SocketSettings) :
    Bench × Except TransferError PassiveConnection :=
  match PassiveConnection.bind .localhost range settings 0 b.network with
  | .error e => (b, .error e)
  | .ok (c, network) =>
    ({ b with network, ports := bind name c.port b.ports }.put name (.passive c), .ok c)

def prepare (b : Bench) (name : String) (c : ActiveConnection) : Bench := b.put name (.active c)

def connect (b : Bench) (name : String) : Option Bench :=
  (b.connection? name).map fun c =>
    let (c, a) := c.attempt b.network
    { b.put name c with underWay := bind name (c, a) b.underWay }

def closePort (b : Bench) : DataConnection → Bench
  | .active _ => b
  | .passive c => { b with network := b.network.close c.port }

def result (b : Bench) (name : String) : Option (Bench × Except TransferError Unit) := do
  let (c, a) ← b.underWay.lookup name
  let b := { b with underWay := b.underWay.filter (·.1 ≠ name) }
  match a, c with
  | .failed e, _ => return (b, .error e)
  | .connected, _ => return (b, .ok ())
  | .waiting, .passive p => return (b.closePort c, .error p.timedOut)
  | .waiting, .active _ => none

def abort (b : Bench) (name : String) : Option Bench :=
  (b.connection? name).map fun c =>
    let b := (b.put name c.abort).closePort c
    match b.underWay.lookup name with
    | some (c, .waiting) => { b with underWay := bind name (c, .failed .aborted) b.underWay }
    | _ => b

def listening? (b : Bench) (name : String) : Option Bool :=
  match b.connection? name with
  | some (.passive c) => some c.listening
  | _ => none

def letGo (b : Bench) (name : String) : Bench × Bool :=
  match b.connection? name with
  | none => (b, false)
  | some c =>
    let b := if b.listening? name = some true then b.closePort c else b
    ({ b with connections := b.connections.filter (·.1 ≠ name) }, true)

def rebindable? (b : Bench) (name : String) : Option Bool :=
  (b.port? name).map fun p => (b.network.listen p).isSome

end Bench
end Archivist
