import Archivist.Net.Address
import Archivist.Net.PortRange
import Archivist.Word
set_option autoImplicit false

/-!
# Data connections

A connection is used once: a dialling one may dial once, a listening one accepts one peer and
closes its listener, and one that has been aborted does neither.  A `Network` knows the ports
that are taken, whether hosts reach each other at all, and where a transfer breaks off.
-/

namespace Archivist

structure SocketSettings where
  timeoutMs : Nat := 10000
  sendBuffer : Option Nat := none
  receiveBuffer : Option Nat := none
  keepAlive : Bool := true
  noDelay : Bool := true
deriving DecidableEq

/-- Buffer sizes travel to the operating system as words of 32 bits. -/
def SocketSettings.check (s : SocketSettings) : Except TransferError Unit := do
  for size in [s.sendBuffer, s.receiveBuffer] do
    match size with
    | some n => if n ≥ Word.bound32 then throw (.io (.bufferSize n))
    | none => pure ()

inductive Reach where
  /-- Every dial fails at once for want of a route. -/
  | isolated
  /-- Hosts reach the listeners of each other. -/
  | loopback
deriving DecidableEq

structure Interruption where
  /-- How many pieces are moved before. -/
  after : Nat
  error : TransferError

structure Network where
  reach : Reach
  listening : List Nat := []
  /-- The next port that the host gives out by itself. -/
  fresh : Nat := 32768
  /-- Where a transfer of the host breaks off, if it does. -/
  breaks : Option Interruption := none

namespace Network

def freePort (net : Network) : Nat → Nat → Nat
  | 0, n => n
  | fuel + 1, n => if n ∈ net.listening then freePort net fuel (n + 1) else n

/-- Takes a port for a listener; port 0 asks for one of the host's choice. -/
def listen (net : Network) (port : Nat) : Option (Nat × Network) :=
  if port = 0 then
    let p := net.freePort net.listening.length net.fresh
    some (p, { net with listening := p :: net.listening, fresh := p + 1 })
  else if port ∈ net.listening then none
  else some (port, { net with listening := port :: net.listening })

def close (net : Network) (port : Nat) : Network :=
  { net with listening := net.listening.erase port }

def dial (net : Network) (address : SocketAddress) : Except TransferError Unit :=
  match net.reach with
  | .isolated => .error (.io .unreachable)
  | .loopback =>
    if address.port.toNat ∈ net.listening then .ok ()
    else .error (.connectionRefused address.text)

end Network

def Ip.isLocal : Ip → Bool
  | .v4 a _ _ _ => a = 127 || a = 0
  | .v6 g => g.toList = [0, 0, 0, 0, 0, 0, 0, 0] || g.toList = [0, 0, 0, 0, 0, 0, 0, 1]

structure ActiveConnection where
  address : SocketAddress
  bindIp : Option Ip := none
  settings : SocketSettings := {}
  used : Bool := false
  aborted : Bool := false

namespace ActiveConnection

def abort (c : ActiveConnection) : ActiveConnection := { c with aborted := true }

def bindable (c : ActiveConnection) : Except TransferError Unit :=
  match c.bindIp, c.address with
  | none, _ => .ok ()
  | some (.v6 _), .v4 .. => .error (.io .familyNotSupported)
  | some (.v4 ..), .v6 .. => .error (.io .invalidArgument)
  | some ip, _ => if ip.isLocal then .ok () else .error (.io .addressNotAvailable)

def dial (c : ActiveConnection) (net : Network) : ActiveConnection × Except TransferError Unit :=
  if c.aborted then (c, .error .aborted)
  else if c.used then (c, .error .alreadyConnected)
  else
    ({ c with used := true }, do
      c.settings.check
      c.bindable
      net.dial c.address)

end ActiveConnection

structure PassiveConnection where
  ip : Ip
  port : Nat
  settings : SocketSettings := {}
  listening : Bool := true
  aborted : Bool := false

namespace PassiveConnection

def bindFrom (ip : Ip) (range : PortRange) (settings : SocketSettings) (net : Network) :
    List Nat → Except TransferError (PassiveConnection × Network)
  | [] => .error range.exhausted
  | port :: rest => do
    settings.check
    if !ip.isLocal then throw (.io .addressNotAvailable)
    match net.listen port with
    | some (p, net) => return (⟨ip, p, settings, true, false⟩, net)
    | none => bindFrom ip range settings net rest

def bind (ip : Ip) (range : PortRange) (settings : SocketSettings) (start : Nat) (net : Network) :
    Except TransferError (PassiveConnection × Network) :=
  bindFrom ip range settings net (range.candidates start)

def address (c : PassiveConnection) : SocketAddress := .ofIp c.ip c.port.toUInt16

def accept (c : PassiveConnection) : PassiveConnection × Except TransferError Unit :=
  if c.aborted then (c, .error .aborted)
  else if c.listening then ({ c with listening := false }, .ok ())
  else (c, .error .alreadyConnected)

def timedOut (c : PassiveConnection) : TransferError :=
  .connectionTimeout c.address.text c.settings.timeoutMs

def abort (c : PassiveConnection) : PassiveConnection :=
  { c with aborted := true, listening := false }

end PassiveConnection

inductive Attempt where
  | failed (e : TransferError)
  | connected
  | waiting

inductive DataConnection where
  | active (c : ActiveConnection)
  | passive (c : PassiveConnection)

namespace DataConnection

def localPort : DataConnection → Option UInt16
  | .active _ => none
  | .passive c => some c.port.toUInt16

def abort : DataConnection → DataConnection
  | .active c => .active c.abort
  | .passive c => .passive c.abort

def settings : DataConnection → SocketSettings
  | .active c => c.settings
  | .passive c => c.settings

/-- Uses a connection: a dialling end is done at once, a listening one waits for its peer. -/
def attempt (net : Network) : DataConnection → DataConnection × Attempt
  | .active c =>
    match c.dial net with
    | (c, .ok ()) => (.active c, .connected)
    | (c, .error e) => (.active c, .failed e)
  | .passive c =>
    match c.accept with
    | (c, .ok ()) => (.passive c, .waiting)
    | (c, .error e) => (.passive c, .failed e)

end DataConnection
end Archivist
