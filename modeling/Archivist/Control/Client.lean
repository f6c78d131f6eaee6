import Archivist.Wire.Frame
set_option autoImplicit false

namespace Archivist

structure Client where
  node : String
  nextId : UInt64 := 1
  /-- Answers that came before they were waited for, the latest first. -/
  parked : List (UInt64 × Response) := []

namespace Client

def unavailable (c : Client) : TransferError := .nodeUnavailable c.node

/-- Numbers a request and gives the bytes to be written, unless it is too long for a message. -/
def send (c : Client) (request : Request) : Client × UInt64 × Except TransferError (List UInt8) :=
  let id := c.nextId
  let bytes := match Wire.frame (Wire.putRequestFrame ⟨id, request⟩) with
    | .ok bytes => .ok bytes
    | .error _ => .error c.unavailable
  ({ c with nextId := id + 1 }, id, bytes)

def park (c : Client) (id : UInt64) (r : Response) : Client :=
  { c with parked := (id, r) :: c.parked.filter (·.1 ≠ id) }

abbrev Arrivals := List (Except TransferError ResponseFrame)

def arrivals (stream : List UInt8) : Arrivals :=
  go (stream.length / 4 + 1) stream
where
  go : Nat → List UInt8 → Arrivals
    | 0, _ => []
    | fuel + 1, rest =>
      match Wire.readFrame Wire.getResponseFrame rest with
      | (.ok none, _) => []
      | (.ok (some f), rest) => .ok f :: go fuel rest
      | (.error e, rest) => .error e :: go fuel rest

/-- Reads on until the answer comes; none if the arrivals do not bring it. -/
def await (id : UInt64) : Client → Arrivals → Client × Option (Except TransferError Response) × Arrivals
  | c, [] => (c, none, [])
  | c, .ok f :: rest =>
    if f.id = id then (c, some (.ok f.response), rest) else await id (c.park f.id f.response) rest
  | c, .error (.io _) :: rest => (c, some (.error c.unavailable), rest)
  | c, .error e :: rest => (c, some (.error e), rest)

/-- The answer to a request: one that was set aside, or the next that comes for it. -/
def reply (c : Client) (id : UInt64) (arriving : Arrivals) :
    Client × Option (Except TransferError Response) × Arrivals :=
  match c.parked.lookup id with
  | some r => ({ c with parked := c.parked.filter (·.1 ≠ id) }, some (.ok r), arriving)
  | none => await id c arriving

def conclude (c : Client) : Response → Except TransferError TransferStatus
  | .status s => .ok s
  | .error .aborted _ => .error .aborted
  | .error kind message => .error (.remote c.node kind message)
  | other => .error (.serialization s!"unexpected response {other.describe}")

end Client
end Archivist
