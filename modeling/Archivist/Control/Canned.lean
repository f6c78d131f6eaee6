import Archivist.Control.Server
set_option autoImplicit false

namespace Archivist

inductive CannedResult where
  | hold
  | fails (e : TransferError)
  | ends (s : TransferStatus)

structure Canned where
  sends : List (String × CannedResult) := []
  receives : List (String × CannedResult) := []
  progress : TransferStatus := ⟨0, 0, 0, false⟩
  port : Option UInt16 := none

structure CannedWorker where
  tables : Canned
  calls : List Request := []
  aborts : List String := []
  current : Option CannedResult := none

namespace CannedWorker

def fallback : CannedResult := .ends ⟨0, 0, 0, true⟩

def start (s : CannedWorker) (r : Request) : CannedWorker :=
  let result := match r with
    | .sendFile path _ _ _ => (s.tables.sends.lookup path).getD fallback
    | .receiveFile _ _ filename _ => (s.tables.receives.lookup filename).getD fallback
    | _ => fallback
  { s with calls := s.calls ++ [r], current := some result }

def poll (s : CannedWorker) : Option (Except TransferError TransferStatus) × CannedWorker :=
  match s.current with
  | none => (none, s)
  | some .hold =>
    if s.aborts.isEmpty then (none, s)
    else (some (.error .aborted), { s with current := none })
  | some (.fails e) => (some (.error e), { s with current := none })
  | some (.ends status) => (some (.ok status), { s with current := none })

def worker : Worker CannedWorker where
  start := start
  abort s reason := { s with aborts := s.aborts ++ [reason] }
  view s := ⟨s.tables.progress, s.tables.port⟩
  poll := poll
  expire := poll

end CannedWorker
end Archivist
