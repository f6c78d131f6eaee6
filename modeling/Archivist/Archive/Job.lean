import Archivist.Archive.Error
import Archivist.Archive.Fleet
import Archivist.Archive.Namespace
import Archivist.Transfer.Status
set_option autoImplicit false

namespace Archivist

inductive JobFailure where
  | nodeUnavailable (node : String)
  | transport (message : String)
  | executor (message : String)
deriving DecidableEq

def JobFailure.message : JobFailure → String
  | .nodeUnavailable node => s!"slave {node} unavailable"
  | .transport m => s!"transfer failed: {m}"
  | .executor m => s!"executor: {m}"

inductive JobStatus where
  | queued
  | transferring
  | done
  | failed (f : JobFailure)
deriving DecidableEq

def JobStatus.isTerminal : JobStatus → Bool
  | .done | .failed _ => true
  | _ => false

structure Job where
  file : FileEntry
  destination : NodeId
  priority : Nat
  status : JobStatus := .queued
  transfer : Option TransferStatus := none

namespace Job

def isDone (j : Job) : Bool := j.status.isTerminal

/-- Moves on, unless the job has ended; tells whether it did. -/
def transition (j : Job) (next : JobStatus) : Job × Bool :=
  if j.status.isTerminal then (j, false) else ({ j with status := next }, true)

def markTransferring (j : Job) : Job × Bool := j.transition .transferring

/-- Notes how the transfer went, whether or not the job has ended before. -/
def markDone (j : Job) (s : TransferStatus) : Job × Bool :=
  { j with transfer := some s }.transition .done

def markFailed (j : Job) (f : JobFailure) : Job × Bool := j.transition (.failed f)

def failureFor (destination : String) (e : ArchiveError) : JobFailure :=
  if e.isNodeUnavailable then
    match e with
    | .nodeUnavailable node => .nodeUnavailable node
    | _ => .nodeUnavailable destination
  else .transport e.message

end Job
end Archivist
