import Archivist.Control.NodeWorker
import Archivist.Proofs.Copy.Serving
set_option autoImplicit false

namespace Archivist

namespace FileTransfer

theorem abort_abort (t : FileTransfer) : t.abort.abort = t.abort := by
  unfold abort
  cases t.connection <;> rfl

theorem attempt_abort (t : FileTransfer) (net : Network) :
    t.abort.attempt net = (t.abort, .failed .aborted) := by
  unfold attempt abort
  cases t.connection <;> rfl

end FileTransfer

namespace NodeWorker

open Server (Moves)

inductive Use where
  | start (request : Request)
  | abort
  | dialled (arriving : List (List UInt8))
  | poll
  | expire

def use (s : NodeWorker) : Use → NodeWorker
  | .start request => s.start request
  | .abort => s.abort
  | .dialled arriving => s.dialled arriving
  | .poll => s.poll.2
  | .expire => s.expire.2

theorem close_eq (s : NodeWorker) : s.close = { s with network := s.close.network } := by
  unfold close
  split <;> rfl

/-- A worker that has given up a transfer with nothing left to do. -/
structure Spent (t : FileTransfer) (sent : Option (List UInt8)) (s : NodeWorker) : Prop where
  transfer : s.transfer = t.abort
  idle : s.waiting = none
  quiet : s.sent = sent

variable {t : FileTransfer} {sent : Option (List UInt8)} {s : NodeWorker}

theorem spent_abort (s : NodeWorker) : Spent s.transfer s.sent s.abort := by
  unfold abort
  rw [close_eq]
  dsimp only
  split
  · exact ⟨rfl, rfl, rfl⟩
  · rename_i idle
    rw [Bool.not_eq_true, Option.isSome_eq_false_iff, Option.isNone_iff_eq_none] at idle
    exact ⟨rfl, idle, rfl⟩

theorem Spent.connect (h : Spent t sent s) (task : TransferTask) :
    s.connect task = { s with result := some (.error .aborted) } := by
  unfold NodeWorker.connect
  rw [h.transfer, FileTransfer.attempt_abort, ← h.transfer]

theorem Spent.start (h : Spent t sent s) (request : Request) :
    Spent t sent (s.start request) ∧
      (Moves request → ∃ e, (s.start request).result = some (.error e)) := by
  cases request with
  | sendFile path mode resume want =>
    unfold NodeWorker.start
    dsimp only
    split
    · exact ⟨⟨h.transfer, h.idle, h.quiet⟩, fun _ => ⟨_, rfl⟩⟩
    · rw [h.connect]
      exact ⟨⟨h.transfer, h.idle, h.quiet⟩, fun _ => ⟨_, rfl⟩⟩
  | receiveFile directory mode filename offset =>
    unfold NodeWorker.start
    dsimp only
    split
    · exact ⟨⟨h.transfer, h.idle, h.quiet⟩, fun _ => ⟨_, rfl⟩⟩
    · rename_i storage task _
      have ready : Spent t sent { s with storage } := ⟨h.transfer, h.idle, h.quiet⟩
      rw [ready.connect]
      exact ⟨⟨h.transfer, h.idle, h.quiet⟩, fun _ => ⟨_, rfl⟩⟩
  | _ => exact ⟨h, fun moves => by cases moves⟩

theorem Spent.use (h : Spent t sent s) (u : Use) : Spent t sent (s.use u) := by
  cases u with
  | start request => exact (h.start request).1
  | abort =>
    have again := spent_abort s
    rw [h.transfer, h.quiet] at again
    exact ⟨again.transfer.trans (FileTransfer.abort_abort t), again.idle, again.quiet⟩
  | dialled arriving =>
    have nobody : s.dialled arriving = { s with peer := some arriving } := by
      rw [dialled, h.idle]
    change Spent t sent (s.dialled arriving)
    rw [nobody]
    exact ⟨h.transfer, h.idle, h.quiet⟩
  | poll => exact ⟨h.transfer, h.idle, h.quiet⟩
  | expire =>
    change Spent t sent s.expire.2
    rw [expire, h.idle]
    exact ⟨h.transfer, h.idle, h.quiet⟩

theorem Spent.uses (h : Spent t sent s) (us : List Use) :
    Spent t sent (us.foldl NodeWorker.use s) := by
  induction us generalizing s with
  | nil => exact h
  | cons u us ih => exact ih (h.use u)

end NodeWorker

end Archivist
