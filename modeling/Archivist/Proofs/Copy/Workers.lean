import Archivist.Control.NodeWorker
import Archivist.Proofs.Transfer.Places
import Archivist.Proofs.Transfer.Stream
set_option autoImplicit false

namespace Archivist

theorem FileTransfer.attempt_active {t : FileTransfer} {c : ActiveConnection}
    (dials : t.connection = .active c) (net : Network) : (t.attempt net).2 ≠ .waiting := by
  rw [FileTransfer.attempt, dials]
  unfold DataConnection.attempt
  dsimp only
  split
  · simp
  · simp

theorem FileTransfer.attempt_passive {t : FileTransfer} {c : PassiveConnection}
    (listens : t.connection = .passive c) (net : Network) : (t.attempt net).2 ≠ .connected := by
  rw [FileTransfer.attempt, listens]
  unfold DataConnection.attempt
  dsimp only
  split
  · simp
  · simp

namespace NodeWorker

open Storage

variable (s : NodeWorker)

@[simp] theorem result_close : s.close.result = s.result := by
  unfold close
  split <;> rfl

@[simp] theorem storage_close : s.close.storage = s.storage := by
  unfold close
  split <;> rfl

theorem poll_eq : worker.poll s = (s.result, { s with result := none }) := rfl

def opened (connection : DataConnection) (storage : Storage) (network : Network) : NodeWorker where
  transfer := { connection }
  storage := storage
  network := network

/-- A worker has a result, and if it is a status, the file of a path has gone out whole. -/
def HasSent (s : NodeWorker) (storage : Storage) (path : String) : Prop :=
  ∃ r, s.result = some r ∧ ∀ status, r = .ok status →
    ∃ location content, Location.resolve path = .ok location ∧ storage.Holds location content ∧
      s.sent = some content

theorem HasSent.of_error {s : NodeWorker} {e : TransferError} (h : s.result = some (.error e))
    (storage : Storage) (path : String) : s.HasSent storage path := by
  refine ⟨.error e, h, ?_⟩
  intro status eq
  cases eq

theorem hasSent_carryOut {storage : Storage} {path : String} {location : Location}
    (place : Location.resolve path = .ok location) {content : Except IoError (List UInt8)}
    (found : ∀ bytes, content = .ok bytes → storage.Holds location bytes)
    (arriving : List (List UInt8)) (want : Bool) :
    (s.carryOut arriving (.send content .binary want)).HasSent storage path := by
  unfold carryOut
  dsimp only
  cases ran : s.transfer.runSend .binary want (content.map FileTransfer.pieces)
    s.network.breaks 0 with
  | mk t rest =>
    obtain ⟨r, wire⟩ := rest
    refine ⟨r, rfl, ?_⟩
    intro status eq
    rw [eq] at ran
    obtain ⟨ps, cut, gone⟩ := FileTransfer.runSend_eq_ok ran
    cases content with
    | error e => cases cut
    | ok bytes =>
      have whole : ps.flatten = bytes := by
        rw [← Except.ok.inj cut, FileTransfer.flatten_pieces]
      refine ⟨location, bytes, place, found bytes rfl, ?_⟩
      exact congrArg some (gone.trans whole)

theorem hasSent_start {c : ActiveConnection} (dials : s.transfer.connection = .active c)
    (path : String) (want : Bool) :
    (s.start (.sendFile path .binary 0 want)).HasSent s.storage path := by
  rw [start]
  split
  · exact HasSent.of_error rfl _ _
  · rename_i task prepared
    obtain ⟨location, content, place, eq, found⟩ := FileTransfer.prepareSend_eq_ok prepared
    have whole : ∀ bytes, content = .ok bytes → s.storage.Holds location bytes := by
      intro bytes read
      obtain ⟨all, held, cut⟩ := found bytes read
      have none : bytes = all := cut
      rwa [none]
    rw [eq, connect]
    split
    · exact HasSent.of_error rfl _ _
    · exact hasSent_carryOut _ place whole [] want
    · rename_i t waits
      exact absurd (congrArg Prod.snd waits) (FileTransfer.attempt_active dials s.network)

def AwaitsFile (s : NodeWorker) (directory filename : String) : Prop :=
  (∃ e, s.result = some (.error e)) ∨
    s.result = none ∧ ∃ parent, Location.isFileName filename = true ∧ filename ≠ "." ∧
      Location.resolve directory = .ok parent ∧
      s.waiting = some (.receive (parent ++ [filename]) .binary) ∧
      s.storage.Holds (parent ++ [filename]) []

theorem awaitsFile_start {c : PassiveConnection} (listens : s.transfer.connection = .passive c)
    (nobody : s.peer = none) (idle : s.result = none) (directory filename : String) :
    (s.start (.receiveFile directory .binary filename 0)).AwaitsFile directory filename := by
  rw [start]
  split
  · exact .inl ⟨_, rfl⟩
  · rename_i storage task prepared
    obtain ⟨parent, name, plain, place, eq, held⟩ := FileTransfer.prepareReceive_eq_ok prepared
    rw [eq, connect]
    split
    · exact .inl ⟨_, rfl⟩
    · rename_i t connected
      exact absurd (congrArg Prod.snd connected) (FileTransfer.attempt_passive listens s.network)
    · rw [List.eq_nil_of_length_eq_zero (length_resize (0 : UInt64).toNat _)] at held
      dsimp only
      rw [nobody]
      exact .inr ⟨idle, parent, name, plain, place, rfl, held⟩

theorem dialled_of_waiting {l : Location} (waits : s.waiting = some (.receive l .binary))
    (held : s.storage.Holds l []) (arriving : List (List UInt8)) :
    ∃ r, (s.dialled arriving).result = some r ∧
      ∀ status, r = .ok status → (s.dialled arriving).storage.Holds l arriving.flatten := by
  rw [dialled, waits]
  dsimp only
  rw [result_close, storage_close, carryOut]
  cases ran : s.transfer.runReceive s.storage l .binary arriving s.network.breaks 0 with
  | mk t rest =>
    obtain ⟨storage, r⟩ := rest
    refine ⟨r, rfl, ?_⟩
    intro status eq
    rw [eq] at ran
    exact FileTransfer.runReceive_eq_ok held ran

end NodeWorker
end Archivist
