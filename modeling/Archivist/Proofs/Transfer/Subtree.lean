import Archivist.Proofs.Storage.Subtree
import Archivist.Proofs.Transfer.Rooted
set_option autoImplicit false

namespace Archivist

open Pathname

def TransferTask.under (place : Location) : TransferTask → TransferTask
  | .send content mode want => .send content mode want
  | .receive l mode => .receive (place ++ l) mode

namespace FileTransfer

variable {s : Storage} {root : String} {place : Location}

theorem prepareSendAt_subtree (h : s.LeadsTo (parts root) place) (filled : root ≠ "")
    (text : String) (mode : TransferMode) (resume : UInt64) (want : Bool) :
    (prepareSendAt root s text mode resume want).2 =
      prepareSend (s.subtree place) text mode resume want := by
  rw [prepareSendAt_eq h filled, prepareSend_eq]
  cases Location.resolve text with
  | error e => rfl
  | ok l =>
    dsimp only
    rw [Storage.openItem_subtree h.directory]

theorem prepareReceiveAt_subtree (h : s.LeadsTo (parts root) place) (directory : String)
    (mode : TransferMode) (filename : String) (offset : UInt64) :
    let ready := (prepareReceiveAt root s directory mode filename offset).2
    let inner := prepareReceive (s.subtree place) directory mode filename offset
    ready.1.get? place = some .directory ∧ ready.1.subtree place = inner.1 ∧
      ready.2 = inner.2.map (TransferTask.under place) := by
  intro ready inner
  have ready_eq : ready = _ := prepareReceiveAt_eq h directory mode filename offset
  have inner_eq : inner = _ := prepareReceive_eq (s.subtree place) directory mode filename offset
  have there := (Storage.find_eq_get? h.directory).symm
  rw [ready_eq, inner_eq]
  split
  · exact ⟨there, rfl, rfl⟩
  cases Location.resolve directory with
  | error e => exact ⟨there, rfl, rfl⟩
  | ok parent =>
    have spared := Storage.spares_makeDirectories [] s (place ++ parent)
    dsimp only
    rw [Storage.makeDirectories_subtree h.directory]
    rcases along : s.makeDirectories (place ++ parent) with ⟨made, e | ⟨⟩⟩ <;> rw [along] at spared
    · exact ⟨spared.directories _ there, rfl, rfl⟩
    · have there := spared.directories _ there
      have found := Storage.find_directory_spared spared h.directory
      dsimp only
      split
      · exact ⟨there, rfl, rfl⟩
      · have ne : place ++ (parent ++ [filename]) ≠ [] := by simp
        have spared := Storage.spares_openFile ne made
        rw [Storage.openFile_subtree found]
        rcases handle : made.openFile (place ++ (parent ++ [filename])) with ⟨opened, e | ⟨⟩⟩ <;>
          rw [handle] at spared
        · exact ⟨spared.directories _ there, rfl, rfl⟩
        · have there := spared.directories _ there
          have spared := Storage.spares_setLength ne opened offset.toNat
          dsimp only
          rw [Storage.setLength_subtree there]
          rcases ended : opened.setLength (place ++ (parent ++ [filename])) offset.toNat with
            ⟨cut, e | ⟨⟩⟩ <;> rw [ended] at spared
          · exact ⟨spared.directories _ there, rfl, rfl⟩
          · exact ⟨spared.directories _ there, rfl, rfl⟩

/-- The same file is received below a place and in the storage that lies there. -/
structure Mirrors (place : Location) (r r' : Receiving) : Prop where
  there : r.storage.get? place = some .directory
  location : r.location = place ++ r'.location
  same : r' = { r with storage := r.storage.subtree place, location := r'.location }

variable {r r' : Receiving}

theorem Mirrors.keep (h : Mirrors place r r') (data : List UInt8) :
    Mirrors place (keep r data) (keep r' data) := by
  refine ⟨Storage.get?_append_of_directory h.there _ _, h.location, ?_⟩
  rw [h.same]
  unfold FileTransfer.keep
  dsimp only
  rw [Storage.append_subtree h.there, h.location]

theorem Mirrors.count (h : Mirrors place r r') (n : Nat) :
    Mirrors place
      { r with transfer := { r.transfer with
        transferred := r.transfer.transferred + UInt64.ofNat n } }
      { r' with transfer := { r'.transfer with
        transferred := r'.transfer.transferred + UInt64.ofNat n } } := by
  refine ⟨h.there, h.location, ?_⟩
  rw [h.same]

theorem Mirrors.hold (h : Mirrors place r r') (held : Bool) :
    Mirrors place { r with held } { r' with held } := by
  refine ⟨h.there, h.location, ?_⟩
  rw [h.same]

theorem Mirrors.mode_eq (h : Mirrors place r r') : r'.mode = r.mode := by rw [h.same]

theorem Mirrors.held_eq (h : Mirrors place r r') : r'.held = r.held := by rw [h.same]

theorem Mirrors.transfer_eq (h : Mirrors place r r') : r'.transfer = r.transfer := by rw [h.same]

theorem Mirrors.storage_eq (h : Mirrors place r r') : r'.storage = r.storage.subtree place := by
  rw [h.same]

theorem Mirrors.receivePiece (h : Mirrors place r r') (piece : List UInt8) :
    Mirrors place (receivePiece r piece) (receivePiece r' piece) := by
  have counted := h.count piece.length
  unfold FileTransfer.receivePiece
  rw [h.mode_eq, h.held_eq] at counted ⊢
  dsimp only
  generalize r.mode = mode at counted ⊢
  cases mode with
  | binary => exact counted.keep piece
  | ascii => exact (counted.keep _).hold _

theorem Mirrors.pieces (h : Mirrors place r r') (ps : List (List UInt8)) :
    Mirrors place (ps.foldl FileTransfer.receivePiece r)
      (ps.foldl FileTransfer.receivePiece r') := by
  induction ps generalizing r r' with
  | nil => exact h
  | cons p ps ih => exact ih (h.receivePiece p)

theorem Mirrors.flushHeld (h : Mirrors place r r') :
    Mirrors place (flushHeld r) (flushHeld r') := by
  unfold FileTransfer.flushHeld
  rw [h.mode_eq, h.held_eq]
  split
  · exact (h.keep _).hold _
  · exact h

theorem runReceive_subtree (there : s.get? place = some .directory) (t : FileTransfer)
    (l : Location) (mode : TransferMode) (arriving : List (List UInt8))
    (breaks : Option Interruption) (elapsed : UInt64) :
    let outer := t.runReceive s (place ++ l) mode arriving breaks elapsed
    t.runReceive (s.subtree place) l mode arriving breaks elapsed =
      (outer.1, outer.2.1.subtree place, outer.2.2) := by
  intro outer
  unfold outer runReceive
  cases t.begin with
  | error e => rfl
  | ok t =>
    have first : Mirrors place { transfer := t, storage := s, location := place ++ l, mode }
        { transfer := t, storage := s.subtree place, location := l, mode } := ⟨there, rfl, rfl⟩
    cases breaks with
    | some i =>
      have cut := first.pieces (arriving.take i.after)
      dsimp only
      rw [cut.transfer_eq, cut.storage_eq]
    | none =>
      have whole := (first.pieces arriving).flushHeld
      dsimp only
      rw [whole.transfer_eq, whole.storage_eq]

theorem receiveReady_under (there : s.get? place = some .directory) (t : FileTransfer)
    (net : Network) (peer : Option (List (List UInt8))) (elapsed : UInt64)
    (task : Except TransferError TransferTask) :
    let outer := t.receiveReady net peer elapsed (s, task.map (TransferTask.under place))
    t.receiveReady net peer elapsed (s.subtree place, task) =
      (outer.1, outer.2.1.subtree place, outer.2.2) := by
  intro outer
  unfold outer receiveReady
  rcases task with e | ⟨content, mode, want⟩ | ⟨l, mode⟩
  · rfl
  · rfl
  · have moved := fun t arriving =>
      runReceive_subtree there t l mode arriving net.breaks elapsed
    dsimp only [Except.map, TransferTask.under]
    split
    · rfl
    · exact moved _ _
    · split
      · exact moved _ _
      · rfl

/-- Below a root that is there a call does what it does in a storage of its own. -/
theorem receiveReady_subtree (h : s.LeadsTo (parts root) place) (t : FileTransfer) (net : Network)
    (peer : Option (List (List UInt8))) (directory : String) (mode : TransferMode)
    (filename : String) (offset elapsed : UInt64) :
    let outer := t.receiveReady net peer elapsed
      (prepareReceiveAt root s directory mode filename offset).2
    t.receiveFile (s.subtree place) net peer directory mode filename offset elapsed =
      (outer.1, outer.2.1.subtree place, outer.2.2) := by
  intro outer
  obtain ⟨there, storage, task⟩ := prepareReceiveAt_subtree h directory mode filename offset
  have whole := receiveReady_under there t net peer elapsed
    (prepareReceive (s.subtree place) directory mode filename offset).2
  rw [storage, ← task] at whole
  exact whole

end FileTransfer
end Archivist
