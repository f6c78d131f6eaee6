import Archivist.Proofs.Transfer.Connecting
import Archivist.Proofs.Transfer.Places
set_option autoImplicit false

/-!
# What a transfer fails with

A transfer whose path is misplaced is refused for that and for nothing else, and the failure repeats
the path.  Every other failure that a transfer finds by itself is brief.
-/

namespace Archivist

/-- What a request names that lies, or may lie, outside the storage. -/
def Request.misplaced : Request → Option String
  | .sendFile path _ _ _ => if ".." ∈ Location.names path then some path else none
  | .receiveFile directory _ filename _ =>
    if Location.isFileName filename = false then some filename
    else if ".." ∈ Location.names directory then some directory
    else none
  | _ => none

/-- A request is longer than what it names, but not by as much as the answer that refuses it. -/
theorem Request.length_of_misplaced {r : Request} {p : String} (h : r.misplaced = some p)
    (id : UInt64) : 47 + Wire.size p ≤ (Wire.putRequestFrame ⟨id, r⟩).length + 14 := by
  cases r with
  | sendFile path mode resume want =>
    unfold misplaced at h
    dsimp only at h
    split at h
    · cases h
      rw [Wire.length_sendFile]
      omega
    · cases h
  | receiveFile directory mode filename offset =>
    unfold misplaced at h
    dsimp only at h
    rw [Wire.length_receiveFile]
    split at h
    · cases h
      omega
    · split at h
      · cases h
        omega
      · cases h
  | _ => cases h

section Reports

variable {α β : Type} {r : Request}

/-- What comes of a request: it is refused for what it names, or it fails with few words. -/
def Request.Reports (r : Request) (result : Except TransferError α) : Prop :=
  match r.misplaced with
  | some p => result = .error (.invalidPath p)
  | none => ∀ e, result = .error e → e.Brief

namespace Request.Reports

theorem of_brief (placed : r.misplaced = none) {result : Except TransferError α}
    (brief : ∀ e, result = .error e → e.Brief) : r.Reports result := by
  unfold Reports
  rw [placed]
  exact brief

theorem of_brief_error (placed : r.misplaced = none) {e : TransferError} (brief : e.Brief) :
    r.Reports (.error e : Except TransferError α) := by
  refine of_brief placed fun e' eq => ?_
  cases eq
  exact brief

theorem placed {a : α} (h : r.Reports (.ok a : Except TransferError α)) : r.misplaced = none := by
  cases named : r.misplaced with
  | none => rfl
  | some p =>
    unfold Reports at h
    rw [named] at h
    cases h

theorem error {e : TransferError} (h : r.Reports (.error e : Except TransferError α)) :
    r.Reports (.error e : Except TransferError β) := by
  unfold Reports at h ⊢
  cases named : r.misplaced with
  | none =>
    rw [named] at h
    intro e' eq
    cases eq
    exact h e rfl
  | some p =>
    rw [named] at h
    cases h
    rfl

theorem fits_iff {result : Except TransferError TransferStatus} (h : r.Reports result)
    (id : UInt64) :
    Wire.answers.Fits ⟨id, .ofResult result⟩ ↔
      ∀ p, r.misplaced = some p → 47 + Wire.size p ≤ Wire.limit := by
  unfold Reports at h
  cases named : r.misplaced with
  | none =>
    rw [named] at h
    refine iff_of_true ?_ fun p eq => by cases eq
    cases result with
    | ok status => exact Response.fits_status id status
    | error e => exact Response.fits_of_brief id (h e rfl)
  | some p =>
    rw [named] at h
    have refused : result = .error (.invalidPath p) := h
    rw [refused]
    refine (Response.fits_invalidPath id p).trans ⟨fun fits q eq => ?_, fun fits => fits p rfl⟩
    cases eq
    exact fits

theorem length_refusal {result : Except TransferError TransferStatus} (h : r.Reports result)
    {p : String} (named : r.misplaced = some p) (id : UInt64) :
    (Wire.putResponseFrame ⟨id, .ofResult result⟩).length = 47 + Wire.size p := by
  unfold Reports at h
  rw [named] at h
  have refused : result = .error (.invalidPath p) := h
  rw [refused, Response.ofResult, Response.ofError, Wire.length_error,
    TransferError.size_invalidPath, ← Nat.add_assoc]

end Request.Reports
end Reports

def TransferTask.Plain : TransferTask → Prop
  | .send (.error e) _ _ => e.Fixed
  | _ => True

namespace FileTransfer

variable {storage : Storage}

theorem reports_prepareSend (storage : Storage) (path : String) (mode : TransferMode)
    (resume : UInt64) (want : Bool) :
    (Request.sendFile path mode resume want).Reports
      (prepareSend storage path mode resume want) := by
  rw [prepareSend_eq]
  unfold Request.Reports Request.misplaced Location.resolve
  dsimp only
  by_cases climbs : ".." ∈ Location.names path
  · rw [if_pos climbs, if_pos climbs]
  · rw [if_neg climbs, if_neg climbs]
    intro e failed
    dsimp only at failed
    split at failed
    · rename_i missing
      cases failed
      exact (Storage.fixed_openItem missing).brief
    · unfold sendItem at failed
      split at failed
      · cases failed
        exact IoError.Fixed.brief trivial
      · split at failed <;> cases failed

theorem plain_prepareSend {path : String} {mode : TransferMode} {resume : UInt64} {want : Bool}
    {task : TransferTask} (h : prepareSend storage path mode resume want = .ok task) :
    task.Plain := by
  rw [prepareSend_eq] at h
  cases resolved : Location.resolve path with
  | error e =>
    rw [resolved] at h
    cases h
  | ok location =>
    rw [resolved] at h
    dsimp only at h
    split at h
    · cases h
    · unfold sendItem at h
      split at h
      · cases h
      · split at h
        · cases h
          trivial
        · cases h
          trivial

theorem reports_prepareReceive (storage : Storage) (directory : String) (mode : TransferMode)
    (filename : String) (offset : UInt64) :
    (Request.receiveFile directory mode filename offset).Reports
      (prepareReceive storage directory mode filename offset).2 := by
  rw [prepareReceive_eq]
  unfold Request.Reports Request.misplaced Location.resolve
  dsimp only
  cases named : Location.isFileName filename with
  | false => rfl
  | true =>
    by_cases climbs : ".." ∈ Location.names directory
    · rw [if_pos climbs, if_pos climbs]
      rfl
    · rw [if_neg climbs, if_neg climbs]
      intro e failed
      rw [if_neg (by decide)] at failed
      dsimp only at failed
      split at failed
      · rename_i missing
        cases failed
        exact (Storage.fixed_makeDirectories missing).brief
      · split at failed
        · cases failed
          exact IoError.Fixed.brief trivial
        · split at failed
          · rename_i missing
            cases failed
            exact (Storage.fixed_openFile missing).brief
          · split at failed
            · rename_i missing
              cases failed
              exact (Storage.fixed_setLength missing).brief
            · cases failed

theorem plain_prepareReceive {storage' : Storage} {directory filename : String}
    {mode : TransferMode} {offset : UInt64} {task : TransferTask}
    (h : prepareReceive storage directory mode filename offset = (storage', .ok task)) :
    task.Plain := by
  obtain ⟨parent, -, -, -, rfl, -⟩ := prepareReceive_eq_ok h
  trivial

theorem connection_sent (s : Sending) (ps : List (List UInt8)) :
    (ps.foldl sendPiece s).transfer.connection = s.transfer.connection := by
  induction ps generalizing s with
  | nil => rfl
  | cons p ps ih => exact ih (sendPiece s p)

theorem connection_receivePiece (r : Receiving) (p : List UInt8) :
    (receivePiece r p).transfer.connection = r.transfer.connection := by
  unfold receivePiece
  dsimp only
  cases r.mode <;> rfl

theorem connection_received (r : Receiving) (ps : List (List UInt8)) :
    (ps.foldl receivePiece r).transfer.connection = r.transfer.connection := by
  induction ps generalizing r with
  | nil => rfl
  | cons p ps ih => rw [List.foldl_cons, ih, connection_receivePiece]

theorem connection_flushHeld (r : Receiving) :
    (flushHeld r).transfer.connection = r.transfer.connection := by
  unfold flushHeld
  split <;> rfl

theorem connection_begin {t t₁ : FileTransfer} (h : t.begin = .ok t₁) :
    t₁.connection = t.connection := by
  rw [begin_eq_ok h]

theorem connection_runSend (t : FileTransfer) (mode : TransferMode) (want : Bool)
    (content : Except IoError (List (List UInt8))) (breaks : Option Interruption)
    (elapsed : UInt64) :
    (t.runSend mode want content breaks elapsed).1.connection = t.connection := by
  unfold runSend
  split
  · rfl
  · rename_i begun
    have same := connection_begin begun
    split
    · exact same
    · exact (connection_sent _ _).trans same
    · exact (connection_sent _ _).trans same

theorem connection_runReceive (t : FileTransfer) (storage : Storage) (l : Location)
    (mode : TransferMode) (arriving : List (List UInt8)) (breaks : Option Interruption)
    (elapsed : UInt64) :
    (t.runReceive storage l mode arriving breaks elapsed).1.connection = t.connection := by
  unfold runReceive
  split
  · rfl
  · rename_i begun
    have same := connection_begin begun
    split
    · exact (connection_received _ _).trans same
    · exact (connection_flushHeld _).trans ((connection_received _ _).trans same)

theorem brief_runSend {t : FileTransfer} {mode : TransferMode} {want : Bool}
    {content : Except IoError (List UInt8)} (plain : (TransferTask.send content mode want).Plain)
    {breaks : Option Interruption} (short : ∀ i, breaks = some i → i.error.Brief)
    {elapsed : UInt64} {e : TransferError}
    (h : (t.runSend mode want (content.map pieces) breaks elapsed).2.1 = .error e) : e.Brief := by
  unfold runSend at h
  split at h
  · rename_i begun
    cases h
    exact brief_begin begun
  · cases content with
    | error e' =>
      cases h
      exact IoError.Fixed.brief plain
    | ok bytes =>
      cases breaks with
      | none => cases h
      | some i =>
        cases h
        exact short i rfl

theorem brief_runReceive {t : FileTransfer} {location : Location} {mode : TransferMode}
    {arriving : List (List UInt8)} {breaks : Option Interruption}
    (short : ∀ i, breaks = some i → i.error.Brief) {elapsed : UInt64} {e : TransferError}
    (h : (t.runReceive storage location mode arriving breaks elapsed).2.2 = .error e) :
    e.Brief := by
  unfold runReceive at h
  split at h
  · rename_i begun
    cases h
    exact brief_begin begun
  · cases breaks with
    | none => cases h
    | some i =>
      cases h
      exact short i rfl

end FileTransfer
end Archivist
