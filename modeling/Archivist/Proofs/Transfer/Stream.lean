import Archivist.Proofs.Storage.Files
import Archivist.Transfer.FileTransfer
set_option autoImplicit false

/-!
# What a transfer has moved

After some pieces a sender and a receiver are where the bytes in the pieces have brought them; how
the bytes were cut makes no difference (`Sending.After`, `Receiving.After`).  A sender has put on
the wire what becomes of these bytes there, and the file of a receiver holds what it held before
and behind it what becomes of the bytes that came.  Only a transfer that was not broken off reports
a status.
-/

namespace Archivist.FileTransfer

open Storage LineEnding

/-- The bytes of a file as they travel; the flag tells whether a carriage return went before. -/
def onWire : TransferMode → Bool → List UInt8 → List UInt8
  | .binary, _, bs => bs
  | .ascii, afterCr, bs => encode afterCr bs

/-- What is known of a file from the bytes that come; the flag tells whether a carriage return is
held back. -/
def offWire : TransferMode → Bool → List UInt8 → List UInt8
  | .binary, _, ws => ws
  | .ascii, held, ws => decode held ws

def fromWire : TransferMode → List UInt8 → List UInt8
  | .binary, ws => ws
  | .ascii, ws => decode false ws ++ flush (endsInCr false ws)

theorem onWire_append (mode : TransferMode) (f : Bool) (xs ys : List UInt8) :
    onWire mode f (xs ++ ys) = onWire mode f xs ++ onWire mode (endsInCr f xs) ys := by
  cases mode with
  | binary => rfl
  | ascii => exact encode_append f xs ys

theorem offWire_append (mode : TransferMode) (f : Bool) (xs ys : List UInt8) :
    offWire mode f (xs ++ ys) = offWire mode f xs ++ offWire mode (endsInCr f xs) ys := by
  cases mode with
  | binary => rfl
  | ascii => exact decode_append f xs ys

variable {t t' t₁ : FileTransfer} {mode : TransferMode} {want : Bool} {elapsed : UInt64}
  {status : TransferStatus}

theorem begin_eq_ok (h : t.begin = .ok t₁) : t₁ = { t with started := true } := by
  unfold begin at h
  split at h
  · cases h
  · split at h
    · cases h
    · exact (Except.ok.inj h).symm

/-- A sender that has sent some bytes of its file. -/
structure Sending.After (t : FileTransfer) (mode : TransferMode) (want : Bool) (bs : List UInt8)
    (s : Sending) : Prop where
  inMode : s.mode = mode
  summing : s.wantChecksum = want
  afterCr : s.afterCr = endsInCr false bs
  register : want = true → s.register = Checksum.update Checksum.start bs
  wire : s.written.reverse.flatten = onWire mode false bs
  count : s.transfer.transferred = t.transferred + UInt64.ofNat (onWire mode false bs).length
  sum : want = true → t.checksum = 0 → s.transfer.checksum = Checksum.crc32 bs

theorem Sending.after_start (t : FileTransfer) (mode : TransferMode) (want : Bool) :
    Sending.After t mode want [] { transfer := t, mode, wantChecksum := want } where
  inMode := rfl
  summing := rfl
  afterCr := rfl
  register _ := rfl
  wire := by cases mode <;> rfl
  count := by cases mode <;> exact (UInt64.add_zero _).symm
  sum _ zero := zero

theorem written_sendPiece (s : Sending) (p : List UInt8) :
    (sendPiece s p).written = onWire s.mode s.afterCr p :: s.written := by
  unfold sendPiece
  cases s.mode <;> rfl

theorem transferred_sendPiece (s : Sending) (p : List UInt8) :
    (sendPiece s p).transfer.transferred =
      s.transfer.transferred + UInt64.ofNat (onWire s.mode s.afterCr p).length := by
  unfold sendPiece
  cases s.mode <;> rfl

variable {s : Sending} {bs : List UInt8}

theorem Sending.After.piece (h : s.After t mode want bs) (p : List UInt8) :
    (sendPiece s p).After t mode want (bs ++ p) := by
  have register : want = true →
      (sendPiece s p).register = Checksum.update Checksum.start (bs ++ p) := by
    intro yes
    rw [Checksum.update_append, ← h.register yes]
    exact if_pos (h.summing.trans yes)
  refine ⟨h.inMode, h.summing, ?_, register, ?_, ?_, ?_⟩
  · rw [endsInCr_append, ← h.afterCr]
    rfl
  · rw [written_sendPiece, h.inMode, h.afterCr, List.reverse_cons, List.flatten_append, h.wire,
      onWire_append, List.flatten_singleton]
  · rw [transferred_sendPiece, h.inMode, h.afterCr, h.count, onWire_append, List.length_append,
      UInt64.ofNat_add, UInt64.add_assoc]
  · intro yes _
    have summed : (sendPiece s p).transfer.checksum = Checksum.sum (sendPiece s p).register :=
      if_pos (h.summing.trans yes)
    rw [summed, register yes, Checksum.crc32]

theorem Sending.After.pieces (h : s.After t mode want bs) (ps : List (List UInt8)) :
    (ps.foldl sendPiece s).After t mode want (bs ++ ps.flatten) := by
  induction ps generalizing s bs with
  | nil =>
    rw [List.flatten_nil, List.append_nil]
    exact h
  | cons p ps ih =>
    rw [List.flatten_cons, ← List.append_assoc]
    exact ih (h.piece p)

theorem runSend_of_begin (begun : t.begin = .ok t₁) (mode : TransferMode) (want : Bool)
    (elapsed : UInt64) (ps : List (List UInt8)) :
    ∃ t' status, t.runSend mode want (.ok ps) none elapsed =
        (t', .ok status, onWire mode false ps.flatten) ∧
      status.transferred = t.transferred + UInt64.ofNat (onWire mode false ps.flatten).length ∧
      (want = true → t.checksum = 0 → status.checksum = Checksum.crc32 ps.flatten) := by
  obtain rfl := begin_eq_ok begun
  have all := (Sending.after_start { t with started := true } mode want).pieces ps
  rw [List.nil_append] at all
  let s := ps.foldl sendPiece { transfer := { t with started := true }, mode, wantChecksum := want }
  refine ⟨(s.transfer.complete elapsed).1, (s.transfer.complete elapsed).2, ?_, all.count, all.sum⟩
  unfold runSend
  rw [begun, ← all.wire]

theorem runSend_eq_ok {content : Except IoError (List (List UInt8))}
    {breaks : Option Interruption} {wire : List UInt8}
    (h : t.runSend mode want content breaks elapsed = (t', .ok status, wire)) :
    ∃ ps, content = .ok ps ∧ wire = onWire mode false ps.flatten := by
  cases begun : t.begin with
  | error e =>
    rw [runSend, begun] at h
    cases h
  | ok t₁ =>
    cases content with
    | error e =>
      rw [runSend, begun] at h
      cases congrArg (fun r => r.2.1) h
    | ok ps =>
      cases breaks with
      | some i =>
        rw [runSend, begun] at h
        cases congrArg (fun r => r.2.1) h
      | none =>
        obtain ⟨t', status, ran, -⟩ := runSend_of_begin begun mode want elapsed ps
        exact ⟨ps, rfl, congrArg (fun r => r.2.2) (h.symm.trans ran)⟩

/-- A receiver to which some bytes have come. -/
structure Receiving.After (t : FileTransfer) (mode : TransferMode) (l : Location)
    (old ws : List UInt8) (r : Receiving) : Prop where
  inMode : r.mode = mode
  place : r.location = l
  held : mode = .ascii → r.held = endsInCr false ws
  register : r.register = Checksum.update Checksum.start (offWire mode false ws)
  stored : r.storage.Holds l (old ++ offWire mode false ws)
  count : r.transfer.transferred = t.transferred + UInt64.ofNat ws.length
  sum : t.checksum = 0 → r.transfer.checksum = Checksum.crc32 (offWire mode false ws)

variable {l : Location} {old ws : List UInt8}

theorem Receiving.after_start (t : FileTransfer) (mode : TransferMode) {s : Storage}
    (held : s.Holds l old) :
    Receiving.After t mode l old [] { transfer := t, storage := s, location := l, mode } := by
  have hnone : offWire mode false [] = [] := by cases mode <;> rfl
  refine ⟨rfl, rfl, fun _ => rfl, by rw [hnone]; rfl, ?_, (UInt64.add_zero _).symm, ?_⟩
  · rwa [hnone, List.append_nil]
  · intro zero
    rw [hnone]
    exact zero

variable {r : Receiving}

theorem Receiving.After.piece (h : r.After t mode l old ws) (p : List UInt8) :
    (receivePiece r p).After t mode l old (ws ++ p) := by
  obtain ⟨transfer, storage, location, m, held, register⟩ := r
  obtain ⟨rfl, rfl, waits, before, stored, count, -⟩ := h
  have counted : transfer.transferred + UInt64.ofNat p.length =
      t.transferred + UInt64.ofNat (ws ++ p).length := by
    rw [count, List.length_append, UInt64.ofNat_add, UInt64.add_assoc]
  have more := stored.append (offWire m (endsInCr false ws) p)
  have summed := congrArg (Checksum.update · (offWire m (endsInCr false ws) p)) before
  rw [List.append_assoc, ← offWire_append] at more
  rw [← Checksum.update_append, ← offWire_append] at summed
  have sum (_ : t.checksum = 0) := congrArg Checksum.sum summed
  cases m with
  | binary => exact ⟨rfl, rfl, fun ascii => (by cases ascii), summed, more, counted, sum⟩
  | ascii =>
    obtain rfl : held = endsInCr false ws := waits rfl
    exact ⟨rfl, rfl, fun _ => (endsInCr_append false ws p).symm, summed, more, counted, sum⟩

theorem Receiving.After.pieces (h : r.After t mode l old ws) (ps : List (List UInt8)) :
    (ps.foldl receivePiece r).After t mode l old (ws ++ ps.flatten) := by
  induction ps generalizing r ws with
  | nil =>
    rw [List.flatten_nil, List.append_nil]
    exact h
  | cons p ps ih =>
    rw [List.flatten_cons, ← List.append_assoc]
    exact ih (h.piece p)

theorem Receiving.After.flushed (h : r.After t mode l old ws) :
    (flushHeld r).storage.Holds l (old ++ fromWire mode ws) ∧
      (flushHeld r).transfer.transferred = t.transferred + UInt64.ofNat ws.length ∧
      (t.checksum = 0 → (flushHeld r).transfer.checksum = Checksum.crc32 (fromWire mode ws)) := by
  obtain ⟨transfer, storage, location, m, held, register⟩ := r
  obtain ⟨rfl, rfl, waits, summed, stored, count, sum⟩ := h
  cases m with
  | binary => exact ⟨stored, count, sum⟩
  | ascii =>
    obtain rfl : held = endsInCr false ws := waits rfl
    have known : fromWire .ascii ws = offWire .ascii false ws ++ flush (endsInCr false ws) := rfl
    cases back : endsInCr false ws with
    | false =>
      rw [back, flush, if_neg Bool.false_ne_true, List.append_nil] at known
      rw [known]
      exact ⟨stored, count, sum⟩
    | true =>
      rw [back] at known
      have more := stored.append (flush true)
      have summed := congrArg (Checksum.update · (flush true)) summed
      rw [← Checksum.update_append, ← known] at summed
      rw [List.append_assoc, ← known] at more
      exact ⟨more, count, fun _ => congrArg Checksum.sum summed⟩

theorem runReceive_of_begin (begun : t.begin = .ok t₁) {s : Storage} (held : s.Holds l old)
    (mode : TransferMode) (elapsed : UInt64) (arriving : List (List UInt8)) :
    ∃ t' s' status, t.runReceive s l mode arriving none elapsed = (t', s', .ok status) ∧
      s'.Holds l (old ++ fromWire mode arriving.flatten) ∧
      status.transferred = t.transferred + UInt64.ofNat arriving.flatten.length ∧
      (t.checksum = 0 → status.checksum = Checksum.crc32 (fromWire mode arriving.flatten)) := by
  obtain rfl := begin_eq_ok begun
  have all := (Receiving.after_start { t with started := true } mode held).pieces arriving
  obtain ⟨stored, count, sum⟩ := all.flushed
  let r := flushHeld (arriving.foldl receivePiece
    { transfer := { t with started := true }, storage := s, location := l, mode })
  refine ⟨(r.transfer.complete elapsed).1, r.storage, (r.transfer.complete elapsed).2, ?_, stored,
    count, sum⟩
  unfold runReceive
  rw [begun]

theorem runReceive_eq_ok {s s' : Storage} {content : List UInt8} (old : s.Holds l content)
    {arriving : List (List UInt8)} {breaks : Option Interruption}
    (h : t.runReceive s l mode arriving breaks elapsed = (t', s', .ok status)) :
    s'.Holds l (content ++ fromWire mode arriving.flatten) := by
  cases begun : t.begin with
  | error e =>
    rw [runReceive, begun] at h
    cases h
  | ok t₁ =>
    cases breaks with
    | some i =>
      rw [runReceive, begun] at h
      cases congrArg (fun r => r.2.2) h
    | none =>
      obtain ⟨t', s'', status, ran, stored, -⟩ :=
        runReceive_of_begin begun old mode elapsed arriving
      have same : s' = s'' := congrArg (fun r => r.2.1) (h.symm.trans ran)
      rwa [same]

end Archivist.FileTransfer
