import Archivist.Proofs.Transfer.Resumption
set_option autoImplicit false

namespace Archivist

namespace LineEnding

/-- The bytes without the carriage returns that stand right before a line feed. -/
def withoutReturns : List UInt8 → List UInt8
  | [] => []
  | b :: bs =>
    if b = cr ∧ bs.head? = some lf then withoutReturns bs else b :: withoutReturns bs

theorem decode_flush (held : Bool) (bs : List UInt8) :
    decode held bs ++ flush (endsInCr held bs) = withoutReturns (flush held ++ bs) := by
  induction bs generalizing held with
  | nil => cases held <;> rfl
  | cons b bs ih =>
    -- A carriage return waits for the byte behind it, and any other byte is kept at once.
    have plain : decode false (b :: bs) ++ flush (endsInCr false (b :: bs)) =
        withoutReturns (b :: bs) := by
      by_cases hcr : b = cr
      · subst hcr
        exact ih true
      · have kept : decode false (b :: bs) = b :: decode false bs := by
          simp [decode, hcr]
        rw [kept, endsInCr, decide_eq_false hcr, List.cons_append, ih false, withoutReturns,
          if_neg fun both => hcr both.1]
        rfl
    cases held with
    | false => exact plain
    | true =>
      have front : decode true (b :: bs) =
          (if b = lf then [] else [cr]) ++ decode false (b :: bs) := by
        by_cases feed : b = lf <;> by_cases hcr : b = cr <;> simp [decode, feed, hcr]
      change decode true (b :: bs) ++ flush (endsInCr false (b :: bs)) =
        withoutReturns (cr :: b :: bs)
      have two : withoutReturns (cr :: b :: bs) =
          (if b = lf then [] else [cr]) ++ withoutReturns (b :: bs) := by
        conv_lhs => rw [withoutReturns, List.head?_cons]
        by_cases feed : b = lf <;> simp [feed]
      rw [front, List.append_assoc, plain, two]

theorem length_le_withoutReturns (bs : List UInt8) : bs.length ≤ 2 * (withoutReturns bs).length := by
  have counted : bs.length + (if bs.head? = some lf then 1 else 0) ≤
      2 * (withoutReturns bs).length := by
    induction bs with
    | nil => exact Nat.le_refl _
    | cons b bs ih =>
      rw [List.head?_cons, List.length_cons, withoutReturns]
      by_cases pair : b = cr ∧ bs.head? = some lf
      · have other : ¬ some b = some lf := by
          rw [pair.1]
          decide
        rw [if_pos pair, if_neg other]
        rw [if_pos pair.2] at ih
        exact ih
      · rw [if_neg pair, List.length_cons]
        split <;> omega
  omega

end LineEnding

namespace FileTransfer

open Storage LineEnding

/-- The bytes of a file that a stream stands for. -/
def received : TransferMode → List UInt8 → List UInt8
  | .binary, w => w
  | .ascii, w => withoutReturns w

theorem fromWire_eq_received (mode : TransferMode) (w : List UInt8) :
    fromWire mode w = received mode w := by
  cases mode with
  | binary => rfl
  | ascii => exact decode_flush false w

theorem length_le_received (mode : TransferMode) (w : List UInt8) :
    w.length ≤ 2 * (received mode w).length := by
  cases mode with
  | binary => exact Nat.le_mul_of_pos_left _ (by decide)
  | ascii => exact length_le_withoutReturns w

/-! ## The rest of the storage -/

theorem spares_receivePiece {r : Receiving} (ne : r.location ≠ []) (p : List UInt8) :
    (receivePiece r p).location = r.location ∧
      Spares r.location r.storage (receivePiece r p).storage := by
  unfold receivePiece
  dsimp only
  cases r.mode with
  | binary => exact ⟨rfl, spares_append ne _ _⟩
  | ascii => exact ⟨rfl, spares_append ne _ _⟩

theorem spares_pieces {r : Receiving} (ne : r.location ≠ []) (ps : List (List UInt8)) :
    (ps.foldl receivePiece r).location = r.location ∧
      Spares r.location r.storage (ps.foldl receivePiece r).storage := by
  induction ps generalizing r with
  | nil => exact ⟨rfl, .refl _ _⟩
  | cons p ps ih =>
    obtain ⟨same, first⟩ := spares_receivePiece ne p
    obtain ⟨rest, later⟩ := ih (same.symm ▸ ne)
    rw [same] at later
    exact ⟨rest.trans same, first.trans later⟩

theorem spares_flushHeld {r : Receiving} (ne : r.location ≠ []) :
    Spares r.location r.storage (flushHeld r).storage := by
  unfold flushHeld
  split
  · exact spares_append ne _ _
  · exact .refl _ _

variable {t t' : FileTransfer} {storage after : Storage} {l : Location} {mode : TransferMode}
  {elapsed : UInt64} {status : TransferStatus}

/-- A receiver touches no file but its own, however it ends. -/
theorem spares_runReceive (ne : l ≠ []) (t : FileTransfer) (storage : Storage)
    (mode : TransferMode) (arriving : List (List UInt8)) (breaks : Option Interruption)
    (elapsed : UInt64) :
    Spares l storage (t.runReceive storage l mode arriving breaks elapsed).2.1 := by
  unfold runReceive
  split
  · exact .refl _ _
  · rename_i begun _
    let r : Receiving := { transfer := begun, storage, location := l, mode }
    split
    · rename_i i
      exact (spares_pieces (r := r) ne (arriving.take i.after)).2
    · obtain ⟨same, pieces⟩ := spares_pieces (r := r) ne arriving
      have held := spares_flushHeld (r := arriving.foldl receivePiece r) (by rw [same]; exact ne)
      rw [same] at held
      exact pieces.trans held

/-! ## One transfer for each connection -/

/-- A transfer after whatever use was made of it. -/
inductive Made : FileTransfer → Prop where
  | fresh (connection : DataConnection) : Made { connection }
  | abort {t : FileTransfer} (made : Made t) : Made t.abort
  | sendFile {t : FileTransfer} (made : Made t) (storage : Storage) (net : Network)
      (path : String) (mode : TransferMode) (resume : UInt64) (want : Bool) (elapsed : UInt64) :
      Made (t.sendFile storage net path mode resume want elapsed).1
  | receiveFile {t : FileTransfer} (made : Made t) (storage : Storage) (net : Network)
      (peer : Option (List (List UInt8))) (directory : String) (mode : TransferMode)
      (filename : String) (offset elapsed : UInt64) :
      Made (t.receiveFile storage net peer directory mode filename offset elapsed).1

def Unmoved (t : FileTransfer) : Prop :=
  t.started = false → t.transferred = 0 ∧ t.checksum = 0

theorem Unmoved.of_started (h : t.started = true) : t.Unmoved :=
  fun idle => absurd (h.symm.trans idle) Bool.noConfusion

theorem started_of_begin {t₁ : FileTransfer} (h : t.begin = .ok t₁) : t₁.started = true := by
  rw [begin_eq_ok h]

theorem started_sent (s : Sending) (ps : List (List UInt8)) :
    (ps.foldl sendPiece s).transfer.started = s.transfer.started := by
  induction ps generalizing s with
  | nil => rfl
  | cons p ps ih => exact ih (sendPiece s p)

theorem started_received (r : Receiving) (ps : List (List UInt8)) :
    (ps.foldl receivePiece r).transfer.started = r.transfer.started := by
  induction ps generalizing r with
  | nil => rfl
  | cons p ps ih =>
    rw [List.foldl_cons, ih]
    unfold receivePiece
    dsimp only
    cases r.mode <;> rfl

theorem started_flushHeld (r : Receiving) :
    (flushHeld r).transfer.started = r.transfer.started := by
  unfold flushHeld
  split <;> rfl

theorem Unmoved.runSend (h : t.Unmoved) (mode : TransferMode) (want : Bool)
    (content : Except IoError (List (List UInt8))) (breaks : Option Interruption)
    (elapsed : UInt64) : (t.runSend mode want content breaks elapsed).1.Unmoved := by
  unfold FileTransfer.runSend
  split
  · exact h
  · rename_i begun
    have started := started_of_begin begun
    split
    · exact .of_started started
    · exact .of_started ((started_sent _ _).trans started)
    · exact .of_started ((started_sent _ _).trans started)

theorem Unmoved.runReceive (h : t.Unmoved) (storage : Storage) (l : Location)
    (mode : TransferMode) (arriving : List (List UInt8)) (breaks : Option Interruption)
    (elapsed : UInt64) : (t.runReceive storage l mode arriving breaks elapsed).1.Unmoved := by
  unfold FileTransfer.runReceive
  split
  · exact h
  · rename_i begun
    have started := started_of_begin begun
    split
    · exact .of_started ((started_received _ _).trans started)
    · exact .of_started ((started_flushHeld _).trans ((started_received _ _).trans started))

theorem Unmoved.attempt (h : t.Unmoved) (net : Network) : (t.attempt net).1.Unmoved := h

theorem Made.unmoved (made : t.Made) : t.Unmoved := by
  induction made with
  | fresh connection => exact fun _ => ⟨rfl, rfl⟩
  | abort _ ih => exact ih
  | sendFile _ storage net path mode resume want elapsed ih =>
    unfold FileTransfer.sendFile
    have used := ih.attempt net
    split
    · exact ih
    · exact ih
    · split
      · rename_i failed
        rwa [failed] at used
      · rename_i waits
        rwa [waits] at used
      · rename_i stands
        rw [stands] at used
        exact used.runSend _ _ _ _ _
  | receiveFile _ storage net peer directory mode filename offset elapsed ih =>
    unfold FileTransfer.receiveFile FileTransfer.receiveReady
    have used := ih.attempt net
    split
    · exact ih
    · exact ih
    · split
      · rename_i failed
        rwa [failed] at used
      · rename_i stands
        rw [stands] at used
        exact used.runReceive _ _ _ _ _ _
      · rename_i waits
        rw [waits] at used
        split
        · exact used.runReceive _ _ _ _ _ _
        · exact used

/-! ## The whole call -/

/-- The transfer gets its data connection: it dials and is heard, or it listens and is dialled. -/
def Connects (t : FileTransfer) (net : Network) (peer : Option (List (List UInt8))) : Prop :=
  (t.attempt net).2 = .connected ∨
    (t.attempt net).2 = .waiting ∧ net.reach = .loopback ∧ peer.isSome = true

theorem receiveFile_of_connects {net : Network} {arriving : List (List UInt8)}
    (connects : t.Connects net (some arriving)) {directory filename : String} {offset : UInt64}
    (ready : prepareReceive storage directory mode filename offset =
      (after, .ok (.receive l mode))) :
    t.receiveFile storage net (some arriving) directory mode filename offset elapsed =
      (t.attempt net).1.runReceive after l mode arriving net.breaks elapsed := by
  unfold receiveFile receiveReady
  rw [ready]
  dsimp only
  rcases used : t.attempt net with ⟨t₁, a⟩
  rw [Connects, used] at connects
  obtain rfl | ⟨rfl, near, -⟩ := connects
  · rfl
  · dsimp only
    rw [near]

theorem receiveFile_of_not_connects {net : Network} {peer : Option (List (List UInt8))}
    (alone : ¬ t.Connects net peer) (directory : String) (mode : TransferMode) (filename : String)
    (offset elapsed : UInt64) :
    ∃ t' e, t.receiveFile storage net peer directory mode filename offset elapsed =
      (t', (prepareReceive storage directory mode filename offset).1, .error e) := by
  unfold receiveFile receiveReady
  rcases prepareReceive storage directory mode filename offset with ⟨after, e | task⟩
  · exact ⟨_, _, rfl⟩
  · cases task with
    | send => exact ⟨_, _, rfl⟩
    | receive l m =>
      dsimp only
      rcases used : t.attempt net with ⟨t₁, a⟩
      rw [Connects, used] at alone
      cases a with
      | failed e => exact ⟨_, _, rfl⟩
      | connected => exact absurd (.inl rfl) alone
      | waiting =>
        dsimp only
        split
        · rename_i near
          exact absurd (.inr ⟨rfl, near, rfl⟩) alone
        · exact ⟨_, _, rfl⟩

theorem target_eq {directory filename : String} {parent : Location}
    (name : Location.isFileName filename = true) (plain : filename ≠ ".")
    (resolved : Location.resolve directory = .ok parent) :
    target directory filename = some (parent ++ [filename]) := by
  rw [target, if_pos ⟨name, plain⟩, resolved]
  rfl

theorem begin_isOk : (∃ t₁, t.begin = .ok t₁) ↔ t.cancelled = false ∧ t.started = false := by
  unfold begin
  cases t.cancelled <;> cases t.started <;> simp

theorem begin_of_runReceive_eq_ok {arriving : List (List UInt8)} {breaks : Option Interruption}
    {s : Storage} (h : t.runReceive s l mode arriving breaks elapsed = (t', after, .ok status)) :
    (∃ t₁, t.begin = .ok t₁) ∧ breaks = none := by
  unfold runReceive at h
  split at h
  · cases congrArg (·.2.2) h
  · rename_i begun
    split at h
    · cases congrArg (·.2.2) h
    · exact ⟨⟨_, begun⟩, rfl⟩

theorem receiveFile_eq_ok {net : Network} {arriving : List (List UInt8)}
    {directory filename : String} {offset : UInt64}
    (h : t.receiveFile storage net (some arriving) directory mode filename offset elapsed =
      (t', after, .ok status)) :
    ∃ parent ready, target directory filename = some (parent ++ [filename]) ∧
      prepareReceive storage directory mode filename offset =
        (ready, .ok (.receive (parent ++ [filename]) mode)) ∧
      ready.Holds (parent ++ [filename])
        (resize offset.toNat (storage.bytesAt (parent ++ [filename]))) ∧
      t.Connects net (some arriving) ∧
      (t.attempt net).1.runReceive ready (parent ++ [filename]) mode arriving net.breaks elapsed =
        (t', after, .ok status) := by
  by_cases connects : t.Connects net (some arriving)
  · cases prepared : prepareReceive storage directory mode filename offset with
    | mk ready task =>
      cases task with
      | error e =>
        rw [receiveFile, prepared] at h
        cases congrArg (·.2.2) h
      | ok task =>
        obtain ⟨parent, name, plain, resolved, rfl, held⟩ := prepareReceive_eq_ok prepared
        rw [receiveFile_of_connects connects prepared] at h
        exact ⟨parent, ready, target_eq name plain resolved, rfl, held, connects, h⟩
  · obtain ⟨t₁, e, failed⟩ := receiveFile_of_not_connects connects directory mode filename offset
      elapsed
    cases congrArg (·.2.2) (failed.symm.trans h)

end FileTransfer

open FileTransfer Storage in
/-- A call that receives a file successfully leaves it with what it had before the offset, filled
up with zeros, and behind the offset with what the stream stands for, however the stream was cut.
No other file has changed.  The count is that of the stream, which a word can hold for every file
that a storage can hold, and the checksum that of the bytes behind the offset.  The call succeeds
exactly when the file can be got ready, the peer comes, and nothing ends the transfer before. -/
theorem receiveFile_received {t : FileTransfer} (made : t.Made)
    (storage : Storage) (net : Network) (arriving : List (List UInt8)) (directory : String)
    (mode : TransferMode) (filename : String) (offset elapsed : UInt64) :
    (∀ t' after status,
      t.receiveFile storage net (some arriving) directory mode filename offset elapsed =
          (t', after, .ok status) →
        ∃ place, target directory filename = some place ∧
          after.Holds place (resize offset.toNat (storage.bytesAt place) ++
            received mode arriving.flatten) ∧
          Spares place storage after ∧
          status.transferred = UInt64.ofNat arriving.flatten.length ∧
          (offset.toNat + (received mode arriving.flatten).length ≤ maxLength →
            status.transferred.toNat = arriving.flatten.length) ∧
          status.checksum = Checksum.crc32 (received mode arriving.flatten)) ∧
      ((∃ t' after status,
        t.receiveFile storage net (some arriving) directory mode filename offset elapsed =
          (t', after, .ok status)) ↔
        (∃ task, (prepareReceive storage directory mode filename offset).2 = .ok task) ∧
          t.Connects net (some arriving) ∧ t.cancelled = false ∧ t.started = false ∧
          net.breaks = none) := by
  constructor
  · intro t' after status h
    obtain ⟨parent, ready, aim, prepared, held, -, ran⟩ := receiveFile_eq_ok h
    obtain ⟨⟨t₁, begun⟩, whole⟩ := begin_of_runReceive_eq_ok ran
    rw [whole] at ran
    have spared : Spares (parent ++ [filename]) storage after := by
      have first := spares_prepareReceive storage mode offset
        (fun l eq => Option.some.inj (eq.symm.trans aim))
      have second := spares_runReceive (by simp) (t.attempt net).1 ready mode arriving none elapsed
        (l := parent ++ [filename])
      rw [prepared] at first
      rw [ran] at second
      exact first.trans second
    obtain ⟨hnone, zero⟩ := made.unmoved (begin_isOk.1 ⟨t₁, begun⟩).2
    obtain ⟨_, _, _, again, stored, count, sum⟩ :=
      runReceive_of_begin begun held mode elapsed arriving
    cases ran.symm.trans again
    rw [fromWire_eq_received] at stored sum
    have counted : status.transferred = 0 + UInt64.ofNat arriving.flatten.length := by
      rw [← hnone]
      exact count
    refine ⟨_, aim, stored, spared, by rw [counted, UInt64.zero_add], ?_, sum zero⟩
    intro fits
    have short := length_le_received mode arriving.flatten
    rw [counted]
    exact toNat_count (by omega)
  · constructor
    · rintro ⟨t', after, status, h⟩
      obtain ⟨parent, ready, -, prepared, -, connects, ran⟩ := receiveFile_eq_ok h
      obtain ⟨begun, whole⟩ := begin_of_runReceive_eq_ok ran
      obtain ⟨free, idle⟩ := begin_isOk.1 begun
      exact ⟨⟨_, congrArg Prod.snd prepared⟩, connects, free, idle, whole⟩
    · rintro ⟨⟨task, prepared⟩, connects, free, idle, whole⟩
      rcases ready : prepareReceive storage directory mode filename offset with ⟨after, result⟩
      rw [ready] at prepared
      obtain rfl : result = .ok task := prepared
      obtain ⟨parent, -, -, -, rfl, held⟩ := prepareReceive_eq_ok ready
      obtain ⟨t₁, begun⟩ := (begin_isOk (t := (t.attempt net).1)).2 ⟨free, idle⟩
      obtain ⟨t', after, status, ran, -⟩ :=
        runReceive_of_begin begun held mode elapsed arriving
      exact ⟨t', after, status, by rw [receiveFile_of_connects connects ready, whole, ran]⟩

theorem receiveFile_received_ascii :
    ∃ t' after status,
      FileTransfer.receiveFile { connection := .passive ⟨.v4 127 0 0 1, 7100, {}, true, false⟩ }
          ⟨[(["d"], .directory), (["d", "f"], .file [1, 2])]⟩ { reach := .loopback }
          (some [[98, 13], [10, 13]]) "d" .ascii "f" 3 0 = (t', after, .ok status) ∧
        after.Holds ["d", "f"] [1, 2, 0, 98, 10, 13] ∧ status.transferred = 4 := by
  obtain ⟨whole, succeeds⟩ := receiveFile_received
    (.fresh (.passive ⟨.v4 127 0 0 1, 7100, {}, true, false⟩))
    ⟨[(["d"], .directory), (["d", "f"], .file [1, 2])]⟩ { reach := .loopback }
    [[98, 13], [10, 13]] "d" .ascii "f" 3 0
  have named : Location.isFileName "f" = true := by decide +kernel
  have held : Storage.Holds ⟨[(["d"], .directory), (["d", "f"], .file [1, 2])]⟩ (["d"] ++ ["f"])
    [1, 2] := rfl
  obtain ⟨ready, prepared, -⟩ := FileTransfer.prepareReceive_of_holds named (by decide +kernel)
    (show Location.resolve "d" = .ok ["d"] from rfl) held .ascii
    (show (3 : UInt64).toNat ≤ Storage.maxLength by decide)
  obtain ⟨t', after, status, ran⟩ :=
    succeeds.2 ⟨⟨_, congrArg Prod.snd prepared⟩, .inr ⟨rfl, rfl, rfl⟩, rfl, rfl, rfl⟩
  obtain ⟨place, aim, held, -, count, -⟩ := whole t' after status ran
  have here : FileTransfer.target "d" "f" = some ["d", "f"] := by decide +kernel
  obtain rfl : ["d", "f"] = place := Option.some.inj (here.symm.trans aim)
  exact ⟨t', after, status, ran, held, count⟩

end Archivist
