import Archivist.Control.NodeWorker
import Archivist.Proofs.Transfer.Reception
set_option autoImplicit false

namespace Archivist

namespace LineEnding

def behind (before : Option UInt8) (b : UInt8) : List UInt8 :=
  if b = lf ∧ before ≠ some cr then [cr, b] else [b]

/-- The bytes with a carriage return before each line feed that does not stand behind one. -/
def withReturns (bs : List UInt8) : List UInt8 :=
  (List.zipWith behind (none :: bs.map some) bs).flatten

/-- The flag of the encoder stands for the byte before. -/
theorem encode_eq_flatten (before : Option UInt8) (bs : List UInt8) :
    encode (before = some cr) bs = (List.zipWith behind (before :: bs.map some) bs).flatten := by
  induction bs generalizing before with
  | nil => rfl
  | cons b bs ih =>
    have rest := ih (some b)
    simp only [Option.some.injEq] at rest
    rw [List.map_cons, List.zipWith_cons_cons, List.flatten_cons, ← rest, behind, encode]
    by_cases lone : b = lf ∧ before ≠ some cr
    · rw [if_pos lone, if_pos ⟨lone.1, decide_eq_false lone.2⟩]
      rfl
    · rw [if_neg lone, if_neg fun both => lone ⟨both.1, of_decide_eq_false both.2⟩]
      rfl

theorem encode_eq_withReturns (bs : List UInt8) : encode false bs = withReturns bs :=
  encode_eq_flatten none bs

end LineEnding

namespace FileTransfer

open Storage LineEnding

def dispatched : TransferMode → List UInt8 → List UInt8
  | .binary, bs => bs
  | .ascii, bs => withReturns bs

theorem onWire_eq_dispatched (mode : TransferMode) (bs : List UInt8) :
    onWire mode false bs = dispatched mode bs := by
  cases mode with
  | binary => rfl
  | ascii => exact encode_eq_withReturns bs

variable {t t' t₁ : FileTransfer} {storage : Storage} {net : Network}
  {peer : Option (List (List UInt8))} {path : String} {mode : TransferMode} {resume : UInt64}
  {want : Bool} {elapsed : UInt64} {status : TransferStatus}
  {reads : List UInt8 → List (List UInt8)} {wire : List UInt8}

theorem checksum_sent_unasked {s : Sending} (unasked : s.wantChecksum = false)
    (ps : List (List UInt8)) :
    (ps.foldl sendPiece s).transfer.checksum = s.transfer.checksum := by
  induction ps generalizing s with
  | nil => rfl
  | cons p ps ih =>
    have kept : (sendPiece s p).transfer.checksum = s.transfer.checksum :=
      if_neg (by simp [unasked])
    exact (ih (s := sendPiece s p) unasked).trans kept

theorem runSend_of_unused (begun : t.begin = .ok t₁) (hnone : t.transferred = 0)
    (zero : t.checksum = 0) (mode : TransferMode) (want : Bool) (elapsed : UInt64)
    (ps : List (List UInt8)) :
    ∃ t' status, t.runSend mode want (.ok ps) none elapsed =
        (t', .ok status, dispatched mode ps.flatten) ∧
      status.transferred = UInt64.ofNat (dispatched mode ps.flatten).length ∧
      status.checksum = if want then Checksum.crc32 ps.flatten else 0 := by
  obtain ⟨t', status, ran, count, sum⟩ := runSend_of_begin begun mode want elapsed ps
  rw [onWire_eq_dispatched] at ran count
  refine ⟨t', status, ran, by rw [count, hnone, UInt64.zero_add], ?_⟩
  cases want with
  | true => exact sum rfl zero
  | false =>
    obtain rfl := begin_eq_ok begun
    rw [runSend, begun] at ran
    obtain rfl := Except.ok.inj (congrArg (fun r => r.2.1) ran)
    exact (checksum_sent_unasked rfl ps).trans zero

theorem begin_of_runSend_eq_ok {content : Except IoError (List (List UInt8))}
    {breaks : Option Interruption}
    (h : t.runSend mode want content breaks elapsed = (t', .ok status, wire)) :
    (∃ t₁, t.begin = .ok t₁) ∧ breaks = none := by
  obtain ⟨ps, rfl, -⟩ := runSend_eq_ok h
  unfold runSend at h
  split at h
  · cases congrArg (fun r => r.2.1) h
  · rename_i begun
    cases breaks with
    | some i => cases congrArg (fun r => r.2.1) h
    | none => exact ⟨⟨_, begun⟩, rfl⟩

/-- Sends a file that is read in any pieces; a listening end needs somebody who dials. -/
def sendReading (reads : List UInt8 → List (List UInt8)) (t : FileTransfer) (storage : Storage)
    (net : Network) (peer : Option (List (List UInt8))) (path : String) (mode : TransferMode)
    (resume : UInt64) (want : Bool) (elapsed : UInt64) :
    FileTransfer × Except TransferError TransferStatus × List UInt8 :=
  match prepareSend storage path mode resume want with
  | .error e => (t, .error e, [])
  | .ok (.receive _ _) => (t, .error .aborted, [])
  | .ok (.send content mode want) =>
    match t.attempt net with
    | (t, .failed e) => (t, .error e, [])
    | (t, .connected) => t.runSend mode want (content.map reads) net.breaks elapsed
    | (t, .waiting) =>
      match net.reach, peer with
      | .loopback, some _ => t.runSend mode want (content.map reads) net.breaks elapsed
      | _, _ => (t, .error t.timedOut, [])

theorem sendFile_eq_sendReading (t : FileTransfer) (storage : Storage) (net : Network)
    (path : String) (mode : TransferMode) (resume : UInt64) (want : Bool) (elapsed : UInt64) :
    t.sendFile storage net path mode resume want elapsed =
      t.sendReading pieces storage net none path mode resume want elapsed := by
  unfold sendFile sendReading
  rcases prepareSend storage path mode resume want with e | task
  · rfl
  · cases task with
    | receive => rfl
    | send content mode want =>
      dsimp only
      rcases t.attempt net with ⟨t₁, e | _ | _⟩
      · rfl
      · rfl
      · cases net.reach <;> rfl

theorem sendReading_of_connects (connects : t.Connects net peer)
    {content : Except IoError (List UInt8)}
    (ready : prepareSend storage path mode resume want = .ok (.send content mode want))
    (reads : List UInt8 → List (List UInt8)) (elapsed : UInt64) :
    t.sendReading reads storage net peer path mode resume want elapsed =
      (t.attempt net).1.runSend mode want (content.map reads) net.breaks elapsed := by
  unfold sendReading
  rw [ready]
  dsimp only
  rcases used : t.attempt net with ⟨t₁, a⟩
  rw [Connects, used] at connects
  obtain rfl | ⟨rfl, near, dialled⟩ := connects
  · rfl
  · obtain ⟨arriving, rfl⟩ := Option.isSome_iff_exists.1 dialled
    dsimp only
    rw [near]

theorem sendReading_of_not_connects (alone : ¬ t.Connects net peer)
    (reads : List UInt8 → List (List UInt8)) (storage : Storage) (path : String)
    (mode : TransferMode) (resume : UInt64) (want : Bool) (elapsed : UInt64) :
    ∃ t' e, t.sendReading reads storage net peer path mode resume want elapsed =
      (t', .error e, []) := by
  unfold sendReading
  rcases prepareSend storage path mode resume want with e | task
  · exact ⟨_, _, rfl⟩
  · cases task with
    | receive => exact ⟨_, _, rfl⟩
    | send content mode want =>
      dsimp only
      rcases used : t.attempt net with ⟨t₁, a⟩
      rw [Connects, used] at alone
      cases a with
      | failed e => exact ⟨_, _, rfl⟩
      | connected => exact absurd (.inl rfl) alone
      | waiting =>
        dsimp only
        split
        · rename_i near
          exact absurd (.inr ⟨rfl, near, rfl⟩) alone
        · exact ⟨_, _, rfl⟩

theorem prepareSend_eq_ok_iff {rest : List UInt8} :
    prepareSend storage path mode resume want = .ok (.send (.ok rest) mode want) ↔
      ∃ place content, Location.resolve path = .ok place ∧ storage.Holds place content ∧
        resume.toNat ≤ maxLength ∧ rest = content.drop resume.toNat := by
  constructor
  · intro ready
    obtain ⟨place, found, resolved, eq, held⟩ := prepareSend_eq_ok ready
    obtain ⟨rfl, -⟩ := TransferTask.send.inj eq
    obtain ⟨content, there, rest⟩ := held rest rfl
    refine ⟨place, content, resolved, there, ?_, rest⟩
    by_contra far
    rw [prepareSend_eq, resolved] at ready
    dsimp only at ready
    rw [openItem_of_holds there] at ready
    dsimp only at ready
    rw [sendItem, if_pos (Nat.lt_of_not_le far)] at ready
    cases ready
  · rintro ⟨place, content, resolved, there, near, rfl⟩
    exact prepareSend_of_holds resolved there mode near want

theorem sendReading_eq_ok
    (h : t.sendReading reads storage net peer path mode resume want elapsed =
      (t', .ok status, wire)) :
    ∃ rest, prepareSend storage path mode resume want = .ok (.send (.ok rest) mode want) ∧
      t.Connects net peer ∧
      (t.attempt net).1.runSend mode want (.ok (reads rest)) net.breaks elapsed =
        (t', .ok status, wire) := by
  by_cases connects : t.Connects net peer
  · cases prepared : prepareSend storage path mode resume want with
    | error e =>
      rw [sendReading, prepared] at h
      cases congrArg (fun r => r.2.1) h
    | ok task =>
      obtain ⟨place, content, -, rfl, -⟩ := prepareSend_eq_ok prepared
      rw [sendReading_of_connects connects prepared] at h
      obtain ⟨ps, read, -⟩ := runSend_eq_ok h
      cases content with
      | error e => cases read
      | ok rest => exact ⟨rest, rfl, connects, h⟩
  · obtain ⟨t₁, e, failed⟩ := sendReading_of_not_connects connects reads storage path mode resume
      want elapsed
    cases congrArg (fun r => r.2.1) (failed.symm.trans h)

end FileTransfer

namespace NodeWorker

open FileTransfer

/-- A worker has the result of a call, and after a success the bytes of the call have gone out. -/
def Yields (s : NodeWorker)
    (call : FileTransfer × Except TransferError TransferStatus × List UInt8) : Prop :=
  s.result = some call.2.1 ∧ ∀ status, call.2.1 = .ok status → s.sent = some call.2.2

theorem Yields.of_error {s : NodeWorker} {e : TransferError} (h : s.result = some (.error e))
    (t : FileTransfer) (wire : List UInt8) : s.Yields (t, .error e, wire) := by
  refine ⟨h, ?_⟩
  intro status eq
  cases eq

theorem Yields.close {s : NodeWorker}
    {call : FileTransfer × Except TransferError TransferStatus × List UInt8} (h : s.Yields call) :
    s.close.Yields call := by
  unfold NodeWorker.close
  split <;> exact h

theorem yields_carryOut (s : NodeWorker) (arriving : List (List UInt8))
    (content : Except IoError (List UInt8)) (mode : TransferMode) (want : Bool) :
    (s.carryOut arriving (.send content mode want)).Yields
      (s.transfer.runSend mode want (content.map pieces) s.network.breaks 0) :=
  ⟨rfl, fun _ _ => rfl⟩

/-- A session whose peer dials comes to what the call comes to, whether the peer dials before the
request or after it. -/
theorem yields_sendReading {s : NodeWorker} (free : s.waiting = none) (nobody : s.peer = none)
    (near : s.network.reach = .loopback) (arriving : List (List UInt8)) (path : String)
    (mode : TransferMode) (resume : UInt64) (want : Bool) :
    let call := s.transfer.sendReading pieces s.storage s.network (some arriving) path mode resume
      want 0
    ((s.start (.sendFile path mode resume want)).dialled arriving).Yields call ∧
      ((s.dialled arriving).start (.sendFile path mode resume want)).Yields call := by
  have early : s.dialled arriving = { s with peer := some arriving } := by
    rw [dialled, free]
  rw [early]
  unfold start sendReading
  dsimp only
  cases prepared : prepareSend s.storage path mode resume want with
  | error e =>
    dsimp only
    rw [dialled, free]
    exact ⟨.of_error rfl _ _, .of_error rfl _ _⟩
  | ok task =>
    obtain ⟨place, content, -, rfl, -⟩ := prepareSend_eq_ok prepared
    dsimp only
    unfold connect
    dsimp only
    rcases s.transfer.attempt s.network with ⟨t, e | _ | _⟩
    · dsimp only
      rw [dialled, free]
      exact ⟨.of_error rfl _ _, .of_error rfl _ _⟩
    · dsimp only
      exact ⟨yields_carryOut _ [] _ _ _, yields_carryOut _ [] _ _ _⟩
    · dsimp only
      rw [nobody, near]
      exact ⟨(yields_carryOut _ _ _ _ _).close, (yields_carryOut _ _ _ _ _).close⟩

end NodeWorker

open FileTransfer Storage in
/-- A call that sends a file successfully has put on the wire what the file holds from the position
on, in ASCII mode with its line ends for the way, however the file was read.  The count is that of
the bytes on the wire, which a word can hold for every file, and the checksum, if one was asked
for, that of the bytes in the file.  The call succeeds exactly when the file is there, can be that
long, gets its connection, and nothing ends the transfer before.  Calls of the program that nobody
dials, and those of a session whose peer dials, are such calls. -/
theorem sendReading_dispatched {t : FileTransfer} (made : t.Made) (storage : Storage)
    (net : Network) (peer : Option (List (List UInt8))) (path : String) (mode : TransferMode)
    (resume : UInt64) (want : Bool) (elapsed : UInt64) (reads : List UInt8 → List (List UInt8))
    (all : ∀ bs, (reads bs).flatten = bs) :
    (∀ t' status wire,
      t.sendReading reads storage net peer path mode resume want elapsed =
          (t', .ok status, wire) →
        ∃ place content, Location.resolve path = .ok place ∧ storage.Holds place content ∧
          wire = dispatched mode (content.drop resume.toNat) ∧
          status.transferred = UInt64.ofNat wire.length ∧
          (content.length < Word.bound63 → status.transferred.toNat = wire.length) ∧
          status.checksum = if want then Checksum.crc32 (content.drop resume.toNat) else 0) ∧
      ((∃ t' status wire,
        t.sendReading reads storage net peer path mode resume want elapsed =
          (t', .ok status, wire)) ↔
        (∃ place content, Location.resolve path = .ok place ∧ storage.Holds place content) ∧
          resume.toNat ≤ maxLength ∧ t.Connects net peer ∧ t.cancelled = false ∧
          t.started = false ∧ net.breaks = none) ∧
      t.sendFile storage net path mode resume want elapsed =
        t.sendReading pieces storage net none path mode resume want elapsed ∧
      ∀ s : NodeWorker, s.transfer = t → s.storage = storage → s.network = net →
        s.waiting = none → s.peer = none → net.reach = .loopback → ∀ arriving,
          let call := t.sendReading pieces storage net (some arriving) path mode resume want 0
          ((s.start (.sendFile path mode resume want)).dialled arriving).Yields call ∧
            ((s.dialled arriving).start (.sendFile path mode resume want)).Yields call := by
  refine ⟨?_, ⟨?_, ?_⟩, sendFile_eq_sendReading t storage net path mode resume want elapsed, ?_⟩
  · intro t' status wire h
    obtain ⟨rest, ready, -, ran⟩ := sendReading_eq_ok h
    obtain ⟨place, content, resolved, held, -, rfl⟩ := prepareSend_eq_ok_iff.1 ready
    obtain ⟨⟨t₁, begun⟩, unbroken⟩ := begin_of_runSend_eq_ok ran
    obtain ⟨hnone, zero⟩ := made.unmoved (begin_isOk.1 ⟨t₁, begun⟩).2
    obtain ⟨_, _, again, count, sum⟩ :=
      runSend_of_unused begun hnone zero mode want elapsed (reads (content.drop resume.toNat))
    rw [all] at again count sum
    rw [unbroken] at ran
    cases ran.symm.trans again
    refine ⟨place, content, resolved, held, rfl, count, ?_, sum⟩
    intro short
    have length := length_onWire_le mode false (content.drop resume.toNat)
    rw [onWire_eq_dispatched, List.length_drop] at length
    have bound : Word.bound63 + Word.bound63 = Word.bound64 := rfl
    rw [count, UInt64.toNat_ofNat_of_lt']
    change _ < Word.bound64
    omega
  · rintro ⟨t', status, wire, h⟩
    obtain ⟨rest, ready, connects, ran⟩ := sendReading_eq_ok h
    obtain ⟨place, content, resolved, held, near, -⟩ := prepareSend_eq_ok_iff.1 ready
    obtain ⟨begun, unbroken⟩ := begin_of_runSend_eq_ok ran
    obtain ⟨free, idle⟩ := begin_isOk.1 begun
    exact ⟨⟨place, content, resolved, held⟩, near, connects, free, idle, unbroken⟩
  · rintro ⟨⟨place, content, resolved, held⟩, near, connects, free, idle, unbroken⟩
    have ready := prepareSend_of_holds resolved held mode near want
    obtain ⟨t₁, begun⟩ := (begin_isOk (t := (t.attempt net).1)).2 ⟨free, idle⟩
    obtain ⟨t', status, ran, -⟩ :=
      runSend_of_begin begun mode want elapsed (reads (content.drop resume.toNat))
    have sends := sendReading_of_connects connects ready reads elapsed
    rw [unbroken] at sends
    exact ⟨t', status, _, sends.trans ran⟩
  · rintro s rfl rfl rfl free nobody near arriving
    exact NodeWorker.yields_sendReading free nobody near arriving path mode resume want

theorem sendReading_dispatched_ascii :
    ∃ t' status wire,
      FileTransfer.sendReading (·.map ([·]))
          { connection := .passive ⟨.v4 127 0 0 1, 7100, {}, true, false⟩ }
          ⟨[(["f"], .file [13, 10, 98, 13, 10, 10])]⟩ { reach := .loopback } (some []) "/f" .ascii 1
          true 0 = (t', .ok status, wire) ∧
        wire = [13, 10, 98, 13, 10, 13, 10] ∧ status.transferred = 7 ∧
        status.checksum = Checksum.crc32 [10, 98, 13, 10, 10] := by
  obtain ⟨whole, succeeds, -⟩ := sendReading_dispatched
    (.fresh (.passive ⟨.v4 127 0 0 1, 7100, {}, true, false⟩))
    ⟨[(["f"], .file [13, 10, 98, 13, 10, 10])]⟩ { reach := .loopback } (some []) "/f" .ascii 1 true
    0 (·.map ([·])) List.flatMap_singleton'
  have resolved : Location.resolve "/f" = .ok ["f"] := by decide +kernel
  have held : Storage.Holds ⟨[(["f"], .file [13, 10, 98, 13, 10, 10])]⟩ ["f"]
    [13, 10, 98, 13, 10, 10] := rfl
  obtain ⟨t', status, wire, ran⟩ := succeeds.2
    ⟨⟨_, _, resolved, held⟩, by decide, .inr ⟨rfl, rfl, rfl⟩, rfl, rfl, rfl⟩
  obtain ⟨place, content, here, there, rfl, count, -, sum⟩ := whole t' status wire ran
  obtain rfl : ["f"] = place := Except.ok.inj (resolved.symm.trans here)
  obtain rfl : [13, 10, 98, 13, 10, 10] = content :=
    Item.file.inj (Option.some.inj (held.get?.symm.trans there.get?))
  exact ⟨t', status, _, ran, by decide, count, sum⟩

end Archivist
