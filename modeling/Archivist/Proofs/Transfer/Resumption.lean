import Archivist.Proofs.Transfer.Places
import Archivist.Proofs.Transfer.Stream
set_option autoImplicit false

namespace Archivist

namespace LineEnding

/-- No carriage return of the bytes stands right before a line feed. -/
def Apart (bs : List UInt8) : Prop := ¬ [cr, lf] <:+: bs

theorem Apart.tail (xs : List UInt8) {ys : List UInt8} (h : Apart (xs ++ ys)) : Apart ys :=
  fun pair => h (pair.trans (List.suffix_append xs ys).isInfix)

theorem decode_encode {f : Bool} {bs : List UInt8} (apart : Apart (flush f ++ bs)) :
    decode f (encode f bs) ++ flush (endsInCr f (encode f bs)) = flush f ++ bs := by
  -- A line feed behind a carriage return cannot come, so every line feed is written as a pair.
  induction bs generalizing f with
  | nil => exact (List.append_nil _).symm
  | cons b bs ih =>
    by_cases feed : b = lf
    · subst feed
      cases f with
      | true => exact absurd ⟨[], bs, rfl⟩ apart
      | false =>
        have later := ih (f := false) (apart.tail [lf])
        exact congrArg (lf :: ·) later
    · by_cases hcr : b = cr
      · subst hcr
        have later := ih (f := true) (apart.tail _)
        cases f with
        | false => exact later
        | true => exact congrArg (cr :: ·) later
      · rw [← List.singleton_append, ← List.append_assoc] at apart
        have later : decode false (encode false bs) ++ flush (endsInCr false (encode false bs)) =
            bs := ih (f := false) (apart.tail _)
        have plain : encode f (b :: bs) = b :: encode false bs := by
          rw [encode, if_neg (fun both => feed both.1), decide_eq_false hcr]
        have kept : decode f (b :: encode false bs) =
            flush f ++ b :: decode false (encode false bs) := by
          rw [decode, if_neg hcr]
          cases f <;> simp [flush, feed]
        rw [plain, kept, endsInCr, decide_eq_false hcr, List.append_assoc, List.cons_append,
          later]

theorem length_encode_le (f : Bool) (bs : List UInt8) :
    (encode f bs).length ≤ 2 * bs.length := by
  induction bs generalizing f with
  | nil => exact Nat.le_refl _
  | cons b bs ih =>
    have rest := ih (b = cr)
    unfold encode
    split
    · simp only [List.length_cons]
      omega
    · simp only [List.length_cons]
      omega

end LineEnding

namespace FileTransfer

open Storage LineEnding

/-- What a receiver makes of a file is the file. -/
theorem fromWire_onWire {mode : TransferMode} {bs : List UInt8} (apart : mode = .ascii → Apart bs) :
    fromWire mode (onWire mode false bs) = bs := by
  cases mode with
  | binary => rfl
  | ascii => exact decode_encode (f := false) (apart rfl)

theorem length_onWire_le (mode : TransferMode) (f : Bool) (bs : List UInt8) :
    (onWire mode f bs).length ≤ 2 * bs.length := by
  cases mode with
  | binary =>
    rw [onWire]
    omega
  | ascii => exact length_encode_le f bs

theorem resize_of_take_eq {n : Nat} {old whole : List UInt8} (inside : n ≤ whole.length)
    (same : old.take n = whole.take n) : resize n old = whole.take n := by
  have long : n ≤ old.length := by
    have length := congrArg List.length same
    rw [List.length_take, List.length_take] at length
    omega
  rw [resize, same, Nat.sub_eq_zero_of_le long, List.replicate_zero, List.append_nil]

theorem toNat_count {n : Nat} (fits : n ≤ 2 * maxLength) :
    ((0 : UInt64) + UInt64.ofNat n).toNat = n := by
  have small : 2 * maxLength < Word.bound64 := by decide
  rw [UInt64.zero_add, UInt64.toNat_ofNat_of_lt']
  exact Nat.lt_of_le_of_lt fits small

/-- A source has a whole file, and a destination has its bytes before a position; what the
destination has behind them does not matter. -/
structure Resumable (source destination : Storage) (path directory name : String)
    (parent : Location) (position : UInt64) (whole : List UInt8) : Prop where
  stored : ∃ l, Location.resolve path = .ok l ∧ source.Holds l whole
  below : Location.resolve directory = .ok parent
  named : Location.isFileName name = true ∧ name ≠ "."
  begun : ∃ old, destination.Holds (parent ++ [name]) old ∧
    old.take position.toNat = whole.take position.toNat
  inside : position.toNat ≤ whole.length
  /-- No file is longer. -/
  sized : whole.length ≤ maxLength

variable {source destination : Storage} {path directory name : String} {parent : Location}
  {position : UInt64} {whole : List UInt8} {mode : TransferMode}

theorem Resumable.sends (h : Resumable source destination path directory name parent position whole)
    (mode : TransferMode) (want : Bool) : prepareSend source path mode position want =
      .ok (.send (.ok (whole.drop position.toNat)) mode want) := by
  obtain ⟨l, place, held⟩ := h.stored
  exact prepareSend_of_holds place held mode (Nat.le_trans h.inside h.sized) want

theorem Resumable.receives
    (h : Resumable source destination path directory name parent position whole)
    (mode : TransferMode) : ∃ ready, prepareReceive destination directory mode name position =
        (ready, .ok (.receive (parent ++ [name]) mode)) ∧
      ready.Holds (parent ++ [name]) (whole.take position.toNat) := by
  obtain ⟨old, held, same⟩ := h.begun
  obtain ⟨ready, prepared, cut⟩ := prepareReceive_of_holds h.named.1 h.named.2 h.below held mode
    (Nat.le_trans h.inside h.sized)
  rw [resize_of_take_eq h.inside same] at cut
  exact ⟨ready, prepared, cut⟩

end FileTransfer

open FileTransfer in
/-- A transfer is taken up at a position up to which the destination has the file: both ends get
ready, the sender sends what is behind the position, and when all of it has come the destination
has the whole file.  Both report the checksum of the bytes that were missing and the number of
bytes on the wire. -/
theorem runReceive_resumable {source destination : Storage}
    {path directory name : String} {parent : Location} {position : UInt64} {whole : List UInt8}
    {mode : TransferMode}
    (h : Resumable source destination path directory name parent position whole)
    (apart : mode = .ascii → LineEnding.Apart whole) :
    prepareSend source path mode position true =
        .ok (.send (.ok (whole.drop position.toNat)) mode true) ∧
      ∃ ready, prepareReceive destination directory mode name position =
          (ready, .ok (.receive (parent ++ [name]) mode)) ∧
        ∀ (sending receiving : DataConnection) (reads : List (List UInt8)),
          reads.flatten = whole.drop position.toNat → ∀ elapsed : UInt64,
            ∃ sender sent wire,
              runSend { connection := sending } mode true (.ok reads) none elapsed =
                (sender, .ok sent, wire) ∧
              sent.checksum = Checksum.crc32 (whole.drop position.toNat) ∧
              sent.transferred.toNat = wire.length ∧
              ∀ arriving : List (List UInt8), arriving.flatten = wire → ∀ elapsed : UInt64,
                ∃ receiver stored received,
                  runReceive { connection := receiving } ready (parent ++ [name]) mode arriving none
                    elapsed = (receiver, stored, .ok received) ∧
                  stored.Holds (parent ++ [name]) whole ∧
                  received.checksum = sent.checksum ∧
                  received.transferred.toNat = wire.length := by
  obtain ⟨ready, prepared, cut⟩ := h.receives mode
  refine ⟨h.sends mode true, ready, prepared, ?_⟩
  intro sending receiving reads missing elapsed
  have fresh : ∀ c : DataConnection, begin { connection := c } =
      .ok { connection := c, started := true } := fun _ => rfl
  obtain ⟨sender, sent, ran, count, sum⟩ :=
    runSend_of_begin (fresh sending) mode true elapsed reads
  rw [missing] at ran count sum
  have short := length_onWire_le mode false (whole.drop position.toNat)
  have fits : (onWire mode false (whole.drop position.toNat)).length ≤ 2 * Storage.maxLength := by
    have sized := h.sized
    rw [List.length_drop] at short
    omega
  have apart : mode = .ascii → LineEnding.Apart (whole.drop position.toNat) := fun ascii =>
    LineEnding.Apart.tail (whole.take position.toNat) (by
      rw [List.take_append_drop]
      exact apart ascii)
  refine ⟨sender, sent, _, ran, sum rfl rfl, by rw [count]; exact toNat_count fits, ?_⟩
  intro arriving all elapsed
  obtain ⟨receiver, stored, received, ran, held, count, sum'⟩ :=
    runReceive_of_begin (fresh receiving) cut mode elapsed arriving
  rw [all, fromWire_onWire apart] at held sum'
  rw [List.take_append_drop] at held
  refine ⟨receiver, stored, received, ran, held, ?_, ?_⟩
  · rw [sum' rfl, sum rfl rfl]
  · rw [count, all]
    exact toNat_count fits

def threeLines : List UInt8 := [97, 10, 98, 13, 99, 10]

theorem threeLines_resumable :
    FileTransfer.Resumable ⟨[(["a"], .file threeLines)]⟩ ⟨[(["b"], .file [97, 10, 0, 0, 0, 0, 0])]⟩
      "/a" "" "b" [] 2 threeLines where
  stored := ⟨["a"], rfl, rfl⟩
  below := rfl
  named := by decide +kernel
  begun := ⟨_, rfl, rfl⟩
  inside := by decide
  sized := by decide

theorem runReceive_threeLines :
    ∃ ready receiver stored received,
      FileTransfer.prepareReceive ⟨[(["b"], .file [97, 10, 0, 0, 0, 0, 0])]⟩ "" .ascii "b" 2 =
        (ready, .ok (.receive ["b"] .ascii)) ∧
      FileTransfer.runReceive { connection := .active { address := .v4 127 0 0 1 7100 } } ready
        ["b"] .ascii [[98, 13], [99, 13], [10]] none 0 = (receiver, stored, .ok received) ∧
      stored.Holds ["b"] threeLines ∧ received.transferred.toNat = 5 := by
  have apart : TransferMode.ascii = .ascii → LineEnding.Apart threeLines := fun _ => by
    unfold LineEnding.Apart
    decide
  obtain ⟨-, ready, prepared, transfers⟩ :=
    runReceive_resumable threeLines_resumable apart
  let connection : DataConnection := .active { address := .v4 127 0 0 1 7100 }
  obtain ⟨_, _, wire, ran, -, -, arrives⟩ :=
    transfers connection connection [[98], [13, 99, 10]] rfl 0
  obtain rfl : [98, 13, 99, 13, 10] = wire := congrArg (fun r => r.2.2) ran
  obtain ⟨receiver, stored, received, ran, held, -, count⟩ :=
    arrives [[98, 13], [99, 13], [10]] rfl 0
  exact ⟨ready, receiver, stored, received, prepared, ran, held, count⟩

end Archivist
