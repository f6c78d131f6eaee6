import Archivist.Net.Connection
import Archivist.Proofs.Storage.Complaints
import Archivist.Proofs.Wire.Delivery
import Archivist.Proofs.Wire.Lengths
set_option autoImplicit false

namespace Archivist

theorem length_number {n bound : Nat} (digits : Nat) (room : 0 < digits) (less : n < bound)
    (fits : bound ≤ Nat.pow 10 digits) : (toString n).length ≤ digits :=
  (Nat.length_repr_le_iff room).2 (Nat.lt_of_lt_of_le less fits)

theorem length_intercalate (sep : String) {ps : List String} {n : Nat}
    (short : ∀ p ∈ ps, p.length ≤ n) :
    (sep.intercalate ps).length ≤ ps.length * (n + sep.length) := by
  induction ps with
  | nil => exact Nat.zero_le _
  | cons p ps ih =>
    have first := short p List.mem_cons_self
    cases ps with
    | nil =>
      rw [String.intercalate_singleton, List.length_singleton]
      omega
    | cons q ps =>
      have rest := ih fun q mem => short q (List.mem_cons_of_mem p mem)
      rw [String.intercalate_cons_cons, String.length_append, String.length_append,
        List.length_cons, Nat.add_mul]
      omega

namespace Address

theorem length_dotted (a b c d : UInt8) : (dotted a b c d).length ≤ 16 := by
  have short : ∀ p ∈ [a, b, c, d].map fun x => toString x.toNat, p.length ≤ 3 := by
    intro p mem
    obtain ⟨x, -, rfl⟩ := List.mem_map.1 mem
    exact length_number 3 (by decide) x.toNat_lt (by decide)
  exact length_intercalate "." short

theorem length_colons (groups : List UInt16) : (colons groups).length ≤ groups.length * 5 := by
  have short : ∀ p ∈ groups.map hexText, p.length ≤ 4 := by
    intro p mem
    obtain ⟨g, -, rfl⟩ := List.mem_map.1 mem
    rw [hexText, String.length_ofList]
    exact (Nat.length_toDigits_le_iff (by decide) (by decide)).2 g.toNat_lt
  have all := length_intercalate ":" short
  rw [List.length_map] at all
  exact all

theorem length_groupsText (groups : Vector UInt16 8) : (groupsText groups).length ≤ 100 := by
  have eight : groups.toList.length = 8 := by simp
  unfold groupsText
  split
  · rw [String.length_append]
    exact Nat.add_le_add (by decide : "::ffff:".length ≤ 7)
      (Nat.le_trans (length_dotted _ _ _ _) (by decide : 16 ≤ 93))
  · dsimp only
    split
    · have front := length_colons (groups.toList.take (longestZeros groups.toList).1)
      have back := length_colons (groups.toList.drop
        ((longestZeros groups.toList).1 + (longestZeros groups.toList).2))
      have gap : "::".length = 2 := rfl
      rw [List.length_take] at front
      rw [List.length_drop] at back
      rw [String.length_append, String.length_append, gap]
      omega
    · have all := length_colons groups.toList
      omega

end Address

theorem SocketAddress.length_text (a : SocketAddress) : a.text.length ≤ 120 := by
  have port (p : UInt16) : (toString p.toNat).length ≤ 5 :=
    length_number 5 (by decide) p.toNat_lt (by decide)
  cases a with
  | v4 a b c d p =>
    have host := Address.length_dotted a b c d
    have last := port p
    have colon : ":".length = 1 := rfl
    rw [text, String.length_append, String.length_append, colon]
    omega
  | v6 groups flow zone p =>
    have host := Address.length_groupsText groups
    have last := port p
    have name : (if zone = 0 then "" else "%" ++ toString zone.toNat).length ≤ 11 := by
      split
      · decide
      · have digits : (toString zone.toNat).length ≤ 10 :=
          length_number 10 (by decide) zone.toNat_lt (by decide)
        rw [String.length_append]
        exact Nat.add_le_add (by decide : "%".length ≤ 1) digits
    have opens : "[".length = 1 := rfl
    have closes : "]:".length = 2 := rfl
    rw [text, String.length_append, String.length_append, String.length_append,
      String.length_append, opens, closes]
    omega

namespace TransferError

/-- Worded in a few bytes; an answer with such a text is far from being too long. -/
def Brief (e : TransferError) : Prop := Wire.size e.message ≤ 4096

theorem brief_of_length {e : TransferError} (short : e.message.length ≤ 1024) : e.Brief :=
  Nat.le_trans (Wire.size_le _) (Nat.mul_le_mul_left 4 short)

end TransferError

theorem IoError.Fixed.brief {e : IoError} (fixed : e.Fixed) : (TransferError.io e).Brief := by
  refine TransferError.brief_of_length ?_
  cases e with
  | bufferSize size => cases fixed
  | other message => cases fixed
  | _ => decide

namespace TransferError

theorem brief_connectionRefused (a : SocketAddress) : (connectionRefused a.text).Brief := by
  refine brief_of_length ?_
  have address := a.length_text
  have words : "connection refused to ".length = 22 := rfl
  change ("connection refused to " ++ a.text).length ≤ 1024
  rw [String.length_append, words]
  omega

theorem brief_connectionTimeout (a : SocketAddress) {ms : Nat} (word : ms < Word.bound64) :
    (connectionTimeout a.text ms).Brief := by
  refine brief_of_length ?_
  have address := a.length_text
  have number : (toString ms).length ≤ 20 := length_number 20 (by decide) word (by decide)
  have words : "connection timeout after ".length = 25 ∧ "ms to ".length = 6 := ⟨rfl, rfl⟩
  change ("connection timeout after " ++ toString ms ++ "ms to " ++ a.text).length ≤ 1024
  rw [String.length_append, String.length_append, String.length_append, words.1, words.2]
  omega

theorem brief_bufferSize {size : Nat} (word : size < Word.bound64) :
    (io (.bufferSize size)).Brief := by
  refine brief_of_length ?_
  have number : (toString size).length ≤ 20 := length_number 20 (by decide) word (by decide)
  have words : "socket buffer size ".length = 19 ∧ " out of range".length = 13 := ⟨rfl, rfl⟩
  change ("socket buffer size " ++ toString size ++ " out of range").length ≤ 1024
  rw [String.length_append, String.length_append, words.1, words.2]
  omega

theorem brief_noPortAvailable (first last : UInt16) :
    (noPortAvailable first.toNat last.toNat).Brief := by
  refine brief_of_length ?_
  have port (p : UInt16) : (toString p.toNat).length ≤ 5 :=
    length_number 5 (by decide) p.toNat_lt (by decide)
  have ends := Nat.add_le_add (port first) (port last)
  have words : "no free port in range ".length = 22 ∧ "-".length = 1 := ⟨rfl, rfl⟩
  change ("no free port in range " ++ toString first.toNat ++ "-" ++ toString last.toNat).length ≤
    1024
  rw [String.length_append, String.length_append, String.length_append, words.1, words.2]
  omega

theorem brief_aborted : aborted.Brief := brief_of_length (by decide)

theorem brief_alreadyConnected : alreadyConnected.Brief := brief_of_length (by decide)

theorem size_invalidPath (path : String) :
    Wire.size (invalidPath path).message = 23 + Wire.size path := by
  have words : Wire.size "invalid transfer path: " = 23 := by decide
  change Wire.size ("invalid transfer path: " ++ path) = _
  rw [Wire.size_append, words]

end TransferError

namespace Response

variable (id : UInt64)

theorem fits_of_brief {e : TransferError} (brief : e.Brief) :
    Wire.answers.Fits ⟨id, .ofError e⟩ := by
  change (Wire.putResponseFrame _).length ≤ Wire.limit
  rw [ofError, Wire.length_error]
  exact Nat.le_trans (Nat.add_le_add_left brief 24) (by decide)

theorem fits_invalidPath (path : String) :
    Wire.answers.Fits ⟨id, .ofError (.invalidPath path)⟩ ↔ 47 + Wire.size path ≤ Wire.limit := by
  change (Wire.putResponseFrame _).length ≤ Wire.limit ↔ _
  rw [ofError, Wire.length_error, TransferError.size_invalidPath]
  omega

theorem fits_status (s : TransferStatus) : Wire.answers.Fits ⟨id, .status s⟩ := by
  change (Wire.putResponseFrame _).length ≤ Wire.limit
  rw [Wire.length_status]
  decide

theorem fits_localPort (port : Option UInt16) : Wire.answers.Fits ⟨id, .localPort port⟩ :=
  Nat.le_trans (Wire.length_localPort id port) (by decide)

theorem fits_aborted : Wire.answers.Fits ⟨id, .aborted⟩ := by
  change (Wire.putResponseFrame _).length ≤ Wire.limit
  rw [Wire.length_aborted]
  decide

theorem fits_error_of_length (kind : RemoteKind) {message : String}
    (short : message.length ≤ 1024) : Wire.answers.Fits ⟨id, .error kind message⟩ := by
  change (Wire.putResponseFrame _).length ≤ Wire.limit
  rw [Wire.length_error]
  have bytes := Nat.le_trans (Wire.size_le message) (Nat.mul_le_mul_left 4 short)
  exact Nat.le_trans (Nat.add_le_add_left bytes 24) (by decide)

end Response
end Archivist
