import Archivist.Proofs.Wire.Lengths
import Mathlib.Data.List.Lex
import Mathlib.Data.String.Basic
set_option autoImplicit false

/-!
# Texts in the order of their bytes

Texts are compared character by character, and bytes come in the same order: the bytes of the
lesser of two characters are less at the first place where they differ, whatever stands behind them
(`bytes_lt`).  So a lesser text has lesser bytes.
-/

namespace Archivist.Wire

def BytesLess (xs ys : Bytes) : Prop := List.Lex (· < ·) xs ys

theorem bytesLess_cons {a b : Nat} {xs ys : Bytes} (ha : a < 256) (hb : b < 256)
    (h : a < b ∨ a = b ∧ BytesLess xs ys) :
    BytesLess (UInt8.ofNat a :: xs) (UInt8.ofNat b :: ys) := by
  rcases h with less | ⟨rfl, rest⟩
  · refine List.Lex.rel ?_
    rw [UInt8.lt_iff_toNat_lt, UInt8.toNat_ofNat', UInt8.toNat_ofNat', Nat.mod_eq_of_lt ha,
      Nat.mod_eq_of_lt hb]
    exact less
  · exact List.Lex.cons rest

theorem last_lt {v w : Nat} (less : v % 64 < w % 64) (xs ys : Bytes) :
    BytesLess (UInt8.ofNat (v % 64 + 128) :: xs) (UInt8.ofNat (w % 64 + 128) :: ys) :=
  bytesLess_cons (by omega) (by omega) (.inl (by omega))

theorem lastTwo_lt {v w : Nat} (less : v % 4096 < w % 4096) (xs ys : Bytes) :
    BytesLess (UInt8.ofNat (v / 64 % 64 + 128) :: UInt8.ofNat (v % 64 + 128) :: xs)
      (UInt8.ofNat (w / 64 % 64 + 128) :: UInt8.ofNat (w % 64 + 128) :: ys) := by
  have digits : v / 64 % 64 < w / 64 % 64 ∨ v / 64 % 64 = w / 64 % 64 ∧ v % 64 < w % 64 := by omega
  exact bytesLess_cons (by omega) (by omega)
    (digits.imp (fun h => by omega) fun h => ⟨by omega, last_lt h.2 xs ys⟩)

theorem lastThree_lt {v w : Nat} (less : v % 262144 < w % 262144) (xs ys : Bytes) :
    BytesLess (UInt8.ofNat (v / 4096 % 64 + 128) :: UInt8.ofNat (v / 64 % 64 + 128) ::
        UInt8.ofNat (v % 64 + 128) :: xs)
      (UInt8.ofNat (w / 4096 % 64 + 128) :: UInt8.ofNat (w / 64 % 64 + 128) ::
        UInt8.ofNat (w % 64 + 128) :: ys) := by
  have digits : v / 4096 % 64 < w / 4096 % 64 ∨
      v / 4096 % 64 = w / 4096 % 64 ∧ v % 4096 < w % 4096 := by omega
  exact bytesLess_cons (by omega) (by omega)
    (digits.imp (fun h => by omega) fun h => ⟨by omega, lastTwo_lt h.2 xs ys⟩)

/-- The bytes of a lesser character are less, whatever stands behind. -/
theorem bytes_lt {c d : Char} (less : c < d) (xs ys : Bytes) :
    BytesLess (String.utf8EncodeChar c ++ xs) (String.utf8EncodeChar d ++ ys) := by
  have less : c.val.toNat < d.val.toNat := less
  have bound : d.val.toNat < 1114112 := by
    have valid : d.val.toNat < 55296 ∨ 57343 < d.val.toNat ∧ d.val.toNat < 1114112 := d.valid
    omega
  unfold String.utf8EncodeChar
  dsimp only
  generalize c.val.toNat = v at less
  generalize d.val.toNat = w at less bound
  -- With fewer bytes the first byte is less; with as many, the first byte or what it leaves over.
  by_cases one : v ≤ 127
  · rw [if_pos one]
    split
    · exact bytesLess_cons (by omega) (by omega) (.inl less)
    · split
      · exact bytesLess_cons (by omega) (by omega) (.inl (by omega))
      · split <;> exact bytesLess_cons (by omega) (by omega) (.inl (by omega))
  · rw [if_neg one, if_neg (show ¬ w ≤ 127 by omega)]
    by_cases two : v ≤ 2047
    · rw [if_pos two]
      split
      · have digits : v / 64 < w / 64 ∨ v / 64 = w / 64 ∧ v % 64 < w % 64 := by omega
        exact bytesLess_cons (by omega) (by omega)
          (digits.imp (fun h => by omega) fun h => ⟨by omega, last_lt h.2 xs ys⟩)
      · split <;> exact bytesLess_cons (by omega) (by omega) (.inl (by omega))
    · rw [if_neg two, if_neg (show ¬ w ≤ 2047 by omega)]
      by_cases three : v ≤ 65535
      · rw [if_pos three]
        split
        · have digits : v / 4096 < w / 4096 ∨ v / 4096 = w / 4096 ∧ v % 4096 < w % 4096 := by omega
          exact bytesLess_cons (by omega) (by omega)
            (digits.imp (fun h => by omega) fun h => ⟨by omega, lastTwo_lt h.2 xs ys⟩)
        · exact bytesLess_cons (by omega) (by omega) (.inl (by omega))
      · rw [if_neg three, if_neg (show ¬ w ≤ 65535 by omega)]
        have digits : v / 262144 < w / 262144 ∨
            v / 262144 = w / 262144 ∧ v % 262144 < w % 262144 := by omega
        exact bytesLess_cons (by omega) (by omega)
          (digits.imp (fun h => by omega) fun h => ⟨by omega, lastThree_lt h.2 xs ys⟩)

theorem utf8_lt {s t : String} (less : s < t) : BytesLess (utf8 s) (utf8 t) := by
  rw [String.lt_iff_toList_lt] at less
  rw [← String.ofList_toList (s := s), ← String.ofList_toList (s := t), utf8_ofList, utf8_ofList]
  generalize s.toList = cs at less
  generalize t.toList = ds at less
  induction less with
  | nil =>
    rename_i d ds
    have some : String.utf8EncodeChar d ≠ [] := by
      intro hnone
      have length := String.length_utf8EncodeChar d
      have pos := d.utf8Size_pos
      rw [hnone, List.length_nil] at length
      omega
    obtain ⟨b, bs, eq⟩ := List.exists_cons_of_ne_nil some
    rw [List.flatMap_nil, List.flatMap_cons, eq]
    exact List.Lex.nil
  | cons _ ih => exact List.Lex.append_left _ ih _
  | rel less => exact bytes_lt less _ _

end Archivist.Wire
