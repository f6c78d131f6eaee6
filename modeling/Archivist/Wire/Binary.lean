import Archivist.Word
set_option autoImplicit false

namespace Archivist.Wire

abbrev Bytes := List UInt8

abbrev Get (α : Type) := Bytes → Option (α × Bytes)

def leBytes : Nat → Nat → Bytes
  | 0, _ => []
  | width + 1, n => UInt8.ofNat n :: leBytes width (n / 256)

def leValue : Bytes → Nat
  | [] => 0
  | b :: bs => b.toNat + 256 * leValue bs

@[simp] theorem length_leBytes (width n : Nat) : (leBytes width n).length = width := by
  induction width generalizing n with
  | zero => rfl
  | succ w ih => simp [leBytes, ih]

theorem leValue_leBytes (width n : Nat) : leValue (leBytes width n) = n % Nat.pow 256 width := by
  induction width generalizing n with
  | zero => simp [leBytes, leValue, Nat.mod_one]
  | succ w ih =>
    have low : (UInt8.ofNat n).toNat = n % 256 := rfl
    have step : Nat.pow 256 (w + 1) = 256 * Nat.pow 256 w := Nat.mul_comm _ _
    rw [leBytes, leValue, ih, low, step, Nat.mod_mul]

def getBytes (count : Nat) : Get Bytes := fun bs =>
  if count ≤ bs.length then some (bs.take count, bs.drop count) else none

theorem getBytes_append {bs : Bytes} (rest : Bytes) :
    getBytes bs.length (bs ++ rest) = some (bs, rest) := by
  simp [getBytes]

def getNat (width : Nat) : Get Nat := fun bs =>
  (getBytes width bs).map fun (front, rest) => (leValue front, rest)

theorem getNat_leBytes (width n : Nat) (h : n < Nat.pow 256 width) (rest : Bytes) :
    getNat width (leBytes width n ++ rest) = some (n, rest) := by
  have := @getBytes_append (leBytes width n) rest
  rw [length_leBytes] at this
  have value := leValue_leBytes width n
  rw [Nat.mod_eq_of_lt h] at value
  simp [getNat, this, value]

def putU8 (n : UInt8) : Bytes := [n]
def putU16 (n : UInt16) : Bytes := leBytes 2 n.toNat
def putU32 (n : UInt32) : Bytes := leBytes 4 n.toNat
def putU64 (n : UInt64) : Bytes := leBytes 8 n.toNat

def getU8 : Get UInt8
  | [] => none
  | b :: rest => some (b, rest)
def getU16 : Get UInt16 := fun bs => (getNat 2 bs).map fun (n, rest) => (n.toUInt16, rest)
def getU32 : Get UInt32 := fun bs => (getNat 4 bs).map fun (n, rest) => (n.toUInt32, rest)
def getU64 : Get UInt64 := fun bs => (getNat 8 bs).map fun (n, rest) => (n.toUInt64, rest)

@[simp] theorem getU16_put (n : UInt16) (rest : Bytes) :
    getU16 (putU16 n ++ rest) = some (n, rest) := by
  simp [getU16, putU16, getNat_leBytes 2 n.toNat n.toNat_lt]

@[simp] theorem getU32_put (n : UInt32) (rest : Bytes) :
    getU32 (putU32 n ++ rest) = some (n, rest) := by
  simp [getU32, putU32, getNat_leBytes 4 n.toNat n.toNat_lt]

@[simp] theorem getU64_put (n : UInt64) (rest : Bytes) :
    getU64 (putU64 n ++ rest) = some (n, rest) := by
  simp [getU64, putU64, getNat_leBytes 8 n.toNat n.toNat_lt]

def putBool (b : Bool) : Bytes := [if b then 1 else 0]

def getBool : Get Bool
  | [] => none
  | b :: rest => if b = 0 then some (false, rest) else if b = 1 then some (true, rest) else none

@[simp] theorem getBool_put (b : Bool) (rest : Bytes) :
    getBool (putBool b ++ rest) = some (b, rest) := by
  cases b <;> rfl

def utf8 (s : String) : Bytes := s.toUTF8.data.toList

def ofUtf8? (bs : Bytes) : Option String := String.fromUTF8? ⟨bs.toArray⟩

@[simp] theorem ofUtf8?_utf8 (s : String) : ofUtf8? (utf8 s) = some s := by
  have h : (⟨(utf8 s).toArray⟩ : ByteArray) = s.toUTF8 := by simp [utf8]
  unfold ofUtf8?
  rw [h]
  exact dif_pos s.isValidUTF8

def putText (s : String) : Bytes := leBytes 8 (utf8 s).length ++ utf8 s

def getText : Get String := fun bs =>
  match getNat 8 bs with
  | none => none
  | some (count, rest) =>
    match getBytes count rest with
    | none => none
    | some (front, rest) => (ofUtf8? front).map fun s => (s, rest)

theorem getText_put (s : String) (h : (utf8 s).length < Word.bound64) (rest : Bytes) :
    getText (putText s ++ rest) = some (s, rest) := by
  simp [getText, putText, getNat_leBytes 8 _ h, getBytes_append]

def putOption {α : Type} (put : α → Bytes) : Option α → Bytes
  | none => [0]
  | some a => 1 :: put a

def getOption {α : Type} (get : Get α) : Get (Option α)
  | [] => none
  | b :: rest =>
    if b = 0 then some (none, rest)
    else if b = 1 then (get rest).map fun (a, rest) => (some a, rest)
    else none

end Archivist.Wire
