set_option autoImplicit false

namespace Archivist.LineEnding

def cr : UInt8 := 13
def lf : UInt8 := 10

/-- Writes a carriage return before each line feed that has none; the flag tells whether the
byte before was one. -/
def encode : Bool → List UInt8 → List UInt8
  | _, [] => []
  | afterCr, b :: bs =>
    if b = lf ∧ afterCr = false then cr :: b :: encode (b = cr) bs else b :: encode (b = cr) bs

def endsInCr : Bool → List UInt8 → Bool
  | afterCr, [] => afterCr
  | _, b :: bs => endsInCr (b = cr) bs

theorem endsInCr_append (f : Bool) (xs ys : List UInt8) :
    endsInCr f (xs ++ ys) = endsInCr (endsInCr f xs) ys := by
  induction xs generalizing f with
  | nil => rfl
  | cons b bs ih => exact ih (b = cr)

theorem encode_append (f : Bool) (xs ys : List UInt8) :
    encode f (xs ++ ys) = encode f xs ++ encode (endsInCr f xs) ys := by
  induction xs generalizing f with
  | nil => rfl
  | cons b bs ih =>
    simp only [List.cons_append, encode, endsInCr]
    split <;> simp [ih]

/-- Drops the carriage return before a line feed; the flag tells whether one is held back. -/
def decode : Bool → List UInt8 → List UInt8
  | _, [] => []
  | held, b :: bs =>
    let front := if held = true ∧ b ≠ lf then [cr] else []
    if b = cr then front ++ decode true bs else front ++ b :: decode false bs

def flush (held : Bool) : List UInt8 := if held then [cr] else []

theorem decode_append (f : Bool) (xs ys : List UInt8) :
    decode f (xs ++ ys) = decode f xs ++ decode (endsInCr f xs) ys := by
  induction xs generalizing f with
  | nil => rfl
  | cons b bs ih =>
    simp only [List.cons_append, decode, endsInCr]
    split
    · rename_i h; simp [ih, h]
    · rename_i h; simp [ih, h]

end Archivist.LineEnding
