import Archivist.Wire.Codec
import Archivist.Word
set_option autoImplicit false

namespace Archivist.Wire

def limit : Nat := 1048576

def beBytes (n : Nat) : Bytes := (leBytes 4 n).reverse

def beValue (bs : Bytes) : Nat := leValue bs.reverse

theorem beValue_beBytes {n : Nat} (h : n < Word.bound32) : beValue (beBytes n) = n := by
  simpa [beValue, beBytes, leValue_leBytes] using Nat.mod_eq_of_lt h

def frame (body : Bytes) : Except TransferError Bytes :=
  if body.length > limit then .error (.messageTooLarge (min body.length (Word.bound32 - 1)) limit)
  else .ok (beBytes body.length ++ body)

/-- The first message of a stream that will bring no more bytes, or none if the stream has ended;
and what is left of the stream in either case. -/
def readFrame {α : Type} (get : Get α) (stream : Bytes) :
    Except TransferError (Option α) × Bytes :=
  match getBytes 4 stream with
  | none => (.ok none, [])
  | some (head, rest) =>
    if beValue head > limit then (.error (.messageTooLarge (beValue head) limit), rest)
    else
      match getBytes (beValue head) rest with
      | none => (.error (.io .earlyEnd), [])
      | some (body, rest) =>
        match decode get body with
        | some a => (.ok (some a), rest)
        | none => (.error (.serialization "malformed message"), rest)

/-- All messages of a stream, how it ends (cleanly or with a failure), and what is left of it. -/
def readFrames {α : Type} (get : Get α) (stream : Bytes) : List α × Option TransferError × Bytes :=
  go (stream.length / 4 + 1) stream []
where
  go : Nat → Bytes → List α → List α × Option TransferError × Bytes
    | 0, rest, acc => (acc.reverse, none, rest)
    | fuel + 1, rest, acc =>
      match readFrame get rest with
      | (.ok (some a), rest) => go fuel rest (a :: acc)
      | (.ok none, rest) => (acc.reverse, none, rest)
      | (.error e, rest) => (acc.reverse, some e, rest)

end Archivist.Wire
