import Archivist.Proofs.Wire.RoundTrip
set_option autoImplicit false

/-!
# Messages in the pieces in which they come

A stream brings its bytes in pieces that may be cut anywhere.  A reader takes what has come and
waits until it has as many bytes as it asked for, so it reads what it would read if all bytes had
come at once (`readMessage_eq`).  A writer writes a whole message or, if it is too long, nothing.
What was written is read in its order, whatever the pieces, and then the stream has ended.
-/

namespace Archivist

/-- A request as it travels. -/
def RequestFrame.zoneless (f : RequestFrame) : RequestFrame := ⟨f.id, f.request.zoneless⟩

namespace Wire

/-- The rest of a stream in the pieces in which it will come; an empty piece is a moment at which
nothing has come. -/
abbrev Pieces := List Bytes

namespace Pieces

/-- One read with room for some bytes.  It waits for the next bytes and takes as many of them as
there is room for; only at the end of the stream it takes none. -/
def read (room : Nat) : Pieces → Bytes × Pieces
  | [] => ([], [])
  | [] :: ps => read room ps
  | (b :: bs) :: ps => ((b :: bs).take room, (b :: bs).drop room :: ps)

/-- Reads on until there are as many bytes as were asked for, or the stream has ended. -/
def fill (count : Nat) (ps : Pieces) : Option Bytes × Pieces :=
  if count = 0 then (some [], ps)
  else
    match read count ps with
    | ([], rest) => (none, rest)
    | (b :: bs, rest) =>
      let (more, rest) := fill (count - (b :: bs).length) rest
      (more.map (b :: bs ++ ·), rest)
termination_by count
decreasing_by
  rw [List.length_cons]
  omega

theorem read_append (room : Nat) (ps : Pieces) :
    (read room ps).1 ++ (read room ps).2.flatten = ps.flatten := by
  induction ps with
  | nil => rfl
  | cons p ps ih =>
    cases p with
    | nil => exact ih
    | cons b bs =>
      rw [read, List.flatten_cons, ← List.append_assoc, List.take_append_drop, List.flatten_cons]

theorem length_read_le (room : Nat) (ps : Pieces) : (read room ps).1.length ≤ room := by
  induction ps with
  | nil => exact Nat.zero_le _
  | cons p ps ih =>
    cases p with
    | nil => exact ih
    | cons b bs => exact List.length_take_le _ _

theorem flatten_of_read_eq_nil {room : Nat} (space : room ≠ 0) {ps : Pieces}
    (h : (read room ps).1 = []) : ps.flatten = [] := by
  induction ps with
  | nil => rfl
  | cons p ps ih =>
    cases p with
    | nil => exact ih h
    | cons b bs =>
      obtain ⟨n, rfl⟩ := Nat.exists_eq_succ_of_ne_zero space
      cases h

end Pieces

open Pieces

theorem getBytes_across {count : Nat} {front : Bytes} (h : front.length ≤ count) (behind : Bytes) :
    getBytes count (front ++ behind) =
      (getBytes (count - front.length) behind).map fun (more, rest) => (front ++ more, rest) := by
  unfold getBytes
  by_cases enough : count - front.length ≤ behind.length
  · rw [if_pos enough, if_pos (by rw [List.length_append]; omega), List.take_append,
      List.drop_append, List.take_of_length_le h, List.drop_of_length_le h]
    rfl
  · rw [if_neg enough, if_neg (by rw [List.length_append]; omega)]
    rfl

theorem fill_eq (count : Nat) (ps : Pieces) :
    ∃ rest, fill count ps = ((getBytes count ps.flatten).map (·.1), rest) ∧
      rest.flatten = ((getBytes count ps.flatten).map (·.2)).getD [] := by
  -- Each read that brings bytes leaves fewer to be asked for.
  induction count using Nat.strongRecOn generalizing ps with
  | ind count ih =>
    unfold fill
    by_cases hnone : count = 0
    · subst hnone
      exact ⟨ps, rfl, rfl⟩
    rw [if_neg hnone]
    have all := read_append count ps
    have room := length_read_le count ps
    rcases taken : read count ps with ⟨front, rest⟩
    rw [taken] at all room
    cases front with
    | nil =>
      have ended : ps.flatten = [] := flatten_of_read_eq_nil hnone (by rw [taken])
      have short : getBytes count [] = none := if_neg (by rw [List.length_nil]; omega)
      rw [ended] at all ⊢
      rw [short]
      exact ⟨rest, rfl, all⟩
    | cons b bs =>
      have less : count - (b :: bs).length < count := by
        rw [List.length_cons]
        omega
      obtain ⟨last, filled, left⟩ := ih _ less rest
      rw [← all, getBytes_across room]
      refine ⟨last, ?_, ?_⟩
      · dsimp only
        rw [filled]
        simp only [Option.map_map]
        rfl
      · rw [left]
        simp only [Option.map_map]
        rfl

section Reading

variable {α : Type} {get : Get α}

def readMessage (get : Get α) (ps : Pieces) : Except TransferError (Option α) × Pieces :=
  match fill 4 ps with
  | (none, rest) => (.ok none, rest)
  | (some head, rest) =>
    if beValue head > limit then (.error (.messageTooLarge (beValue head) limit), rest)
    else
      match fill (beValue head) rest with
      | (none, rest) => (.error (.io .earlyEnd), rest)
      | (some body, rest) =>
        match decode get body with
        | some a => (.ok (some a), rest)
        | none => (.error (.serialization "malformed message"), rest)

/-- However a stream is cut, the first message is that of the whole stream, and so is the rest. -/
theorem readMessage_eq (get : Get α) (ps : Pieces) :
    ∃ rest, readMessage get ps = ((readFrame get ps.flatten).1, rest) ∧
      rest.flatten = (readFrame get ps.flatten).2 := by
  obtain ⟨behind, head, left⟩ := fill_eq 4 ps
  unfold readMessage readFrame
  rw [head]
  cases first : getBytes 4 ps.flatten with
  | none =>
    rw [first] at left
    exact ⟨behind, rfl, left⟩
  | some found =>
    obtain ⟨length, rest⟩ := found
    rw [first] at left
    have left : behind.flatten = rest := left
    dsimp only [Option.map_some]
    split
    · exact ⟨behind, rfl, left⟩
    · obtain ⟨last, body, left'⟩ := fill_eq (beValue length) behind
      rw [left] at body left'
      rw [body]
      cases second : getBytes (beValue length) rest with
      | none =>
        rw [second] at left'
        exact ⟨last, rfl, left'⟩
      | some found =>
        obtain ⟨text, rest⟩ := found
        rw [second] at left'
        dsimp only [Option.map_some]
        cases decode get text with
        | some a => exact ⟨last, rfl, left'⟩
        | none => exact ⟨last, rfl, left'⟩

/-- Messages that are read one after the other, and what is left behind them. -/
inductive Yields (get : Get α) : Pieces → List α → Pieces → Prop
  | done (ps : Pieces) : Yields get ps [] ps
  | next {ps qs rest : Pieces} {a : α} {as : List α} (first : readMessage get ps = (.ok (some a), qs))
      (later : Yields get qs as rest) : Yields get ps (a :: as) rest

end Reading

/-- Messages of one kind: how they are written, how they are read, and what a reader sees of
them. -/
structure Kind (α : Type) where
  put : α → Bytes
  get : Get α
  seen : α → α
  get_put : ∀ a, (put a).length < Word.bound32 → get (put a) = some (seen a, [])

def requests : Kind RequestFrame where
  put := putRequestFrame
  get := getRequestFrame
  seen := RequestFrame.zoneless
  get_put := getRequestFrame_put

def answers : Kind ResponseFrame where
  put := putResponseFrame
  get := getResponseFrame
  seen := id
  get_put := getResponseFrame_put

namespace Kind

variable {α : Type} (k : Kind α)

def Fits (a : α) : Prop := (k.put a).length ≤ limit

instance (a : α) : Decidable (k.Fits a) := inferInstanceAs (Decidable (_ ≤ _))

def write (out : Bytes) (a : α) : Except TransferError Unit × Bytes :=
  match frame (k.put a) with
  | .ok bytes => (.ok (), out ++ bytes)
  | .error e => (.error e, out)

def written (as : List α) : Bytes := as.foldl (fun out a => (k.write out a).2) []

def packed (a : α) : Bytes := beBytes (k.put a).length ++ k.put a

variable {k}

theorem frame_of_fits {a : α} (fits : k.Fits a) : frame (k.put a) = .ok (k.packed a) :=
  if_neg (Nat.not_lt.2 fits)

theorem write_of_fits {a : α} (fits : k.Fits a) (out : Bytes) :
    k.write out a = (.ok (), out ++ k.packed a) := by
  rw [write, frame_of_fits fits]

theorem write_of_not_fits {a : α} (long : ¬ k.Fits a) (out : Bytes) :
    ∃ size, k.write out a = (.error (.messageTooLarge size limit), out) := by
  have refused : frame (k.put a) = _ := if_pos (Nat.lt_of_not_le long)
  rw [write, refused]
  exact ⟨_, rfl⟩

theorem write_eq_ok_iff (out : Bytes) (a : α) : (k.write out a).1 = .ok () ↔ k.Fits a := by
  by_cases fits : k.Fits a
  · rw [write_of_fits fits]
    exact ⟨fun _ => fits, fun _ => rfl⟩
  · obtain ⟨size, refused⟩ := write_of_not_fits fits out
    rw [refused]
    exact ⟨fun h => (by cases h), fun h => absurd h fits⟩

theorem foldl_write (out : Bytes) (as : List α) :
    as.foldl (fun out a => (k.write out a).2) out =
      out ++ (as.filter fun a => k.Fits a).flatMap k.packed := by
  induction as generalizing out with
  | nil => rw [List.foldl_nil, List.filter_nil, List.flatMap_nil, List.append_nil]
  | cons a as ih =>
    rw [List.foldl_cons, ih]
    by_cases fits : k.Fits a
    · rw [write_of_fits fits, List.filter_cons_of_pos (by simpa using fits), List.flatMap_cons,
        List.append_assoc]
    · obtain ⟨size, refused⟩ := write_of_not_fits fits out
      rw [refused, List.filter_cons_of_neg (by simpa using fits)]

theorem written_eq (as : List α) :
    k.written as = (as.filter fun a => k.Fits a).flatMap k.packed :=
  foldl_write [] as

theorem readMessage_packed {a : α} (fits : k.Fits a) {ps : Pieces} {behind : Bytes}
    (stream : ps.flatten = k.packed a ++ behind) :
    ∃ rest, readMessage k.get ps = (.ok (some (k.seen a)), rest) ∧ rest.flatten = behind := by
  have framed := frame_of_fits fits
  have whole := readFrame_frame framed (k.get_put a (short_of_frame framed)) behind
  obtain ⟨rest, read, left⟩ := readMessage_eq k.get ps
  rw [stream, whole] at read left
  exact ⟨rest, read, left⟩

/-- Messages at the front of a stream are read in their order, and what stands behind them is
left. -/
theorem yields_packed {as : List α} (fit : ∀ a ∈ as, k.Fits a) {ps : Pieces} {behind : Bytes}
    (stream : ps.flatten = as.flatMap k.packed ++ behind) :
    ∃ rest, Yields k.get ps (as.map k.seen) rest ∧ rest.flatten = behind := by
  induction as generalizing ps with
  | nil => exact ⟨ps, .done ps, stream⟩
  | cons a as ih =>
    rw [List.flatMap_cons, List.append_assoc] at stream
    obtain ⟨qs, first, left⟩ := readMessage_packed (fit a List.mem_cons_self) stream
    obtain ⟨rest, later, left⟩ := ih (fun b mem => fit b (List.mem_cons_of_mem a mem)) left
    exact ⟨rest, .next first later, left⟩

theorem readMessage_of_short {ps : Pieces} (short : ps.flatten.length < 4) :
    (readMessage k.get ps).1 = .ok none := by
  obtain ⟨rest, read, -⟩ := readMessage_eq k.get ps
  have ended : getBytes 4 ps.flatten = none := if_neg (Nat.not_le.2 short)
  rw [read, readFrame, ended]

structure Carried (k : Kind α) : Prop where
  accepts : ∀ out a, (k.write out a).1 = .ok () ↔ (k.put a).length ≤ limit
  refuses : ∀ out a, (k.write out a).1 ≠ .ok () → (k.write out a).2 = out
  delivers : ∀ as (ps : Pieces), ps.flatten = k.written as →
    ∃ rest, Yields k.get ps ((as.filter fun a => (k.put a).length ≤ limit).map k.seen) rest ∧
      rest.flatten = [] ∧ (readMessage k.get rest).1 = .ok none

theorem carried (k : Kind α) : k.Carried where
  accepts := write_eq_ok_iff
  refuses out a failed := by
    have long : ¬ k.Fits a := fun fits => failed ((write_eq_ok_iff out a).2 fits)
    obtain ⟨size, refused⟩ := write_of_not_fits long out
    rw [refused]
  delivers as ps stream := by
    have fit : ∀ a ∈ as.filter fun a => k.Fits a, k.Fits a :=
      fun a mem => of_decide_eq_true (List.mem_filter.1 mem).2
    rw [written_eq, ← List.append_nil (List.flatMap _ _)] at stream
    obtain ⟨rest, yields, ended⟩ := yields_packed fit stream
    refine ⟨rest, yields, ended, readMessage_of_short ?_⟩
    rw [ended]
    decide

end Kind
end Wire

/-- A request and an answer are written exactly if their bytes are no more than the limit, and one
that is refused leaves no byte.  What was written is read as the same messages in the same order,
whatever the pieces in which it comes, with nothing left over, and then the stream has ended;
only that an address comes without its flow label and its zone. -/
theorem requests_answers_carried : Wire.requests.Carried ∧ Wire.answers.Carried :=
  ⟨Wire.Kind.carried _, Wire.Kind.carried _⟩

end Archivist
