import Archivist.Proofs.Wire.Delivery
set_option autoImplicit false

/-!
# Streams that break off

A stream of messages may end anywhere.  The messages that came whole are read.  If the last one has
lost bytes of its body the reader fails; if it has lost bytes of its length the reader takes this
for the end of the stream, as if nothing had been lost.
-/

namespace Archivist

namespace Wire

variable {α : Type}

theorem length_beBytes (n : Nat) : (beBytes n).length = 4 := by
  rw [beBytes, List.length_reverse, length_leBytes]

theorem readFrame_of_cut {get : Get α} {body piece missing : Bytes} (lost : missing ≠ [])
    (h : frame body = .ok (piece ++ missing)) (beyond : 4 ≤ piece.length) :
    (readFrame get piece).1 = .error (.io .earlyEnd) := by
  have bound := short_of_frame h
  have short : ¬ body.length > limit := by
    intro long
    rw [frame, if_pos long] at h
    cases h
  rw [frame, if_neg short] at h
  obtain ⟨front, rfl, rest⟩ : ∃ front, piece = beBytes body.length ++ front ∧
      body = front ++ missing := by
    rcases List.append_eq_append_iff.1 (Except.ok.inj h) with
      ⟨front, eq, rest⟩ | ⟨more, eq, rest⟩
    · exact ⟨front, eq, rest⟩
    · have four := congrArg List.length eq
      rw [List.length_append, length_beBytes] at four
      have hnone : more = [] := List.eq_nil_of_length_eq_zero (by omega)
      rw [hnone, List.append_nil] at eq
      rw [hnone, List.nil_append] at rest
      exact ⟨[], by rw [eq, List.append_nil], rest.symm⟩
  have head := @getBytes_append (beBytes body.length) front
  rw [length_beBytes] at head
  have few : ¬ body.length ≤ front.length := by
    have hsome := List.length_pos_iff.2 lost
    have sum := congrArg List.length rest
    rw [List.length_append] at sum
    omega
  have tail : getBytes body.length front = none := if_neg few
  rw [readFrame, head]
  dsimp only
  rw [beValue_beBytes bound, if_neg short, tail]

namespace Kind

variable {k : Kind α}

theorem written_of_fit {as : List α} (fit : ∀ a ∈ as, k.Fits a) :
    k.written as = as.flatMap k.packed := by
  have all : (as.filter fun a => k.Fits a) = as :=
    List.filter_eq_self.2 fun a mem => by simpa using fit a mem
  rw [written_eq, all]

/-- What there is of some messages when a stream breaks off in the first of them. -/
inductive BreaksOff (k : Kind α) : List α → Bytes → Prop
  | none_left : BreaksOff k [] []
  | inside {a : α} {more : List α} {piece missing : Bytes} (eq : k.packed a = piece ++ missing)
      (lost : missing ≠ []) : BreaksOff k (a :: more) piece

/-- The messages that are whole in the front of a stream, and what there is of the next one. -/
theorem exists_whole (as : List α) {cut : Bytes} (h : cut <+: as.flatMap k.packed) :
    ∃ whole others piece, as = whole ++ others ∧ cut = whole.flatMap k.packed ++ piece ∧
      k.BreaksOff others piece := by
  induction as generalizing cut with
  | nil => exact ⟨[], [], [], rfl, List.prefix_nil.1 h, .none_left⟩
  | cons a as ih =>
    rw [List.flatMap_cons] at h
    by_cases all : (k.packed a).length ≤ cut.length
    · obtain ⟨behind, rfl⟩ := List.prefix_of_prefix_length_le (List.prefix_append _ _) h all
      obtain ⟨whole, others, piece, rfl, rfl, ends⟩ := ih ((List.prefix_append_right_inj _).1 h)
      exact ⟨a :: whole, others, piece, rfl,
        by rw [List.flatMap_cons, List.append_assoc], ends⟩
    · have part : cut <+: k.packed a :=
        List.prefix_of_prefix_length_le h (List.prefix_append _ _) (by omega)
      obtain ⟨missing, eq⟩ := part
      refine ⟨[], a :: as, cut, rfl, rfl, .inside eq.symm ?_⟩
      rintro rfl
      rw [List.append_nil] at eq
      rw [eq] at all
      exact all (Nat.le_refl _)

theorem readMessage_of_cut {a : α} (fits : k.Fits a) {piece missing : Bytes} (lost : missing ≠ [])
    (eq : k.packed a = piece ++ missing) {ps : Pieces} (stream : ps.flatten = piece) :
    (readMessage k.get ps).1 = if piece.length < 4 then .ok none else .error (.io .earlyEnd) := by
  split
  · rename_i short
    exact readMessage_of_short (stream ▸ short)
  · rename_i beyond
    obtain ⟨rest, read, -⟩ := readMessage_eq k.get ps
    have framed := frame_of_fits fits
    rw [eq] at framed
    rw [read, stream]
    exact readFrame_of_cut lost framed (Nat.le_of_not_lt beyond)

/-- What a reader makes of the front of a stream: it reads the messages that are whole, and it sees
the end of the stream if fewer than four bytes stand behind them, and a failure otherwise.  So the
end of the stream stands for a boundary between messages unless a length was cut. -/
def ReadsCut (k : Kind α) (ps : Pieces) : Prop :=
  ∀ as : List α, (∀ a ∈ as, (k.put a).length ≤ limit) → ps.flatten <+: k.written as →
    ∃ n ≤ as.length, ∃ rest, Yields k.get ps ((as.take n).map k.seen) rest ∧
      (∀ m ≤ as.length, k.written (as.take m) <+: ps.flatten ↔ m ≤ n) ∧
      ps.flatten = k.written (as.take n) ++ rest.flatten ∧
      (readMessage k.get rest).1 =
        (if rest.flatten.length < 4 then .ok none else .error (.io .earlyEnd)) ∧
      (((readMessage k.get rest).1 = .ok none ↔
          ∃ m ≤ as.length, ps.flatten = k.written (as.take m)) ↔
        rest.flatten.length = 0 ∨ 4 ≤ rest.flatten.length)

theorem fit_take {as : List α} (fit : ∀ a ∈ as, k.Fits a) (n : Nat) :
    ∀ a ∈ as.take n, k.Fits a := fun a mem => fit a (List.mem_of_mem_take mem)

theorem written_take_front {whole others : List α} (fit : ∀ a ∈ whole ++ others, k.Fits a)
    {m : Nat} (le : m ≤ whole.length) :
    k.written ((whole ++ others).take m) <+: whole.flatMap k.packed := by
  rw [written_of_fit (fit_take fit m), List.take_append_of_le_length le]
  conv => rhs; rw [← List.take_append_drop m whole, List.flatMap_append]
  exact List.prefix_append _ _

theorem whole_iff {whole others : List α} (fit : ∀ a ∈ whole ++ others, k.Fits a) {piece : Bytes}
    (ends : k.BreaksOff others piece) {m : Nat} (le : m ≤ (whole ++ others).length) :
    k.written ((whole ++ others).take m) <+: whole.flatMap k.packed ++ piece ↔
      m ≤ whole.length := by
  constructor
  · intro inside
    cases ends with
    | none_left => simpa using le
    | inside eq lost =>
      refine Nat.le_of_not_lt fun beyond => ?_
      obtain ⟨i, further⟩ := Nat.exists_eq_succ_of_ne_zero (n := m - whole.length) (by omega)
      rw [written_of_fit (fit_take fit m), List.take_append, List.flatMap_append,
        List.take_of_length_le (by omega), further, List.take_succ_cons, List.flatMap_cons, eq]
        at inside
      have longer := ((List.prefix_append_right_inj _).1 inside).length_le
      have hsome := List.length_pos_iff.2 lost
      simp only [List.length_append] at longer
      omega
  · intro early
    exact (written_take_front fit early).trans (List.prefix_append _ _)

theorem boundary_iff {whole others : List α} (fit : ∀ a ∈ whole ++ others, k.Fits a) {piece : Bytes}
    (ends : k.BreaksOff others piece) :
    (∃ m ≤ (whole ++ others).length,
      whole.flatMap k.packed ++ piece = k.written ((whole ++ others).take m)) ↔ piece = [] := by
  constructor
  · rintro ⟨m, le, eq⟩
    have early : m ≤ whole.length := (whole_iff fit ends le).1 (eq ▸ List.prefix_refl _)
    have inside := (written_take_front fit early).length_le
    rw [← eq, List.length_append] at inside
    exact List.eq_nil_of_length_eq_zero (by omega)
  · rintro rfl
    refine ⟨whole.length, by simp, ?_⟩
    rw [List.take_left, List.append_nil, written_of_fit]
    exact fun a mem => fit a (List.mem_append_left _ mem)

theorem readsCut (k : Kind α) (ps : Pieces) : k.ReadsCut ps := by
  intro as fit cut
  rw [written_of_fit fit] at cut
  obtain ⟨whole, others, piece, rfl, stream, ends⟩ := exists_whole as cut
  have fit_whole : ∀ a ∈ whole, k.Fits a := fun a mem => fit a (List.mem_append_left _ mem)
  obtain ⟨rest, yields, left⟩ := yields_packed fit_whole stream
  have all : (whole ++ others).take whole.length = whole := List.take_left
  have stop : (readMessage k.get rest).1 =
      if rest.flatten.length < 4 then .ok none else .error (.io .earlyEnd) := by
    rw [left]
    cases ends with
    | none_left => exact readMessage_of_short (by rw [left]; decide)
    | inside eq lost => exact readMessage_of_cut (fit _ (by simp)) lost eq left
  refine ⟨whole.length, by simp, rest, ?_, ?_, ?_, stop, ?_⟩
  · rwa [all]
  · intro m le
    rw [stream]
    exact whole_iff fit ends le
  · rw [all, left, written_of_fit fit_whole, stream]
  · rw [stop, stream, boundary_iff fit ends, left, ← List.length_eq_zero_iff]
    split
    · simp only [true_iff]
      omega
    · simp only [reduceCtorEq, false_iff]
      omega

end Kind
end Wire

/-- Of a stream that breaks off, a reader reads exactly the messages that came whole.  It takes the
break for the end of the stream if fewer than four bytes stand behind them, and for a failure
otherwise: the end is a boundary between messages unless a length was cut. -/
theorem requests_answers_readsCut (ps : Wire.Pieces) :
    Wire.requests.ReadsCut ps ∧ Wire.answers.ReadsCut ps :=
  ⟨Wire.Kind.readsCut _ ps, Wire.Kind.readsCut _ ps⟩

def twoQuestions : List RequestFrame := [⟨1, .status⟩, ⟨2, .status⟩]

def halfALength : Wire.Pieces := [[0, 0, 0, 12, 1], [0, 0, 0, 0, 0, 0, 0, 4], [], [0, 0, 0, 0, 0]]

theorem readsCut_halfALength :
    halfALength.flatten <+: Wire.requests.written twoQuestions ∧
      (∀ m ≤ 2, halfALength.flatten ≠ Wire.requests.written (twoQuestions.take m)) ∧
      ∃ rest, Wire.Yields Wire.requests.get halfALength [⟨1, .status⟩] rest ∧
        (Wire.readMessage Wire.requests.get rest).1 = .ok none := by
  have cut : halfALength.flatten <+: Wire.requests.written twoQuestions := by decide +kernel
  have between : ∀ m ≤ 2, halfALength.flatten ≠ Wire.requests.written (twoQuestions.take m) := by
    decide +kernel
  obtain ⟨n, -, rest, yields, whole, stream, stop, -⟩ :=
    (requests_answers_readsCut halfALength).1 twoQuestions (by decide +kernel) cut
  have first : 1 ≤ n := (whole 1 (by decide)).1 (by decide +kernel)
  have second : ¬ 2 ≤ n := fun both =>
    absurd ((whole 2 (by decide)).2 both) (by decide +kernel)
  obtain rfl : n = 1 := by omega
  have left : rest.flatten.length = 2 := by
    have sum := congrArg List.length stream
    have eighteen : halfALength.flatten.length = 18 := rfl
    have sixteen : (Wire.requests.written (twoQuestions.take 1)).length = 16 := by decide +kernel
    rw [List.length_append, eighteen, sixteen] at sum
    omega
  rw [left] at stop
  exact ⟨cut, between, rest, yields, stop⟩

end Archivist
