import Archivist.Wire.Frame
set_option autoImplicit false

namespace Archivist.Wire

variable {α : Type} {get : Get α} {stream rest : Bytes} {a : α}

theorem length_of_getBytes {count : Nat} {bs front : Bytes}
    (h : getBytes count bs = some (front, rest)) : rest.length + count = bs.length := by
  unfold getBytes at h
  split at h
  · rename_i enough
    cases h
    rw [List.length_drop]
    omega
  · cases h

theorem length_of_readFrame (h : readFrame get stream = (.ok (some a), rest)) :
    rest.length + 4 ≤ stream.length := by
  unfold readFrame at h
  split at h
  · cases h
  · rename_i head behind first
    have four := length_of_getBytes first
    split at h
    · cases h
    · split at h
      · cases h
      · rename_i body left second
        have more := length_of_getBytes second
        split at h
        · cases h
          omega
        · cases h

theorem length_of_readFrame_error {e : TransferError}
    (h : readFrame get stream = (.error e, rest)) : rest.length + 4 ≤ stream.length := by
  unfold readFrame at h
  split at h
  · cases h
  · rename_i head behind first
    have four := length_of_getBytes first
    split at h
    · cases h
      omega
    · split at h
      · cases h
        rw [List.length_nil]
        omega
      · rename_i body left second
        have more := length_of_getBytes second
        split at h
        · cases h
        · cases h
          omega

theorem readFrames_acc (fuel : Nat) (stream : Bytes) (acc : List α) :
    readFrames.go get fuel stream acc =
      (acc.reverse ++ (readFrames.go get fuel stream []).1,
        (readFrames.go get fuel stream []).2) := by
  induction fuel generalizing stream acc with
  | zero => simp [readFrames.go]
  | succ fuel ih =>
    rw [readFrames.go, readFrames.go]
    split
    · rename_i a rest _
      rw [ih rest (a :: acc), ih rest [a]]
      simp
    · simp
    · simp

/-- It makes no difference for how many messages the reader is prepared, if they are enough. -/
theorem readFrames_fuel (fuel more : Nat) (stream : Bytes) (enough : stream.length / 4 < fuel)
    (enough' : stream.length / 4 < more) :
    readFrames.go get fuel stream [] = readFrames.go get more stream [] := by
  induction fuel generalizing more stream with
  | zero => omega
  | succ fuel ih =>
    cases more with
    | zero => omega
    | succ more =>
      rw [readFrames.go, readFrames.go]
      split
      · rename_i a rest first
        have shorter := length_of_readFrame first
        rw [readFrames_acc fuel rest [a], readFrames_acc more rest [a],
          ih more rest (by omega) (by omega)]
      · rfl
      · rfl

theorem readFrames_of_some (h : readFrame get stream = (.ok (some a), rest)) :
    readFrames get stream = (a :: (readFrames get rest).1, (readFrames get rest).2) := by
  have shorter := length_of_readFrame h
  have eq : readFrames get stream = readFrames.go get (stream.length / 4) rest [a] := by
    rw [readFrames, readFrames.go, h]
  rw [eq, readFrames_acc, readFrames_fuel _ (rest.length / 4 + 1) rest (by omega) (by omega)]
  rfl

theorem readFrames_of_none (h : readFrame get stream = (.ok none, rest)) :
    readFrames get stream = ([], none, rest) := by
  rw [readFrames, readFrames.go, h]
  rfl

theorem readFrames_of_error {e : TransferError} (h : readFrame get stream = (.error e, rest)) :
    readFrames get stream = ([], some e, rest) := by
  rw [readFrames, readFrames.go, h]
  rfl

theorem readFrames_nil {e : Option TransferError} (h : readFrames get stream = ([], e, rest)) :
    readFrame get stream = (.ok none, rest) ∧ e = none ∨
      ∃ error, readFrame get stream = (.error error, rest) ∧ e = some error := by
  rcases first : readFrame get stream with ⟨_ | _ | a, behind⟩
  · rw [readFrames_of_error first] at h
    cases h
    exact .inr ⟨_, rfl, rfl⟩
  · rw [readFrames_of_none first] at h
    cases h
    exact .inl ⟨rfl, rfl⟩
  · rw [readFrames_of_some first] at h
    cases h

theorem readFrames_cons {as : List α} {ending : Option TransferError × Bytes}
    (h : readFrames get stream = (a :: as, ending)) :
    ∃ rest, readFrame get stream = (.ok (some a), rest) ∧ readFrames get rest = (as, ending) := by
  rcases first : readFrame get stream with ⟨_ | _ | b, rest⟩
  · rw [readFrames_of_error first] at h
    cases h
  · rw [readFrames_of_none first] at h
    cases h
  · rw [readFrames_of_some first] at h
    cases h
    exact ⟨rest, rfl, rfl⟩

end Archivist.Wire
