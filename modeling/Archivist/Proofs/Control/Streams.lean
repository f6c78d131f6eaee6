import Archivist.Proofs.Control.Arrivals
import Archivist.Proofs.Wire.Delivery
set_option autoImplicit false

namespace Archivist

theorem Wire.readFrame_rest_eq_nil {α : Type} {get : Wire.Get α} {stream rest : Wire.Bytes}
    {r : Except TransferError (Option α)} (ended : r = .ok none ∨ ∃ e, r = .error (.io e))
    (h : Wire.readFrame get stream = (r, rest)) : rest = [] := by
  unfold Wire.readFrame at h
  split at h
  · exact (congrArg Prod.snd h).symm
  · split at h
    · rcases ended with rfl | ⟨e, rfl⟩ <;> cases h
    · split at h
      · exact (congrArg Prod.snd h).symm
      · split at h <;> rcases ended with rfl | ⟨e, rfl⟩ <;> cases h

theorem Client.arrivals_eq (stream : List UInt8) :
    Client.arrivals stream =
      match Wire.readFrame Wire.getResponseFrame stream with
      | (.ok none, _) => []
      | (.ok (some f), rest) => .ok f :: Client.arrivals rest
      | (.error e, rest) => .error e :: Client.arrivals rest := by
  have unfolded : arrivals stream = arrivals.go (stream.length / 4 + 1) stream := rfl
  rw [unfolded, arrivals.go]
  rcases whole : Wire.readFrame Wire.getResponseFrame stream with ⟨e | _ | f, rest⟩
  · have shorter := Wire.length_of_readFrame_error whole
    dsimp only
    rw [arrivals_fuel _ (rest.length / 4 + 1) rest (by omega) (by omega), arrivals]
  · rfl
  · have shorter := Wire.length_of_readFrame whole
    dsimp only
    rw [arrivals_fuel _ (rest.length / 4 + 1) rest (by omega) (by omega), arrivals]

/-- How a stream goes on behind the last byte that it brings. -/
inductive StreamEnd where
  | closed
  | fails (e : IoError)
  /-- Nothing comes any more, and whoever reads waits. -/
  | silent
deriving DecidableEq

/-- What becomes of a message that is written; it may break off or hang behind some bytes. -/
inductive Writing where
  | goesOut
  | breaks (after : Nat) (e : IoError)
  | hangs (after : Nat)

structure ControlStream where
  incoming : Wire.Pieces
  ending : StreamEnd
  /-- What becomes of the messages that are written next; those after them go out. -/
  writings : List Writing := []
  written : List UInt8 := []
  /-- How often the stream was found to be lost. -/
  losses : Nat := 0

namespace ControlStream

def atEnd (s : ControlStream) (r : Except TransferError (Option ResponseFrame)) :
    ControlStream × Option (Except TransferError (Option ResponseFrame)) :=
  match s.ending with
  | .closed => ({ s with losses := s.losses + 1 }, some r)
  | .fails e => ({ s with losses := s.losses + 1 }, some (.error (.io e)))
  | .silent => (s, none)

/-- Reads an answer; nothing comes of it on a stream that stays silent. -/
def read (s : ControlStream) :
    ControlStream × Option (Except TransferError (Option ResponseFrame)) :=
  match Wire.readMessage Wire.getResponseFrame s.incoming with
  | (.ok none, rest) => atEnd { s with incoming := rest } (.ok none)
  | (.error (.io e), rest) => atEnd { s with incoming := rest } (.error (.io e))
  | (r, rest) => ({ s with incoming := rest }, some r)

def write (s : ControlStream) (bytes : List UInt8) :
    ControlStream × Option (Except IoError Unit) :=
  match s.writings with
  | [] => ({ s with written := s.written ++ bytes }, some (.ok ()))
  | .goesOut :: later =>
    ({ s with written := s.written ++ bytes, writings := later }, some (.ok ()))
  | .breaks after e :: later =>
    ({ s with
      written := s.written ++ bytes.take after, writings := later, losses := s.losses + 1 },
      some (.error e))
  | .hangs after :: later =>
    ({ s with written := s.written ++ bytes.take after, writings := later }, none)

variable {s s' : ControlStream}

/-- What a read can come to, and what the stream still brings behind it. -/
inductive Reads (s : ControlStream) :
    ControlStream × Option (Except TransferError (Option ResponseFrame)) → Prop where
  | answer (f : ResponseFrame) (rest : Wire.Pieces)
      (shorter : rest.flatten.length < s.incoming.flatten.length)
      (next : Client.arrivals s.incoming.flatten = .ok f :: Client.arrivals rest.flatten) :
      Reads s ({ s with incoming := rest }, some (.ok (some f)))
  | refused (e : TransferError) (rest : Wire.Pieces) (other : ∀ x, e ≠ .io x)
      (innocent : ∀ n, e ≠ .nodeUnavailable n)
      (next : Client.arrivals s.incoming.flatten = .error e :: Client.arrivals rest.flatten) :
      Reads s ({ s with incoming := rest }, some (.error e))
  | atEnd (r : Except TransferError (Option ResponseFrame)) (rest : Wire.Pieces)
      (ended : r = .ok none ∨ ∃ e, r = .error (.io e))
      (next : Client.arrivals s.incoming.flatten = [] ∨
        ∃ e, Client.arrivals s.incoming.flatten = [.error (.io e)])
      (nothing : rest.flatten = []) (speaks : s.ending ≠ .silent) :
      Reads s ({ s with incoming := rest, losses := s.losses + 1 }, some r)
  | waits (rest : Wire.Pieces) (silent : s.ending = .silent) :
      Reads s ({ s with incoming := rest }, none)

theorem reads_atEnd {rest : Wire.Pieces} {r : Except TransferError (Option ResponseFrame)}
    (ended : r = .ok none ∨ ∃ e, r = .error (.io e))
    (next : Client.arrivals s.incoming.flatten = [] ∨
      ∃ e, Client.arrivals s.incoming.flatten = [.error (.io e)])
    (nothing : rest.flatten = []) : Reads s (atEnd { s with incoming := rest } r) := by
  unfold atEnd
  split
  · rename_i closed
    exact .atEnd r rest ended next nothing fun silent => by cases closed.symm.trans silent
  · rename_i e fails
    exact .atEnd _ rest (.inr ⟨e, rfl⟩) next nothing fun silent => by cases fails.symm.trans silent
  · rename_i silent
    exact .waits rest silent

/-- The reader of messages complains only about a message itself or the end of the stream. -/
theorem innocent_of_readFrame {e : TransferError} {stream rest : Wire.Bytes}
    (h : Wire.readFrame Wire.getResponseFrame stream = (.error e, rest)) (n : String) :
    e ≠ .nodeUnavailable n := by
  unfold Wire.readFrame at h
  rintro rfl
  split at h
  · cases h
  · split at h
    · cases h
    · split at h
      · cases h
      · split at h <;> cases h

theorem reads_read (s : ControlStream) : Reads s s.read := by
  obtain ⟨rest, message, left⟩ := Wire.readMessage_eq Wire.getResponseFrame s.incoming
  have next := Client.arrivals_eq s.incoming.flatten
  rcases whole : Wire.readFrame Wire.getResponseFrame s.incoming.flatten with ⟨e | _ | f, behind⟩
  all_goals
    rw [whole] at message left next
    dsimp only at message left next
    unfold read
    rw [message]
  · cases e with
    | io x =>
      have nothing := Wire.readFrame_rest_eq_nil (.inr ⟨x, rfl⟩) whole
      rw [nothing] at left next
      exact reads_atEnd (.inr ⟨x, rfl⟩) (.inr ⟨x, next⟩) left
    | _ =>
      rw [← left] at next
      exact .refused _ rest (fun x eq => by cases eq) (fun n => innocent_of_readFrame whole n) next
  · have nothing := Wire.readFrame_rest_eq_nil (.inl rfl) whole
    exact reads_atEnd (.inl rfl) (.inl next) (left.trans nothing)
  · have shorter := Wire.length_of_readFrame whole
    rw [← left] at shorter next
    exact .answer f rest (by omega) next

theorem shorter_of_read {f : ResponseFrame} (h : s.read = (s', some (.ok (some f)))) :
    s'.incoming.flatten.length < s.incoming.flatten.length := by
  have reads := reads_read s
  rw [h] at reads
  cases reads with
  | answer _ rest shorter => exact shorter
  | atEnd _ rest ended => rcases ended with eq | ⟨e, eq⟩ <;> cases eq

def await (id : UInt64) (c : Client) (s : ControlStream) :
    Client × ControlStream × Option (Except TransferError Response) :=
  match _ : s.read with
  | (s', some (.ok (some f))) =>
    if f.id = id then (c, s', some (.ok f.response)) else await id (c.park f.id f.response) s'
  | (s', some (.ok none)) => (c, s', some (.error c.unavailable))
  | (s', some (.error (.io _))) => (c, s', some (.error c.unavailable))
  | (s', some (.error e)) => (c, s', some (.error e))
  | (s', none) => (c, s', none)
termination_by s.incoming.flatten.length
decreasing_by exact shorter_of_read ‹_›

section

variable {id : UInt64} {c : Client}

theorem await_of_answer {f : ResponseFrame} (h : s.read = (s', some (.ok (some f)))) :
    await id c s =
      if f.id = id then (c, s', some (.ok f.response))
      else await id (c.park f.id f.response) s' := by
  rw [await]
  split <;> rename_i h' <;> cases h.symm.trans h'
  rfl

theorem await_of_atEnd {r : Except TransferError (Option ResponseFrame)}
    (h : s.read = (s', some r)) (ended : r = .ok none ∨ ∃ e, r = .error (.io e)) :
    await id c s = (c, s', some (.error c.unavailable)) := by
  rw [await]
  rcases ended with rfl | ⟨e, rfl⟩ <;> split <;> rename_i h' <;> cases h.symm.trans h'
  · rfl
  · rfl
  · rename_i other
    exact absurd rfl (other e)

theorem await_of_refused {e : TransferError} (h : s.read = (s', some (.error e)))
    (other : ∀ x, e ≠ .io x) : await id c s = (c, s', some (.error e)) := by
  rw [await]
  split <;> rename_i h' <;> cases h.symm.trans h'
  · exact absurd rfl (other _)
  · rfl

theorem await_of_silence (h : s.read = (s', none)) : await id c s = (c, s', none) := by
  rw [await]
  split <;> rename_i h' <;> cases h.symm.trans h'
  rfl

theorem await_induction
    {motive : Client → ControlStream →
      Client × ControlStream × Option (Except TransferError Response) → Prop}
    (answered : ∀ c s f rest, s.read = ({ s with incoming := rest }, some (.ok (some f))) →
      Client.arrivals s.incoming.flatten = .ok f :: Client.arrivals rest.flatten → f.id = id →
      motive c s (c, { s with incoming := rest }, some (.ok f.response)))
    (setAside : ∀ c s f rest, s.read = ({ s with incoming := rest }, some (.ok (some f))) →
      Client.arrivals s.incoming.flatten = .ok f :: Client.arrivals rest.flatten → f.id ≠ id →
      motive (c.park f.id f.response) { s with incoming := rest }
        (await id (c.park f.id f.response) { s with incoming := rest }) →
      motive c s (await id (c.park f.id f.response) { s with incoming := rest }))
    (refused : ∀ c s e rest, s.read = ({ s with incoming := rest }, some (.error e)) →
      (∀ x, e ≠ .io x) → (∀ n, e ≠ .nodeUnavailable n) →
      Client.arrivals s.incoming.flatten = .error e :: Client.arrivals rest.flatten →
      motive c s (c, { s with incoming := rest }, some (.error e)))
    (lost : ∀ c s r rest,
      s.read = ({ s with incoming := rest, losses := s.losses + 1 }, some r) →
      (r = .ok none ∨ ∃ e, r = .error (.io e)) →
      (Client.arrivals s.incoming.flatten = [] ∨
        ∃ e, Client.arrivals s.incoming.flatten = [.error (.io e)]) → rest.flatten = [] →
      motive c s
        (c, { s with incoming := rest, losses := s.losses + 1 }, some (.error c.unavailable)))
    (waits : ∀ c s rest, s.read = ({ s with incoming := rest }, none) → s.ending = .silent →
      motive c s (c, { s with incoming := rest }, none))
    (c : Client) (s : ControlStream) : motive c s (await id c s) := by
  induction h : s.incoming.flatten.length using Nat.strongRecOn generalizing c s with
  | ind n ih =>
    have reads := reads_read s
    generalize read : s.read = out at reads
    cases reads with
    | answer f rest shorter next =>
      rw [await_of_answer read]
      split
      · rename_i same
        exact answered c s f rest read next same
      · rename_i other
        rw [h] at shorter
        exact setAside c s f rest read next other
          (ih _ shorter (c.park f.id f.response) { s with incoming := rest } rfl)
    | refused e rest other innocent next =>
      rw [await_of_refused read other]
      exact refused c s e rest read other innocent next
    | atEnd r rest ended next nothing =>
      rw [await_of_atEnd read ended]
      exact lost c s r rest read ended next nothing
    | waits rest silent =>
      rw [await_of_silence read]
      exact waits c s rest read silent

end

end ControlStream

end Archivist
