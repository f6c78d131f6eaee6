import Archivist.Proofs.Copy.Answers
import Archivist.Proofs.Wire.RoundTrip
import Archivist.Proofs.Wire.Streams
set_option autoImplicit false

namespace Archivist.Client

open Lookup

theorem arrivals_fuel (fuel more : Nat) (stream : List UInt8) (enough : stream.length / 4 < fuel)
    (enough' : stream.length / 4 < more) :
    arrivals.go fuel stream = arrivals.go more stream := by
  induction fuel generalizing more stream with
  | zero => omega
  | succ fuel ih =>
    cases more with
    | zero => omega
    | succ more =>
      rw [arrivals.go, arrivals.go]
      split
      · rfl
      · rename_i f rest first
        have shorter := Wire.length_of_readFrame first
        rw [ih more rest (by omega) (by omega)]
      · rename_i e rest first
        have shorter := Wire.length_of_readFrame_error first
        rw [ih more rest (by omega) (by omega)]

theorem arrivals_append {f : ResponseFrame} {bytes : List UInt8}
    (framed : Wire.frame (Wire.putResponseFrame f) = .ok bytes) (rest : List UInt8) :
    arrivals (bytes ++ rest) = .ok f :: arrivals rest := by
  have first := Wire.readFrame_of_answer framed rest
  have shorter := Wire.length_of_readFrame first
  unfold arrivals
  rw [arrivals.go, first]
  dsimp only
  rw [arrivals_fuel _ (rest.length / 4 + 1) rest (by omega) (by omega)]

theorem arrivals_of_frame {f : ResponseFrame} {bytes : List UInt8}
    (framed : Wire.frame (Wire.putResponseFrame f) = .ok bytes) : arrivals bytes = [.ok f] := by
  have whole := arrivals_append framed []
  rwa [List.append_nil] at whole

variable {c : Client} {id : UInt64}

theorem send_of_frame {request : Request} {bytes : List UInt8}
    (framed : Wire.frame (Wire.putRequestFrame ⟨c.nextId, request⟩) = .ok bytes) :
    c.send request = ({ c with nextId := c.nextId + 1 }, c.nextId, .ok bytes) := by
  unfold send
  dsimp only
  rw [framed]

theorem send_of_error {request : Request} {e : TransferError}
    (failed : Wire.frame (Wire.putRequestFrame ⟨c.nextId, request⟩) = .error e) :
    c.send request = ({ c with nextId := c.nextId + 1 }, c.nextId, .error c.unavailable) := by
  unfold send
  dsimp only
  rw [failed]

def carry (a : UInt64 × Response) : Except TransferError ResponseFrame := .ok ⟨a.1, a.2⟩

/-- No two answers that are set aside or on their way carry one number. -/
def Apart (c : Client) (coming : List (UInt64 × Response)) : Prop :=
  ((c.parked ++ coming).map (·.1)).Nodup

theorem Apart.eq {coming : List (UInt64 × Response)} (apart : c.Apart coming) {r r' : Response}
    (here : (id, r) ∈ c.parked ++ coming) (there : (id, r') ∈ c.parked ++ coming) : r = r' := by
  injection List.inj_on_of_nodup_map apart here there rfl

theorem filter_of_new {parked : List (UInt64 × Response)} (new : id ∉ parked.map (·.1)) :
    parked.filter (·.1 ≠ id) = parked := by
  rw [List.filter_eq_self]
  rintro ⟨other, r⟩ mem
  rw [decide_eq_true_eq]
  rintro rfl
  exact new (List.mem_map.2 ⟨_, mem, rfl⟩)

theorem park_of_new (new : id ∉ c.parked.map (·.1)) (r : Response) :
    c.park id r = { c with parked := (id, r) :: c.parked } := by
  rw [park, filter_of_new new]

theorem await_carry {coming : List (UInt64 × Response)} (apart : c.Apart coming)
    (new : id ∉ c.parked.map (·.1)) :
    (∃ early r later, coming = early ++ (id, r) :: later ∧
        await id c (coming.map carry) =
          ({ c with parked := early.reverse ++ c.parked }, some (.ok r), later.map carry)) ∨
      id ∉ coming.map (·.1) ∧
        await id c (coming.map carry) =
          ({ c with parked := coming.reverse ++ c.parked }, none, []) := by
  induction coming generalizing c with
  | nil => exact .inr ⟨List.not_mem_nil, rfl⟩
  | cons a coming ih =>
    obtain ⟨other, r⟩ := a
    rw [List.map_cons]
    by_cases mine : other = id
    · subst mine
      refine .inl ⟨[], r, coming, rfl, ?_⟩
      rw [carry, await, if_pos rfl]
      rfl
    · have on : await id c (carry (other, r) :: coming.map carry) =
          await id { c with parked := (other, r) :: c.parked } (coming.map carry) := by
        have fresh : other ∉ c.parked.map (·.1) := by
          unfold Apart at apart
          rw [List.map_append, List.nodup_append] at apart
          intro mem
          exact apart.2.2 _ mem _ (by simp) rfl
        rw [carry, await, if_neg mine, park_of_new fresh]
      have apart' : Apart { c with parked := (other, r) :: c.parked } coming := by
        have swapped : (c.parked ++ (other, r) :: coming).Perm ((other, r) :: c.parked ++ coming) :=
          List.perm_middle
        exact (swapped.map Prod.fst).nodup_iff.1 apart
      have new' : id ∉ ((other, r) :: c.parked).map (·.1) := by
        rw [List.map_cons, List.mem_cons, not_or]
        exact ⟨fun eq => mine eq.symm, new⟩
      rw [on]
      rcases ih apart' new' with ⟨early, r', later, rfl, eq⟩ | ⟨missing, eq⟩
      · refine .inl ⟨(other, r) :: early, r', later, rfl, ?_⟩
        rw [eq, List.reverse_cons, List.append_assoc]
        rfl
      · refine .inr ⟨?_, ?_⟩
        · rw [List.map_cons, List.mem_cons, not_or]
          exact ⟨fun eq => mine eq.symm, missing⟩
        · rw [eq, List.reverse_cons, List.append_assoc]
          rfl

theorem perm_of_lookup {parked : List (UInt64 × Response)} (apart : (parked.map (·.1)).Nodup)
    {r : Response} (found : parked.lookup id = some r) :
    parked.Perm ((id, r) :: parked.filter (·.1 ≠ id)) := by
  induction parked with
  | nil => cases found
  | cons a parked ih =>
    obtain ⟨other, r'⟩ := a
    rw [List.map_cons, List.nodup_cons] at apart
    rw [lookup_cons_if] at found
    split at found
    · rename_i here
      dsimp only at here found
      cases here
      cases found
      rw [List.filter_cons_of_neg (by simp), filter_of_new apart.1]
    · rename_i elsewhere
      rw [List.filter_cons_of_pos (by simpa using Ne.symm elsewhere)]
      exact ((ih apart.2 found).cons _).trans (.swap _ _ _)

theorem await_nextId (c : Client) (id : UInt64) (arriving : Arrivals) :
    (await id c arriving).1.nextId = c.nextId := by
  induction arriving generalizing c with
  | nil => rfl
  | cons a arriving ih =>
    cases a with
    | ok f =>
      rw [await]
      split
      · rfl
      · exact ih _
    | error e => cases e <;> rfl

theorem reply_nextId (c : Client) (id : UInt64) (arriving : Arrivals) :
    (c.reply id arriving).1.nextId = c.nextId := by
  unfold reply
  split
  · rfl
  · exact await_nextId c id arriving

/-- The answer to a request is the one that carries its number, and every other stays where it is or
is set aside; without it the client has set aside everything that has come. -/
theorem reply_carry {coming : List (UInt64 × Response)} (apart : c.Apart coming) (id : UInt64) :
    (∃ r parked later,
        c.reply id (coming.map carry) = ({ c with parked }, some (.ok r), later.map carry) ∧
        (c.parked ++ coming).Perm ((id, r) :: (parked ++ later))) ∨
      id ∉ (c.parked ++ coming).map (·.1) ∧
        ∃ parked, c.reply id (coming.map carry) = ({ c with parked }, none, []) ∧
          (c.parked ++ coming).Perm parked := by
  cases found : c.parked.lookup id with
  | some r =>
    refine .inl ⟨r, c.parked.filter (·.1 ≠ id), coming, ?_, ?_⟩
    · rw [reply, found]
    · have kept : (c.parked.map (·.1)).Nodup := by
        unfold Apart at apart
        rw [List.map_append] at apart
        exact apart.of_append_left
      exact (perm_of_lookup kept found).append_right coming
  | none =>
    have new := lookup_eq_none.1 found
    rw [reply_eq_await found]
    rcases await_carry apart new with ⟨early, r, later, rfl, eq⟩ | ⟨missing, eq⟩
    · refine .inl ⟨r, _, later, eq, ?_⟩
      rw [← List.append_assoc]
      refine List.perm_middle.trans ((List.Perm.append_right later ?_).cons _)
      exact List.perm_append_comm.trans ((List.reverse_perm early).symm.append_right _)
    · refine .inr ⟨?_, _, eq, ?_⟩
      · rw [List.map_append, List.mem_append, not_or]
        exact ⟨new, missing⟩
      · exact List.perm_append_comm.trans ((List.reverse_perm coming).symm.append_right _)

theorem reply_last {coming : List (UInt64 × Response)} (apart : c.Apart coming)
    (new : id ∉ (c.parked ++ coming).map (·.1)) (r : Response) :
    ∃ parked rest,
      c.reply id (coming.map carry ++ [.ok ⟨id, r⟩]) = ({ c with parked }, some (.ok r), rest) := by
  have apart' : c.Apart (coming ++ [(id, r)]) := by
    unfold Apart at apart ⊢
    rw [← List.append_assoc, List.map_append, List.nodup_append]
    refine ⟨apart, List.nodup_singleton _, ?_⟩
    rintro a mem b last rfl
    rw [List.map_singleton, List.mem_singleton] at last
    rw [last] at mem
    exact new mem
  have there : (id, r) ∈ c.parked ++ (coming ++ [(id, r)]) := by simp
  have all : coming.map carry ++ [.ok ⟨id, r⟩] = (coming ++ [(id, r)]).map carry := by
    rw [List.map_append]
    rfl
  rw [all]
  rcases reply_carry apart' id with ⟨r', parked, later, eq, perm⟩ | ⟨missing, -⟩
  · have here := perm.mem_iff.2 (List.mem_cons_self (a := (id, r')))
    have same := apart'.eq here there
    subst same
    exact ⟨parked, _, eq⟩
  · exact absurd (List.mem_map.2 ⟨_, there, rfl⟩) missing

theorem await_append (xs ys : Arrivals) (waits : (await id c xs).2.1 = none) :
    await id c (xs ++ ys) = await id (await id c xs).1 ys := by
  induction xs generalizing c with
  | nil => rfl
  | cons x xs ih =>
    cases x with
    | ok f =>
      rw [List.cons_append]
      by_cases mine : f.id = id
      · rw [await, if_pos mine] at waits
        cases waits
      · rw [await, if_neg mine] at waits ⊢
        rw [await, if_neg mine]
        exact ih waits
    | error e => cases e <;> cases waits

theorem reply_append (xs ys : Arrivals) (waits : (c.reply id xs).2.1 = none) :
    c.reply id (xs ++ ys) = (c.reply id xs).1.reply id ys := by
  cases new : c.parked.lookup id with
  | some r =>
    rw [reply, new] at waits
    cases waits
  | none =>
    rw [reply_eq_await new] at waits ⊢
    obtain ⟨still, -⟩ := (await_cases new xs).2 waits
    rw [reply_eq_await new, reply_eq_await still, await_append xs ys waits]

end Archivist.Client
