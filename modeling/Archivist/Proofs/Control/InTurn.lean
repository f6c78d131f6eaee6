import Archivist.Proofs.Control.Schedules
set_option autoImplicit false

/-!
# A node that does one thing after the other

Where requests are answered as they come, `Server.serve` answers a stream in one go.  It is one of
the schedules: each request is read, passed on, taken up and looked after before the next is read.
-/

namespace Archivist

namespace Server

variable {σ : Type}

theorem foldl_receive (w : Worker σ) (s : Server σ) (acc : List ResponseFrame)
    (fs : List RequestFrame) :
    (fs.foldl (fun (out : Server σ × List ResponseFrame) f =>
      ((receive w out.1 f).1, out.2 ++ (receive w out.1 f).2)) (s, acc)) =
    (let out := fs.foldl (fun (out : Server σ × List ResponseFrame) f =>
      ((receive w out.1 f).1, out.2 ++ (receive w out.1 f).2)) (s, [])
     (out.1, acc ++ out.2)) := by
  induction fs generalizing s acc with
  | nil => simp
  | cons f fs ih =>
    rw [List.foldl_cons, List.foldl_cons, ih, ih _ ([] ++ _)]
    simp

theorem serve_cons (w : Worker σ) (s : Server σ) (f : RequestFrame) (fs : List RequestFrame)
    (e : Option TransferError) :
    serve w s (f :: fs) e =
      ((serve w (receive w s f).1 fs e).1,
        (receive w s f).2 ++ (serve w (receive w s f).1 fs e).2) := by
  unfold serve
  simp only [List.foldl_cons, List.nil_append]
  rw [foldl_receive]

theorem serve_nil (w : Worker σ) (s : Server σ) (e : Option TransferError) :
    serve w s [] e = (hangUp w s e, []) := rfl

theorem serve_of_ended (w : Worker σ) {s : Server σ} (ended : s.ended.isSome = true)
    (fs : List RequestFrame) (e : Option TransferError) : serve w s fs e = (s, []) := by
  induction fs with
  | nil =>
    unfold serve hangUp
    rw [List.foldl_nil]
    dsimp only
    rw [if_pos ended]
  | cons f fs ih =>
    have deaf : receive w s f = (s, []) := by
      unfold receive
      rw [if_pos ended]
    rw [serve_cons, deaf, ih, List.append_nil]

end Server

namespace Station

variable {σ : Type} {s : Station σ}

/-- Nothing was read that has not been taken up. -/
structure Quiet (s : Station σ) : Prop where
  hand : s.hand = none
  queue : s.queue = []
  going : s.readTo = none

def inTurn (w : Worker σ) : Nat → List (Move σ)
  | 0 => [.read, .close]
  | n + 1 => [.read, .pass, .take, .settle w.poll] ++ inTurn w n

theorem run_of_ended (w : Worker σ) (ended : s.server.ended.isSome = true) (ms : List (Move σ)) :
    s.run w ms = s := by
  induction ms with
  | nil => rfl
  | cons m ms ih => rw [run, List.foldl_cons, step_of_ended ended, ← run, ih]

theorem answers_of_placed (k : Nat) (rs : List ResponseFrame) :
    (rs.map fun r => (k, r)).map (·.2) = rs := by
  rw [List.map_map]
  exact List.map_id rs

theorem run_request (w : Worker σ) (stands : s.server.ended = none) (quiet : s.Quiet)
    {f : RequestFrame} {rest : List UInt8}
    (first : Wire.readFrame Wire.getRequestFrame s.unread = (.ok (some f), rest)) :
    let out := s.run w [.read, .pass, .take, .settle w.poll]
    out.Quiet ∧ out.unread = rest ∧ out.server = (s.server.receive w f).1 ∧
      out.written.map (·.2) = s.written.map (·.2) ++ (s.server.receive w f).2 := by
  have up : ¬ s.server.ended.isSome = true := by simp [stands]
  have read : s.step w .read = { s with hand := some f, unread := rest } := by
    simp only [step, if_neg up, Station.read, quiet.hand, quiet.going, first]
  have pass : step w { s with hand := some f, unread := rest } .pass =
      { s with queue := [f], unread := rest } := by
    simp only [step, if_neg up, Station.pass, quiet.queue, quiet.hand, List.nil_append]
    rfl
  dsimp only
  rw [run, List.foldl_cons, List.foldl_cons, read, pass, List.foldl_cons, List.foldl_cons,
    List.foldl_nil]
  unfold Server.receive
  rw [if_neg up]
  simp only [step, if_neg up, take]
  rcases s.server.handle w (.received f) with ⟨server, replies⟩
  dsimp only
  split
  · rename_i ended
    have still : server.settle w w.poll = (server, []) := by
      unfold Server.settle
      rw [if_pos (by simp [ended])]
    rw [still]
    refine ⟨⟨quiet.hand, rfl, quiet.going⟩, rfl, rfl, ?_⟩
    rw [List.map_append, answers_of_placed, List.append_nil]
  · refine ⟨⟨quiet.hand, rfl, quiet.going⟩, rfl, rfl, ?_⟩
    dsimp only [settle]
    rw [List.map_append, List.map_append, answers_of_placed, answers_of_placed, List.append_assoc]

theorem run_end (w : Worker σ) (stands : s.server.ended = none) (quiet : s.Quiet)
    {e : Option TransferError} {behind : List UInt8}
    (all : Wire.readFrames Wire.getRequestFrame s.unread = ([], e, behind)) :
    (s.run w [.read, .close]).server = s.server.hangUp w e ∧
      (s.run w [.read, .close]).written = s.written := by
  have up : ¬ s.server.ended.isSome = true := by simp [stands]
  have read : s.step w .read = { s with readTo := some e, unread := behind } := by
    simp only [step, if_neg up, Station.read, quiet.hand, quiet.going]
    rcases Wire.readFrames_nil all with ⟨first, rfl⟩ | ⟨_, first, rfl⟩ <;> rw [first]
  rw [run, List.foldl_cons, List.foldl_cons, List.foldl_nil, read]
  simp [step, stands, close, quiet.hand, quiet.queue]

theorem run_inTurn (w : Worker σ) (s : Station σ) (stands : s.server.ended = none)
    (quiet : s.Quiet) {fs : List RequestFrame} {e : Option TransferError} {behind : List UInt8}
    (all : Wire.readFrames Wire.getRequestFrame s.unread = (fs, e, behind)) :
    (s.run w (inTurn w fs.length)).server = (s.server.serve w fs e).1 ∧
      (s.run w (inTurn w fs.length)).written.map (·.2) =
        s.written.map (·.2) ++ (s.server.serve w fs e).2 := by
  induction fs generalizing s with
  | nil =>
    obtain ⟨server, written⟩ := run_end w stands quiet all
    rw [List.length_nil, inTurn, server, written, Server.serve_nil, List.append_nil]
    exact ⟨rfl, rfl⟩
  | cons f fs ih =>
    obtain ⟨rest, first, later⟩ := Wire.readFrames_cons all
    obtain ⟨quiet, unread, server, written⟩ := run_request w stands quiet first
    rw [List.length_cons, inTurn, run_append, Server.serve_cons, ← server, ← List.append_assoc,
      ← written]
    generalize s.run w [.read, .pass, .take, .settle w.poll] = t at quiet unread
    by_cases ended : t.server.ended.isSome = true
    · rw [run_of_ended w ended, Server.serve_of_ended w ended]
      exact ⟨rfl, (List.append_nil _).symm⟩
    · exact ih t (by simpa using ended) quiet (unread ▸ later)

/-- A whole stream answered in one go is one of the schedules. -/
theorem serve_eq_run (w : Worker σ) (worker : σ) (stream : List UInt8) :
    let all := Wire.readFrames Wire.getRequestFrame stream
    let s := (start worker stream).run w (inTurn w all.1.length)
    Server.serve w { worker } all.1 all.2.1 = (s.server, s.written.map (·.2)) := by
  have quiet : (start worker stream).Quiet := ⟨rfl, rfl, rfl⟩
  obtain ⟨server, written⟩ := run_inTurn w (start worker stream) rfl quiet (Prod.ext rfl rfl)
  exact Prod.ext server.symm written.symm

end Station
end Archivist
