import Archivist.Proofs.Control.Schedules
import Archivist.Proofs.Control.Spent
set_option autoImplicit false

/-!
# How a node leaves its control stream

A node leaves its stream when it has come to the end of it, by a hang-up, by a message that cannot
be read or because reading fails, and when it cannot write an answer.  A `Line` is a station whose
reading and writing may fail at any time, with a worker that notes for what reasons it was told to
give up.  At the end of the stream a node gives up the transfer that it leaves unanswered; when an
answer cannot be written it leaves the transfer as it is.
-/

namespace Archivist

variable {σ : Type}

def Worker.noted (look : σ → Option (Except TransferError TransferStatus) × σ)
    (s : σ × List String) : Option (Except TransferError TransferStatus) × (σ × List String) :=
  ((look s.1).1, ((look s.1).2, s.2))

/-- A worker that notes the reasons for which it is told to give up. -/
def Worker.noting (w : Worker σ) : Worker (σ × List String) where
  start s request := (w.start s.1 request, s.2)
  abort s reason := (w.abort s.1 reason, s.2 ++ [reason])
  view s := w.view s.1
  poll := noted w.poll
  expire := noted w.expire

def Move.noting : Move σ → Move (σ × List String)
  | .read => .read
  | .pass => .pass
  | .take => .take
  | .work change => .work fun s => (change s.1, s.2)
  | .settle look => .settle (Worker.noted look)
  | .close => .close

def RequestFrame.reason (f : RequestFrame) : Option String :=
  match f.request with
  | .abort reason => some reason
  | _ => none

namespace Station

/-- A transfer was started at the place and is not answered. -/
def Abandons (s : Station σ) (k : Nat) : Prop := k ∈ s.begun ∧ k ∉ s.answered

/-- For what reasons the peer has asked to give up. -/
def asked (s : Station σ) : List String := s.taken.filterMap RequestFrame.reason

def deafen (s : Station σ) (e : IoError) : Station σ :=
  match s.hand, s.readTo with
  | none, none => { s with readTo := some (some (.io e)) }
  | _, _ => s

/-- What comes of a move if nothing can be written. -/
def unsent (before : Station σ) (e : IoError) (after : Station σ) : Station σ :=
  if after.written.length = before.written.length then after
  else { after with
    server := { after.server with ended := some (.error (.io e)) }
    written := before.written }

end Station

structure Line (σ : Type) where
  station : Station (σ × List String)
  /-- How writing fails, once it does. -/
  lost : Option IoError := none

namespace Line

inductive Event (σ : Type) where
  | move (m : Move σ)
  /-- Reading fails. -/
  | deafen (e : IoError)
  /-- Writing fails from now on. -/
  | lose (e : IoError)

def start (worker : σ) (stream : List UInt8) : Line σ where
  station := .start (worker, []) stream

def step (w : Worker σ) (l : Line σ) (event : Event σ) : Line σ :=
  if l.station.server.ended.isSome then l
  else
    match event with
    | .move m =>
      let after := l.station.step w.noting m.noting
      match l.lost with
      | none => { l with station := after }
      | some e => { l with station := l.station.unsent e after }
    | .deafen e => { l with station := l.station.deafen e }
    | .lose e => { l with lost := some e }

def run (w : Worker σ) (l : Line σ) (events : List (Event σ)) : Line σ := events.foldl (step w) l

end Line

namespace Server

theorem handle_worker (w : Worker σ) (s : Server σ) (event : ServerEvent) :
    (s.handle w event).1.worker =
      obey w s.worker (react s.running (w.view s.worker) event).order := by
  unfold handle
  dsimp only
  split
  · rfl
  · split <;> rfl

theorem handle_ended (w : Worker σ) (s : Server σ) (event : ServerEvent) :
    (s.handle w event).1.ended = s.ended ∨
      ∃ e, (s.handle w event).1.ended = some (.error e) := by
  unfold handle
  dsimp only
  split
  · exact .inl rfl
  · split
    · exact .inl rfl
    · exact .inr ⟨_, rfl⟩

theorem handle_noting (w : Worker σ) (s : Server (σ × List String)) (f : RequestFrame) :
    (s.handle w.noting (.received f)).1.worker.2 = s.worker.2 ++ f.reason.toList := by
  rw [handle_worker]
  obtain ⟨id, request⟩ := f
  unfold react
  cases request with
  | abort reason => rfl
  | sendFile path mode resume want =>
    cases s.running <;> exact (List.append_nil _).symm
  | receiveFile directory mode filename offset =>
    cases s.running <;> exact (List.append_nil _).symm
  | _ => exact (List.append_nil _).symm

theorem settle_worker (w : Worker σ) (s : Server σ)
    (look : σ → Option (Except TransferError TransferStatus) × σ) :
    (s.settle w look).1.worker = s.worker ∨ (s.settle w look).1.worker = (look s.worker).2 := by
  unfold settle
  split
  · exact .inl rfl
  · split
    · rename_i found
      exact .inr (congrArg Prod.snd found).symm
    · rename_i found
      rw [handle_worker, found]
      unfold react
      cases s.running <;> exact .inr rfl

theorem settle_noting (w : Worker σ) (s : Server (σ × List String))
    (look : σ → Option (Except TransferError TransferStatus) × σ) :
    (s.settle w.noting (Worker.noted look)).1.worker.2 = s.worker.2 := by
  rcases settle_worker w.noting s (Worker.noted look) with same | looked
  · rw [same]
  · rw [looked]
    rfl

theorem settle_ended (w : Worker σ) (s : Server σ)
    (look : σ → Option (Except TransferError TransferStatus) × σ) :
    (s.settle w look).1.ended = s.ended ∨
      ∃ e, (s.settle w look).1.ended = some (.error e) := by
  unfold settle
  split
  · exact .inl rfl
  · split
    · exact .inl rfl
    · exact handle_ended w _ _

end Server

namespace Station

variable {s : Station σ}

theorem Answers.abandons_iff (h : Answers s) :
    (∃ k, s.Abandons k) ↔ s.server.running.isSome = true := by
  constructor
  · rintro ⟨k, begun, waits⟩
    have hcurrent := h.at_most_one begun waits
    unfold current at hcurrent
    split at hcurrent
    · assumption
    · cases hcurrent
  · intro runs
    obtain ⟨id, running⟩ := Option.isSome_iff_exists.1 runs
    obtain ⟨k, f, last, -, -⟩ := h.running id running
    have hcurrent : s.current = [k] := by
      rw [current, if_pos runs, List.getLastD_eq_getLast?, last]
      rfl
    have apart := h.places.nodup_iff.2 List.nodup_range
    rw [hcurrent, List.nodup_append] at apart
    refine ⟨k, List.mem_of_getLast? last, fun answered => ?_⟩
    exact apart.2.2 k answered k (List.mem_singleton_self k) rfl

/-- The reasons for which the worker was told to give up. -/
def aborts (s : Station (σ × List String)) : List String := s.server.worker.2

/-- A node that has not left; its worker was told to give up only when the peer asked for it. -/
structure Serves (s : Station (σ × List String)) : Prop where
  stands : s.server.ended = none
  going : s.closed = false
  answers : Answers s
  aborts : s.aborts = s.asked

/-- How a node can stand at its line. -/
inductive Stands (w : Worker σ) (s : Station (σ × List String)) : Prop where
  | serves (serves : Serves s)
  | leaves (e : Option TransferError) (hend : s.readTo = some e)
      (ended : s.server.ended = some (Server.verdict e)) (closed : s.closed = true)
      (answers : Answers s) (idle : s.server.running = none) (aborts : s.aborts = s.asked)
  | givesUp (e : Option TransferError) (hend : s.readTo = some e)
      (ended : s.server.ended = some (Server.verdict e)) (closed : s.closed = true)
      (answers : Answers s) (runs : s.server.running.isSome = true)
      (aborts : s.aborts = s.asked ++ [Server.hangUpReason])
      (told : ∃ before, s.server.worker.1 = w.abort before Server.hangUpReason)
  | fails (e : TransferError) (ended : s.server.ended = some (.error e))
      (going : s.closed = false) (aborts : s.aborts = s.asked)

section Moves

variable {w : Worker σ} {s : Station (σ × List String)}

theorem Stands.exit (h : Stands w s) (left : s.server.ended.isSome = true) :
    (∃ e, s.closed = true ∧ s.readTo = some e ∧ s.server.ended = some (Server.verdict e) ∧
        ((∃ k, s.Abandons k) → s.aborts = s.asked ++ [Server.hangUpReason] ∧
          ∃ before, s.server.worker.1 = w.abort before Server.hangUpReason) ∧
        ((¬ ∃ k, s.Abandons k) → s.aborts = s.asked)) ∨
      ∃ e, s.closed = false ∧ s.server.ended = some (.error e) ∧ s.aborts = s.asked := by
  cases h with
  | serves serves => simp [serves.stands] at left
  | leaves e hend ended closed answers idle aborts =>
    refine .inl ⟨e, closed, hend, ended, fun abandoned => ?_, fun _ => aborts⟩
    rw [answers.abandons_iff, idle] at abandoned
    cases abandoned
  | givesUp e hend ended closed answers runs aborts told =>
    refine .inl ⟨e, closed, hend, ended, fun _ => ⟨aborts, told⟩, fun hnone => ?_⟩
    exact absurd (answers.abandons_iff.2 runs) hnone
  | fails e ended going aborts => exact .inr ⟨e, going, ended, aborts⟩

theorem Stands.gives_up_iff (h : Stands w s) (left : s.server.ended.isSome = true) :
    ((∃ k, s.Abandons k) → s.aborts ≠ []) ↔
      s.closed = true ∨ s.asked ≠ [] ∨ ¬ ∃ k, s.Abandons k := by
  rcases h.exit left with ⟨-, closed, -, -, gaveUp, -⟩ | ⟨-, going, -, aborts⟩
  · refine iff_of_true (fun abandoned => ?_) (.inl closed)
    rw [(gaveUp abandoned).1]
    exact List.append_ne_nil_of_right_ne_nil _ (List.cons_ne_nil _ _)
  · rw [aborts, going]
    by_cases abandoned : ∃ k, s.Abandons k
    · simp [abandoned]
    · simp [abandoned]

theorem Serves.take (h : Serves s) (w : Worker σ) : Stands w (s.take w.noting) := by
  have answers := h.answers.take (w := w.noting)
  unfold Station.take at answers ⊢
  split
  · exact .serves h
  · rename_i f queue next
    rw [next] at answers
    dsimp only at answers
    have noted : (s.server.handle w.noting (.received f)).1.worker.2 =
        (s.taken ++ [f]).filterMap RequestFrame.reason := by
      rw [Server.handle_noting, List.filterMap_append]
      change s.aborts ++ f.reason.toList = s.asked ++ _
      rw [h.aborts]
      cases reason : f.reason <;> simp [reason]
    rcases Server.handle_ended w.noting s.server (.received f) with same | ⟨e, ended⟩
    · rw [h.stands] at same
      exact .serves ⟨same, h.going, answers same, noted⟩
    · exact .fails e ended h.going noted

theorem Serves.settle (h : Serves s) (w : Worker σ)
    (look : σ → Option (Except TransferError TransferStatus) × σ) :
    Stands w (s.settle w.noting (Worker.noted look)) := by
  have noted : (s.settle w.noting (Worker.noted look)).aborts = s.asked :=
    (Server.settle_noting w s.server look).trans h.aborts
  rcases Server.settle_ended w.noting s.server (Worker.noted look) with same | ⟨e, ended⟩
  · rw [h.stands] at same
    exact .serves ⟨same, h.going, h.answers.settle same, noted⟩
  · exact .fails e ended h.going noted

theorem Serves.close (h : Serves s) (w : Worker σ) : Stands w (s.close w.noting) := by
  unfold Station.close
  split
  · rename_i e _ _ hend
    rw [Server.hangUp_eq w.noting h.stands]
    cases running : s.server.running with
    | none =>
      refine .leaves e hend rfl rfl (h.answers.congr running.symm) rfl ?_
      change (s.server.parting w.noting).2 = s.asked
      rw [Server.parting, running]
      exact h.aborts
    | some id =>
      have told : s.server.parting w.noting =
          (w.abort s.server.worker.1 Server.hangUpReason, s.aborts ++ [Server.hangUpReason]) := by
        rw [Server.parting, running]
        rfl
      refine .givesUp e hend rfl rfl (h.answers.congr running.symm) rfl ?_ ⟨s.server.worker.1, ?_⟩
      · change (s.server.parting w.noting).2 = s.asked ++ _
        rw [told, h.aborts]
      · exact congrArg Prod.fst told
  · exact .serves h

theorem Serves.step (h : Serves s) (w : Worker σ) (m : Move σ) :
    Stands w (s.step w.noting m.noting) := by
  unfold Station.step
  rw [if_neg (by simp [h.stands])]
  -- Only a request that is taken up, a transfer that ends and the end of the stream can change
  -- how the node stands.
  cases m with
  | read =>
    change Stands w s.read
    rw [read_eq]
    exact .serves ⟨h.stands, h.going, h.answers.of_reading, h.aborts⟩
  | pass =>
    change Stands w s.pass
    rw [pass_eq]
    exact .serves ⟨h.stands, h.going, h.answers.of_reading, h.aborts⟩
  | take => exact h.take w
  | work change => exact .serves ⟨h.stands, h.going, h.answers.congr rfl, h.aborts⟩
  | settle look => exact h.settle w look
  | close => exact h.close w

theorem Serves.deafen (h : Serves s) (e : IoError) : Serves (s.deafen e) := by
  unfold Station.deafen
  split
  · exact ⟨h.stands, h.going, h.answers.of_reading, h.aborts⟩
  · exact h

theorem written_of_closed {w : Worker σ} {s : Station σ} (going : s.closed = false) {m : Move σ}
    (closed : (s.step w m).closed = true) : (s.step w m).written = s.written := by
  unfold step at closed ⊢
  split at closed
  · rename_i ended
    rw [if_pos ended]
  · rename_i stands
    rw [if_neg stands]
    have still : ∀ t : Station σ, t.closed = s.closed → t.closed ≠ true := by
      intro t same
      rw [same, going]
      exact Bool.false_ne_true
    cases m with
    | read =>
      dsimp only
      rw [read_eq]
    | pass =>
      dsimp only
      rw [pass_eq]
    | take =>
      refine absurd closed (still _ ?_)
      dsimp only
      unfold take
      split <;> rfl
    | work change => rfl
    | settle look => exact absurd closed (still _ rfl)
    | close =>
      dsimp only
      unfold close
      split <;> rfl

end Moves

end Station

namespace Line

open Station (Stands)

variable {w : Worker σ} {l : Line σ}

theorem stands_unsent {s after : Station (σ × List String)} (h : Stands w after)
    (silent : after.closed = true → after.written = s.written) (e : IoError) :
    Stands w (s.unsent e after) := by
  unfold Station.unsent
  split
  · exact h
  · -- The move has an answer, so the node has not left at the end of the stream with it.
    rename_i wrote
    have quiet : after.closed ≠ true := fun closed => wrote (congrArg List.length (silent closed))
    cases h with
    | serves serves => exact .fails _ rfl serves.going serves.aborts
    | leaves _ _ _ closed => exact absurd closed quiet
    | givesUp _ _ _ closed => exact absurd closed quiet
    | fails _ _ going aborts => exact .fails _ rfl going aborts

theorem stands_step (h : Stands w l.station) (event : Event σ) :
    Stands w (l.step w event).station := by
  unfold step
  split
  · exact h
  · rename_i stands
    cases h with
    | serves serves =>
      cases event with
      | move m =>
        have after := serves.step w m
        dsimp only
        split
        · exact after
        · exact stands_unsent after (Station.written_of_closed serves.going) _
      | deafen e => exact .serves (serves.deafen e)
      | lose e => exact .serves serves
    | leaves _ _ ended => simp [ended] at stands
    | givesUp _ _ ended => simp [ended] at stands
    | fails _ ended => simp [ended] at stands

theorem stands_run (w : Worker σ) (worker : σ) (stream : List UInt8) (events : List (Event σ)) :
    Stands w ((start worker stream).run w events).station := by
  have first : Stands w (start worker stream).station :=
    .serves ⟨rfl, rfl, .start (worker, []) stream, rfl⟩
  unfold run
  generalize start worker stream = l at first
  induction events generalizing l with
  | nil => exact first
  | cons event events ih => exact ih _ (stands_step first event)

end Line

/-- However a node has left its line: at the end of the stream it has given up the transfer that it
leaves unanswered, and a worker that moves files then moves nothing any more, whatever is asked of
it.  If an answer could not be written the node has given up only what it was asked to give up.  So
nothing was given up for a transfer that is left unanswered exactly if an answer could not be
written and the peer had not asked to give anything up. -/
theorem line_run_abandons {σ : Type} (w : Worker σ) (worker : σ)
    (stream : List UInt8) (events : List (Line.Event σ))
    (left : ((Line.start worker stream).run w events).station.server.ended.isSome = true) :
    let s := ((Line.start worker stream).run w events).station
    ((∃ e, s.closed = true ∧ s.readTo = some e ∧ s.server.ended = some (Server.verdict e) ∧
        ((∃ k, s.Abandons k) → s.aborts = s.asked ++ [Server.hangUpReason] ∧
          ∃ before, s.server.worker.1 = w.abort before Server.hangUpReason) ∧
        ((¬ ∃ k, s.Abandons k) → s.aborts = s.asked)) ∨
      ∃ e, s.closed = false ∧ s.server.ended = some (.error e) ∧ s.aborts = s.asked) ∧
    (((∃ k, s.Abandons k) → s.aborts ≠ []) ↔
      s.closed = true ∨ s.asked ≠ [] ∨ ¬ ∃ k, s.Abandons k) ∧
    ∀ (n : NodeWorker) (reason : String) (uses : List NodeWorker.Use),
      let later := uses.foldl NodeWorker.use (NodeWorker.worker.abort n reason)
      later.transfer = n.transfer.abort ∧ later.sent = n.sent ∧
        ∀ request, Server.Moves request → ∃ e, (later.start request).result = some (.error e) := by
  have stands := Line.stands_run w worker stream events
  refine ⟨stands.exit left, stands.gives_up_iff left, ?_⟩
  intro n reason uses
  have spent := (NodeWorker.spent_abort n).uses uses
  exact ⟨spent.transfer, spent.quiet, fun request => (spent.start request).2⟩

def heldAndAsked : List UInt8 :=
  let frames : List RequestFrame := [⟨7, .sendFile "/rls/a" .binary 0 false⟩, ⟨9, .status⟩]
  (frames.map fun f => ((Wire.frame (Wire.putRequestFrame f)).toOption).getD []).flatten

def pipeBroken : IoError := .other "Broken pipe (os error 32)"

def peerGone : List (Line.Event CannedWorker) :=
  [.move .read, .move .pass, .move .take, .move .read, .move .pass, .lose pipeBroken, .move .take]

def leftByPeer : Station (CannedWorker × List String) :=
  ((Line.start slowNode heldAndAsked).run CannedWorker.worker peerGone).station

theorem line_run_leftByPeer :
    leftByPeer.server.ended = some (.error (.io pipeBroken)) ∧ leftByPeer.Abandons 0 ∧
      leftByPeer.aborts = [] := by
  have left : leftByPeer.server.ended.isSome = true := by decide +kernel
  have abandons : leftByPeer.Abandons 0 := ⟨by decide +kernel, by decide +kernel⟩
  have going : leftByPeer.closed = false := by decide +kernel
  have unasked : leftByPeer.asked = [] := by decide +kernel
  obtain ⟨-, gives_up, -⟩ :=
    line_run_abandons CannedWorker.worker slowNode heldAndAsked peerGone left
  refine ⟨by decide +kernel, abandons, Classical.byContradiction fun told => ?_⟩
  rcases gives_up.1 fun _ => told with closed | asked | nothing
  · exact absurd (going.symm.trans closed) Bool.false_ne_true
  · exact asked unasked
  · exact nothing ⟨0, abandons⟩

end Archivist
