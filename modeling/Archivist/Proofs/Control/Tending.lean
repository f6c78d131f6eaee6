import Archivist.Proofs.Control.Acts
import Archivist.Proofs.Transfer.Misplaced
set_option autoImplicit false

/-!
# What a node can tell of its work

All that a node answers at once has a few bytes.  What comes of a transfer may be too much to tell:
then the node leaves the stream, and it does so for nothing else.
-/

namespace Archivist

variable {σ ε : Type}

/-! ## Answers that are given at once -/

namespace Server

variable {w : Worker σ} {s : Server σ}

theorem handle_of_fits {event : ServerEvent} {running : Option UInt64} {reply : ResponseFrame}
    {order : Option WorkerOrder}
    (reacted : react s.running (w.view s.worker) event = { running, reply := some reply, order })
    (fits : Wire.answers.Fits reply) :
    s.handle w event = ({ s with running, worker := obey w s.worker order }, [reply]) := by
  have framed : Wire.frame (Wire.putResponseFrame reply) = _ := Wire.Kind.frame_of_fits fits
  unfold handle
  rw [reacted]
  dsimp only
  rw [framed]

theorem handle_of_long {event : ServerEvent} {running : Option UInt64} {reply : ResponseFrame}
    {order : Option WorkerOrder}
    (reacted : react s.running (w.view s.worker) event = { running, reply := some reply, order })
    (long : ¬ Wire.answers.Fits reply) :
    s.handle w event = ({ s with
      running, worker := obey w s.worker order
      ended := some (.error (.messageTooLarge
        (min (Wire.putResponseFrame reply).length (Word.bound32 - 1)) Wire.limit)) }, []) := by
  have refused : Wire.frame (Wire.putResponseFrame reply) = _ := if_pos (Nat.lt_of_not_le long)
  unfold handle
  rw [reacted]
  dsimp only
  rw [refused]

theorem fits_busy (id other : UInt64) : Wire.answers.Fits ⟨id, busy other⟩ := by
  refine Response.fits_error_of_length id _ ?_
  have number : (toString other.toNat).length ≤ 20 :=
    length_number 20 (by decide) other.toNat_lt (by decide)
  have words : "request ".length = 8 ∧ " is still transferring".length = 22 := ⟨rfl, rfl⟩
  change ("request " ++ toString other.toNat ++ " is still transferring").length ≤ 1024
  rw [String.length_append, String.length_append, words.1, words.2]
  omega

theorem handle_of_not_starts (w : Worker σ) {f : RequestFrame} (still : s.starts f = false) :
    ∃ response worker, s.handle w (.received f) = ({ s with worker }, [⟨f.id, response⟩]) ∧
      (worker = s.worker ∨ ∃ reason, worker = w.abort s.worker reason) := by
  by_cases moves : Moves f.request
  · obtain ⟨other, running⟩ : ∃ other, s.running = some other := by
      cases running : s.running with
      | none => exact absurd (still.symm.trans (starts_of_idle moves running)) Bool.false_ne_true
      | some other => exact ⟨other, rfl⟩
    have handled : s.handle w (.received f) =
        ({ s with running := s.running, worker := s.worker }, [⟨f.id, busy other⟩]) :=
      handle_of_fits (react_of_busy running (w.view s.worker) moves) (fits_busy f.id other)
    exact ⟨busy other, s.worker, handled, .inl rfl⟩
  · obtain ⟨id, request⟩ := f
    cases request with
    | sendFile path mode resume want => exact absurd trivial moves
    | receiveFile directory mode filename offset => exact absurd trivial moves
    | abort reason =>
      exact ⟨_, _, handle_of_fits rfl (Response.fits_aborted id), .inr ⟨reason, rfl⟩⟩
    | status => exact ⟨_, _, handle_of_fits rfl (Response.fits_status id _), .inl rfl⟩
    | localPort => exact ⟨_, _, handle_of_fits rfl (Response.fits_localPort id _), .inl rfl⟩
    | openChannel channel =>
      have short : Wire.answers.Fits ⟨id, alreadyOpen⟩ :=
        Response.fits_error_of_length id _ (by decide)
      exact ⟨_, _, handle_of_fits rfl short, .inl rfl⟩

end Server

/-! ## Workers -/

/-- What is found when the work on a request is looked at: nothing yet, or what comes of it. -/
def Worker.Finds (Holds : Option Request → σ → Prop)
    (look : σ → Option (Except TransferError TransferStatus) × σ) : Prop :=
  ∀ r s, Holds (some r) s →
    ((look s).1 = none → Holds (some r) (look s).2) ∧
      ∀ result, (look s).1 = some result → r.Reports result ∧ Holds none (look s).2

/-- A worker whose results are those of the request that it works on. -/
structure Worker.Works (w : Worker σ) (occurs : σ → ε → σ)
    (Holds : Option Request → σ → Prop) : Prop where
  start : ∀ s r, Holds none s → Holds (some r) (w.start s r)
  abort : ∀ o s reason, Holds o s → Holds o (w.abort s reason)
  occurs : ∀ o s event, Holds o s → Holds o (occurs s event)
  poll : Finds Holds w.poll
  expire : Finds Holds w.expire

/-! ## Sessions -/

namespace Station

variable {w : Worker σ} {occurs : σ → ε → σ} {Holds : Option Request → σ → Prop} {s : Station σ}

/-- A transfer that was started names something in the wrong place. -/
def Misplaces (s : Station σ) (p : String) : Prop :=
  ∃ k ∈ s.begun, ∃ f, s.taken[k]? = some f ∧ f.request.misplaced = some p

/-- What cannot be repeated was named by nothing but the transfer that is running. -/
def Tells (s : Station σ) : Prop :=
  ∀ k ∈ s.begun, ∀ f p, s.taken[k]? = some f → f.request.misplaced = some p →
    Wire.limit < 47 + Wire.size p → k ∈ s.current

structure Tends (Holds : Option Request → σ → Prop) (s : Station σ) : Prop where
  stands : s.server.ended = none
  going : s.closed = false
  answers : Answers s
  tells : s.Tells
  idle : s.server.running = none → Holds none s.server.worker
  works : ∀ id, s.server.running = some id →
    ∃ k f, s.begun.getLast? = some k ∧ s.taken[k]? = some f ∧
      Holds (some f.request) s.server.worker

/-- How a session can stand. -/
inductive Fate (Holds : Option Request → σ → Prop) (s : Station σ) : Prop where
  | tends (tends : Tends Holds s)
  | leaves (ended : s.server.ended.isSome = true) (closed : s.closed = true) (tells : s.Tells)
  | breaks (p : String) (misplaces : s.Misplaces p) (long : Wire.limit < 47 + Wire.size p)
      (idle : s.server.running = none) (going : s.closed = false)
      (ended : s.server.ended = some (.error (.messageTooLarge
        (min (47 + Wire.size p) (Word.bound32 - 1)) Wire.limit)))

theorem Tells.of_idle (tells : s.Tells) (idle : s.server.running = none) {p : String}
    (misplaces : s.Misplaces p) : 47 + Wire.size p ≤ Wire.limit := by
  obtain ⟨k, begun, f, hget, named⟩ := misplaces
  refine Nat.le_of_not_lt fun long => ?_
  have now := tells k begun f p hget named long
  rw [Answers.current_of_idle idle] at now
  exact List.not_mem_nil now

/-- A session breaks exactly when what it cannot repeat is not being worked on any more. -/
theorem Fate.broken_iff (h : Fate Holds s) :
    s.Broken ↔ s.server.running = none ∧
      ∃ p, s.Misplaces p ∧ Wire.limit < 47 + Wire.size p := by
  have told (tells : s.Tells) : ¬ (s.server.running = none ∧
      ∃ p, s.Misplaces p ∧ Wire.limit < 47 + Wire.size p) := by
    rintro ⟨idle, p, misplaces, long⟩
    exact absurd long (Nat.not_lt.2 (tells.of_idle idle misplaces))
  cases h with
  | tends tends =>
    refine iff_of_false (fun broken => ?_) (told tends.tells)
    simp [Broken, tends.stands] at broken
  | leaves ended closed tells =>
    refine iff_of_false (fun broken => ?_) (told tells)
    exact absurd (closed.symm.trans broken.2) Bool.noConfusion
  | breaks p misplaces long idle going ended =>
    exact iff_of_true ⟨by rw [ended]; rfl, going⟩ ⟨idle, p, misplaces, long⟩

theorem Fate.ended_of_broken (h : Fate Holds s) (broken : s.Broken) :
    ∃ p, s.Misplaces p ∧ s.server.ended = some (.error (.messageTooLarge
      (min (47 + Wire.size p) (Word.bound32 - 1)) Wire.limit)) := by
  cases h with
  | tends tends => simp [Broken, tends.stands] at broken
  | leaves ended closed tells => exact absurd (closed.symm.trans broken.2) Bool.noConfusion
  | breaks p misplaces long idle going ended => exact ⟨p, misplaces, ended⟩

theorem current_of_last {id : UInt64} (running : s.server.running = some id) {k : Nat}
    (last : s.begun.getLast? = some k) : s.current = [k] := by
  rw [current, if_pos (by simp [running]), List.getLastD_eq_getLast?, last]
  rfl

theorem Answers.taken_append (h : Answers s) {k : Nat} (begun : k ∈ s.begun) (f : RequestFrame) :
    (s.taken ++ [f])[k]? = s.taken[k]? :=
  List.getElem?_append_left (h.begun_lt begun)

theorem Tends.take (h : Tends Holds s) (works : w.Works occurs Holds) :
    Tends Holds (s.take w) := by
  have answers := h.answers.take (w := w)
  unfold Station.take at answers ⊢
  split
  · exact h
  · rename_i f queue next
    rw [next] at answers
    dsimp only at answers
    by_cases starts : s.server.starts f = true
    · have idle : s.server.running = none := by
        cases running : s.server.running with
        | none => rfl
        | some other =>
          rw [Server.not_starts_of_busy f running] at starts
          exact absurd starts Bool.false_ne_true
      rw [Server.handle_of_moves (Server.moves_of_starts starts) idle, if_pos starts] at answers ⊢
      have last : (s.begun ++ [s.taken.length]).getLast? = some s.taken.length := by simp
      refine ⟨h.stands, h.going, answers h.stands, ?_, fun still => ?_, fun id _ => ?_⟩
      · intro k begun g p hget named long
        rw [current_of_last rfl last]
        rcases List.mem_append.1 begun with old | new
        · have hget : s.taken[k]? = some g := (h.answers.taken_append old f).symm.trans hget
          have now := h.tells k old g p hget named long
          rw [Answers.current_of_idle idle] at now
          cases now
        · exact new
      · cases still
      · exact ⟨_, f, last, by simp, works.start _ _ (h.idle idle)⟩
    · rw [Bool.not_eq_true] at starts
      obtain ⟨response, worker, handled, told⟩ := Server.handle_of_not_starts w starts
      have kept (o : Option Request) (holds : Holds o s.server.worker) : Holds o worker := by
        rcases told with rfl | ⟨reason, rfl⟩
        · exact holds
        · exact works.abort o _ reason holds
      rw [handled, if_neg (by simp [starts])] at answers ⊢
      refine ⟨h.stands, h.going, answers h.stands, ?_, fun idle => kept _ (h.idle idle), ?_⟩
      · intro k begun g p hget named long
        exact h.tells k begun g p ((h.answers.taken_append begun f).symm.trans hget) named long
      · intro id running
        obtain ⟨k, g, last, hget, holds⟩ := h.works id running
        exact ⟨k, g, last, Answers.kept hget, kept _ holds⟩

theorem Tends.ends (h : Tends Holds s) {id : UInt64} (running : s.server.running = some id)
    {k : Nat} {f : RequestFrame} (last : s.begun.getLast? = some k) (hget : s.taken[k]? = some f)
    {result : Except TransferError TransferStatus} (reports : f.request.Reports result) {worker : σ}
    (free : Holds none worker) :
    let told := Server.handle w { s.server with worker } (.completed result)
    Fate Holds { s with
      server := told.1
      written := s.written ++ told.2.map fun r => (s.begun.getLastD 0, r) } := by
  intro told
  have reacted : Server.react s.server.running (w.view worker) (.completed result) =
      { running := none, reply := some ⟨id, .ofResult result⟩ } := by
    rw [running]
    rfl
  have fits_iff := reports.fits_iff id
  by_cases fits : Wire.answers.Fits ⟨id, .ofResult result⟩
  · have eq : told = _ := Server.handle_of_fits (s := { s.server with worker }) reacted fits
    rw [eq]
    refine .tends ⟨h.stands, h.going, h.answers.completed running rfl, ?_, fun _ => free,
      fun _ now => by cases now⟩
    -- What was named by this transfer has just been repeated.
    intro j begun g p there named long
    have now := h.tells j begun g p there named long
    rw [current_of_last running last, List.mem_singleton] at now
    rw [now, hget] at there
    cases there
    exact absurd long (Nat.not_lt.2 (fits_iff.1 fits p named))
  · have eq : told = _ := Server.handle_of_long (s := { s.server with worker }) reacted fits
    rw [fits_iff] at fits
    push Not at fits
    obtain ⟨p, named, long⟩ := fits
    rw [reports.length_refusal named] at eq
    rw [eq]
    exact .breaks p ⟨k, List.mem_of_getLast? last, f, hget, named⟩ long rfl h.going rfl

theorem Tends.settle (h : Tends Holds s)
    {look : σ → Option (Except TransferError TransferStatus) × σ}
    (finds : Worker.Finds Holds look) : Fate Holds (s.settle w look) := by
  unfold Station.settle
  cases running : s.server.running with
  | none =>
    rw [Server.settle_of_silent (.inl running)]
    dsimp only
    rw [List.map_nil, List.append_nil]
    exact .tends h
  | some id =>
    obtain ⟨k, f, last, hget, holds⟩ := h.works id running
    obtain ⟨waits, done⟩ := finds f.request _ holds
    cases found : look s.server.worker with
    | mk result worker =>
      rw [found] at waits done
      cases result with
      | none =>
        rw [Server.settle_of_none running h.stands found]
        dsimp only
        rw [List.map_nil, List.append_nil]
        refine .tends ⟨h.stands, h.going, h.answers.congr rfl, h.tells, fun idle => ?_,
          fun _ _ => ⟨k, f, last, hget, waits rfl⟩⟩
        cases running.symm.trans idle
      | some result =>
        obtain ⟨reports, free⟩ := done result rfl
        have settled : s.server.settle w look =
            Server.handle w { s.server with worker } (.completed result) := by
          rw [Server.settle, if_neg (by simp [running, h.stands]), found]
        rw [settled]
        exact h.ends running last hget reports free

theorem Tends.close (h : Tends Holds s) : Fate Holds (s.close w) := by
  unfold Station.close
  split
  · rename_i e _ _ hend
    rw [Server.hangUp_eq w h.stands]
    exact .leaves rfl rfl h.tells
  · exact .tends h

theorem Fate.step (h : Fate Holds s) (works : w.Works occurs Holds) (a : Act ε) :
    Fate Holds (s.step w (a.move w occurs)) := by
  unfold Station.step
  split
  · exact h
  · rename_i stands
    cases h with
    | leaves ended => exact absurd ended stands
    | breaks p misplaces long idle going ended => simp [ended] at stands
    | tends h =>
      cases a with
      | read =>
        change Fate Holds s.read
        rw [read_eq]
        exact .tends ⟨h.stands, h.going, h.answers.of_reading, h.tells, h.idle, h.works⟩
      | pass =>
        change Fate Holds s.pass
        rw [pass_eq]
        exact .tends ⟨h.stands, h.going, h.answers.of_reading, h.tells, h.idle, h.works⟩
      | take => exact .tends (h.take works)
      | close => exact h.close
      | poll => exact h.settle works.poll
      | expire => exact h.settle works.expire
      | befalls event =>
        refine .tends ⟨h.stands, h.going, h.answers.congr rfl, h.tells,
          fun idle => works.occurs _ _ event (h.idle idle), fun id running => ?_⟩
        obtain ⟨k, f, last, hget, holds⟩ := h.works id running
        exact ⟨k, f, last, hget, works.occurs _ _ event holds⟩

theorem Fate.act (h : Fate Holds s) (works : w.Works occurs Holds) (acts : List (Act ε)) :
    Fate Holds (s.act w occurs acts) := by
  induction acts generalizing s with
  | nil => exact h
  | cons a acts ih => exact ih (h.step works a)

theorem fate_start {worker : σ} (holds : Holds none worker) (stream : List UInt8) :
    Fate Holds (start worker stream) :=
  .tends ⟨rfl, rfl, .start worker stream, fun _ mem => (List.not_mem_nil mem).elim,
    fun _ => holds, fun _ running => by cases running⟩

end Station

end Archivist
