import Archivist.Control.Canned
import Archivist.Proofs.Control.Replies
import Mathlib.Data.List.Induction
set_option autoImplicit false

namespace Archivist

namespace Server

variable {σ : Type}

def verdict : Option TransferError → Except TransferError Unit
  | some e => .error e
  | none => .ok ()

def parting (w : Worker σ) (s : Server σ) : σ :=
  match s.running with
  | some _ => w.abort s.worker hangUpReason
  | none => s.worker

theorem hangUp_eq (w : Worker σ) {s : Server σ} (stands : s.ended = none)
    (e : Option TransferError) :
    s.hangUp w e = { s with worker := s.parting w, ended := some (verdict e) } := by
  unfold hangUp handle react parting
  rw [if_neg (by simp [stands])]
  cases running : s.running with
  | none => cases e <;> rfl
  | some id => cases e <;> rfl

end Server

namespace Station

open Server (Moves verdict)

variable {σ : Type} {w : Worker σ} {s : Station σ} {stream : List UInt8}

structure Sound (stream : List UInt8) (s : Station σ) : Prop where
  reads : Reads stream s
  answers : Answers s
  unended : s.closed = false → s.server.ended = none
  ended : s.closed = true → s.hand = none ∧ s.queue = [] ∧
    ∃ e, s.readTo = some e ∧ s.server.ended = some (verdict e)

theorem sound_start (worker : σ) (stream : List UInt8) : Sound stream (start worker stream) where
  reads := ⟨rfl, Nat.zero_le _⟩
  answers := .start worker stream
  unended _ := rfl
  ended eq := by cases eq

theorem step_of_ended (ended : s.server.ended.isSome = true) (m : Move σ) : s.step w m = s := by
  unfold step
  rw [if_pos ended]

theorem broken_run (broken : s.Broken) (ms : List (Move σ)) : (s.run w ms).Broken := by
  induction ms generalizing s with
  | nil => exact broken
  | cons m ms ih =>
    apply ih
    rwa [step_of_ended broken.1]

theorem Sound.of_going (reads : Reads stream s) (answers : Answers s) (going : s.closed = false)
    (stands : s.server.ended = none) : Sound stream s where
  reads := reads
  answers := answers
  unended _ := stands
  ended closed := absurd (going.symm.trans closed) Bool.false_ne_true

theorem fine_before {ms ns : List (Move σ)} (fine : ¬ (s.run w (ms ++ ns)).Broken) :
    ¬ (s.run w ms).Broken := by
  rw [run_append] at fine
  exact fun broken => fine (broken_run broken ns)

theorem ended_of_fine (going : s.closed = false) (fine : ¬ s.Broken) : s.server.ended = none := by
  cases ended : s.server.ended with
  | none => rfl
  | some _ => exact absurd ⟨by rw [ended]; rfl, going⟩ fine

theorem Sound.take (h : Sound stream s) (going : s.closed = false) (fine : ¬ (s.take w).Broken) :
    Sound stream (s.take w) := by
  have still : (s.take w).closed = false := by
    unfold Station.take
    split <;> exact going
  have reads : Reads stream (s.take w) := by
    unfold Station.take
    split
    · exact h.reads
    · exact h.reads.take ‹_›
  have stands := ended_of_fine still fine
  exact .of_going reads (h.answers.take stands) still stands

theorem Sound.settle (h : Sound stream s) (going : s.closed = false)
    {look : σ → Option (Except TransferError TransferStatus) × σ}
    (fine : ¬ (s.settle w look).Broken) : Sound stream (s.settle w look) := by
  have stands : (s.settle w look).server.ended = none := ended_of_fine going fine
  exact .of_going ⟨h.reads.all, h.reads.room⟩ (h.answers.settle stands) going stands

theorem Sound.close (h : Sound stream s) (going : s.closed = false) :
    Sound stream (s.close w) := by
  unfold Station.close
  split
  · rename_i e empty none hend
    rw [Server.hangUp_eq w (h.unended going) e]
    refine ⟨⟨h.reads.all, h.reads.room⟩, h.answers.congr rfl, ?_, ?_⟩
    · intro hopen
      cases hopen
    · intro _
      exact ⟨empty, none, e, hend, rfl⟩
  · exact h

theorem Sound.read (h : Sound stream s) (going : s.closed = false) : Sound stream s.read := by
  have reads := h.reads.read
  rw [read_eq] at reads ⊢
  exact .of_going reads h.answers.of_reading going (h.unended going)

theorem Sound.pass (h : Sound stream s) (going : s.closed = false) : Sound stream s.pass := by
  have reads := h.reads.pass
  rw [pass_eq] at reads ⊢
  exact .of_going reads h.answers.of_reading going (h.unended going)

theorem Sound.going (h : Sound stream s) (stands : ¬ s.server.ended.isSome = true) :
    s.closed = false := by
  rw [← Bool.not_eq_true]
  intro closed
  obtain ⟨-, -, e, -, ended⟩ := h.ended closed
  simp [ended] at stands

theorem Sound.step (h : Sound stream s) {m : Move σ} (fine : ¬ (s.step w m).Broken) :
    Sound stream (s.step w m) := by
  unfold Station.step at fine ⊢
  split
  · exact h
  · rename_i stands
    rw [if_neg stands] at fine
    have going := h.going stands
    cases m with
    | read => exact h.read going
    | pass => exact h.pass going
    | take => exact h.take going fine
    | work change =>
      exact .of_going ⟨h.reads.all, h.reads.room⟩ (h.answers.congr rfl) going (h.unended going)
    | settle look => exact h.settle going fine
    | close => exact h.close going

theorem sound_run (w : Worker σ) (worker : σ) (stream : List UInt8) (ms : List (Move σ))
    (fine : ¬ ((start worker stream).run w ms).Broken) :
    Sound stream ((start worker stream).run w ms) := by
  induction ms using List.reverseRecOn with
  | nil => exact sound_start worker stream
  | append_singleton ms m ih =>
    have before := ih (fine_before fine)
    rw [run_append] at fine ⊢
    exact before.step fine

/-- What is left to do until the stream is given up: a request is read, passed on and taken up. -/
def left (s : Station σ) : Nat :=
  3 * s.ahead.1.length + 2 * s.hand.toList.length + s.queue.length +
    (if s.readTo.isSome then 0 else 1) + (if s.closed then 0 else 1)

theorem left_read (empty : s.hand = none) (going : s.readTo = none) : s.read.left < s.left := by
  have hahead : s.ahead = Wire.readFrames Wire.getRequestFrame s.unread := by
    rw [ahead, going]
  unfold left
  rw [hahead, empty, going]
  unfold read
  rw [empty, going]
  dsimp only
  split
  · rename_i f rest first
    rw [Wire.readFrames_of_some first]
    simp [ahead]
    omega
  · rename_i rest first
    rw [Wire.readFrames_of_none first]
    simp [ahead]
  · rename_i e rest first
    rw [Wire.readFrames_of_error first]
    simp [ahead]

theorem left_pass {f : RequestFrame} (held : s.hand = some f) (room : s.queue.length < capacity) :
    s.pass.left < s.left := by
  unfold pass
  rw [held]
  dsimp only
  rw [if_pos room]
  simp [left, ahead, held]
  omega

theorem left_take (w : Worker σ) {f : RequestFrame} {queue : List RequestFrame}
    (next : s.queue = f :: queue) : (s.take w).left < s.left := by
  unfold take
  rw [next]
  simp [left, ahead, next]

theorem left_close (w : Worker σ) {e : Option TransferError} (going : s.closed = false)
    (held : s.hand = none) (empty : s.queue = []) (hend : s.readTo = some e) :
    (s.close w).left < s.left := by
  unfold close
  rw [held, empty, hend]
  simp [left, ahead, held, empty, hend, going]

theorem Sound.goes_on (w : Worker σ) (h : Sound stream s) (going : s.closed = false) :
    ∃ m : Move σ, m.Own ∧ (s.step w m).left < s.left := by
  have stands : ¬ s.server.ended.isSome = true := by simp [h.unended going]
  cases next : s.queue with
  | cons f queue =>
    refine ⟨.take, trivial, ?_⟩
    rw [Station.step, if_neg stands]
    exact left_take w next
  | nil =>
    cases held : s.hand with
    | some f =>
      refine ⟨.pass, trivial, ?_⟩
      rw [Station.step, if_neg stands]
      exact left_pass held (by rw [next]; decide)
    | none =>
      cases hend : s.readTo with
      | none =>
        refine ⟨.read, trivial, ?_⟩
        rw [Station.step, if_neg stands]
        exact left_read held hend
      | some e =>
        refine ⟨.close, trivial, ?_⟩
        rw [Station.step, if_neg stands]
        exact left_close w going held next hend

/-- It can come to an end by itself, whatever the transfer does meanwhile. -/
theorem Sound.closes (w : Worker σ) (h : Sound stream s) :
    ∃ more : List (Move σ), (∀ m ∈ more, m.Own) ∧
      ((s.run w more).Broken ∨ (s.run w more).closed = true) := by
  induction size : s.left using Nat.strongRecOn generalizing s with
  | ind n ih =>
    by_cases stops : s.Broken ∨ s.closed = true
    · exact ⟨[], fun _ mem => (List.not_mem_nil mem).elim, stops⟩
    rw [not_or, Bool.not_eq_true] at stops
    obtain ⟨m, own, less⟩ := h.goes_on w stops.2
    by_cases fine : (s.step w m).Broken
    · exact ⟨[m], fun _ mem => List.mem_singleton.1 mem ▸ own, .inl fine⟩
    · obtain ⟨more, owns, ends⟩ := ih _ (size ▸ less) (h.step fine) rfl
      exact ⟨m :: more, List.forall_mem_cons.2 ⟨own, owns⟩, ends⟩

/-- A transfer that was started is answered or it is the one that is running. -/
theorem Answers.at_most_one (h : Answers s) {k : Nat} (begun : k ∈ s.begun)
    (waits : k ∉ s.answered) : s.current = [k] := by
  have mem : k ∈ s.answered ++ s.current :=
    h.places.mem_iff.2 (List.mem_range.2 (h.begun_lt begun))
  rcases List.mem_append.1 mem with answered | hcurrent
  · exact absurd answered waits
  · unfold current at hcurrent ⊢
    split at hcurrent
    · rename_i running
      rw [if_pos running, List.mem_singleton.1 hcurrent]
    · cases hcurrent

theorem Answers.numbers (h : Answers s) :
    (s.written.map (·.2.id) ++ s.server.running.toList).Perm (s.taken.map (·.id)) := by
  let number (k : Nat) : UInt64 := (s.taken[k]?.map (·.id)).getD 0
  have answers : s.answered.map number = s.written.map (·.2.id) := by
    unfold answered
    rw [List.map_map]
    apply List.map_congr_left
    intro ⟨k, r⟩ mem
    obtain ⟨f, hget, id⟩ := h.ids k r mem
    simp [number, hget, id]
  have running : s.current.map number = s.server.running.toList := by
    cases now : s.server.running with
    | none => simp [current, now]
    | some id =>
      obtain ⟨k, f, last, hget, hnumber⟩ := h.running id now
      simp [current, now, number, last, hget, hnumber]
  have all : (List.range s.taken.length).map number = s.taken.map (·.id) := by
    apply List.ext_getElem?
    intro i
    by_cases inside : i < s.taken.length
    · simp [number, inside]
    · simp [inside]
  rw [← answers, ← running, ← all, ← List.map_append]
  exact h.places.map number

theorem Sound.going_of_queue (h : Sound stream s) {f : RequestFrame} {queue : List RequestFrame}
    (next : s.queue = f :: queue) : s.closed = false := by
  rw [← Bool.not_eq_true]
  intro closed
  obtain ⟨-, empty, -⟩ := h.ended closed
  exact absurd (next.symm.trans empty) (by simp)

theorem step_take (w : Worker σ) (stands : s.server.ended = none) : s.step w .take = s.take w := by
  unfold step
  rw [if_neg (by simp [stands])]

theorem Sound.take_of_idle (w : Worker σ) (h : Sound stream s) {f : RequestFrame}
    {queue : List RequestFrame} (idle : s.server.running = none) (next : s.queue = f :: queue)
    (moves : Moves f.request) :
    s.step w .take = { s with
      server := { s.server with
        running := some f.id
        worker := w.start s.server.worker f.request }
      queue
      taken := s.taken ++ [f]
      begun := s.begun ++ [s.taken.length] } := by
  rw [step_take w (h.unended (h.going_of_queue next))]
  unfold Station.take
  rw [next]
  dsimp only
  rw [Server.handle_of_moves moves idle, if_pos (Server.starts_of_idle moves idle)]
  simp

theorem Sound.take_of_busy (h : Sound stream s) {f : RequestFrame} {queue : List RequestFrame}
    {other : UInt64} (running : s.server.running = some other) (next : s.queue = f :: queue)
    (moves : Moves f.request) (fine : ¬ (s.step w .take).Broken) :
    s.step w .take = { s with
      queue
      taken := s.taken ++ [f]
      written := s.written ++ [(s.taken.length, ⟨f.id, Server.busy other⟩)] } := by
  have going := h.going_of_queue next
  rw [step_take w (h.unended going)] at fine ⊢
  unfold Station.take at fine ⊢
  rw [next] at fine ⊢
  dsimp only at fine ⊢
  rcases Server.handle_of_busy w running moves with handled | ended
  · rw [handled, if_neg (by simp [Server.not_starts_of_busy f running])]
    rfl
  · exact absurd ⟨ended, going⟩ fine

theorem Reads.beginning (h : Reads stream s) :
    s.taken <+: (Wire.readFrames Wire.getRequestFrame stream).1 := by
  rw [h.all, List.append_assoc, List.append_assoc]
  exact List.prefix_append _ _

/-- A station that has given up has taken up the whole stream, and nothing changes any more. -/
theorem Sound.given_up (w : Worker σ) (h : Sound stream s) (closed : s.closed = true) :
    s.taken = (Wire.readFrames Wire.getRequestFrame stream).1 ∧
      s.server.ended = some (verdict (Wire.readFrames Wire.getRequestFrame stream).2.1) ∧
      ∀ m, s.step w m = s := by
  obtain ⟨held, empty, e, hend, ended⟩ := h.ended closed
  have all := h.reads.all
  rw [held, empty, ahead, hend] at all
  rw [all]
  refine ⟨?_, ended, step_of_ended (by simp [ended])⟩
  simp

end Station

/-- Whatever the worker, the stream and the schedule, as long as the answers can be written: one
transfer runs at a time; one that is asked for while none is running is started, and one that is
asked for meanwhile is refused and the worker hears nothing of it; every request is answered once
and under its own number, save the transfer that is running; what is not a transfer is answered in
the order in which it was asked; and once the stream is given up all requests before its end or its
first malformed message have been taken up. -/
theorem station_run_answers {σ : Type} (w : Worker σ) (worker : σ) (stream : List UInt8)
    (ms : List (Move σ)) (written : ¬ ((Station.start worker stream).run w ms).Broken) :
    let s := (Station.start worker stream).run w ms
    (∀ k ∈ s.begun, k ∉ s.answered → s.current = [k]) ∧
      (∀ before after, ms = before ++ .take :: after →
        let t := (Station.start worker stream).run w before
        ∀ f queue, t.queue = f :: queue → Server.Moves f.request →
          (t.server.running = none → t.step w .take = { t with
            server := { t.server with
              running := some f.id
              worker := w.start t.server.worker f.request }
            queue
            taken := t.taken ++ [f]
            begun := t.begun ++ [t.taken.length] }) ∧
          ∀ other, t.server.running = some other → t.step w .take = { t with
            queue
            taken := t.taken ++ [f]
            written := t.written ++ [(t.taken.length, ⟨f.id, Server.busy other⟩)] }) ∧
      (s.answered ++ s.current).Perm (List.range s.taken.length) ∧
      (∀ k r, (k, r) ∈ s.written → ∃ f, s.taken[k]? = some f ∧ f.id = r.id) ∧
      (s.written.map (·.2.id) ++ s.server.running.toList).Perm (s.taken.map (·.id)) ∧
      (∀ k ∈ s.begun, ∃ f, s.taken[k]? = some f ∧ Server.Moves f.request) ∧
      (∀ k f, s.taken[k]? = some f → Server.Moves f.request → k ∉ s.begun →
        ∃ other, (k, ⟨f.id, Server.busy other⟩) ∈ s.written) ∧
      (s.answered.filter fun k => k ∉ s.begun).Pairwise (· < ·) ∧
      (s.taken <+: (Wire.readFrames Wire.getRequestFrame stream).1 ∧
        s.queue.length ≤ Station.capacity) ∧
      (s.closed = true → s.taken = (Wire.readFrames Wire.getRequestFrame stream).1 ∧
        s.server.ended = some (Server.verdict (Wire.readFrames Wire.getRequestFrame stream).2.1) ∧
        ∀ m, s.step w m = s) ∧
      ∃ more : List (Move σ), (∀ m ∈ more, m.Own) ∧
        ((s.run w more).Broken ∨ (s.run w more).closed = true) := by
  have sound := Station.sound_run w worker stream ms written
  refine ⟨fun k => sound.answers.at_most_one, ?_, sound.answers.places, sound.answers.ids,
    sound.answers.numbers, sound.answers.begun, sound.answers.refused, sound.answers.order,
    ⟨sound.reads.beginning, sound.reads.room⟩, sound.given_up w, sound.closes w⟩
  rintro before after rfl t f queue next moves
  have fine : ¬ (t.step w .take).Broken := by
    have upTo : before ++ .take :: after = (before ++ [.take]) ++ after := by simp
    rw [upTo] at written
    have fine := Station.fine_before written
    rwa [Station.run_append] at fine
  have sound := Station.sound_run w worker stream before (Station.fine_before written)
  exact ⟨fun idle => sound.take_of_idle w idle next moves,
    fun other running => sound.take_of_busy running next moves fine⟩

def askedTwice : List UInt8 :=
  let frames : List RequestFrame :=
    [⟨7, .sendFile "/rls/a" .binary 0 false⟩, ⟨7, .receiveFile "/rls" .binary "b" 0⟩, ⟨9, .status⟩]
  (frames.map fun f => ((Wire.frame (Wire.putRequestFrame f)).toOption).getD []).flatten ++
    [0, 0, 0, 1, 255]

def slowNode : CannedWorker := { tables := { sends := [("/rls/a", .hold)] } }

def overlapping : List (Move CannedWorker) :=
  [.read, .pass, .take, .read, .pass, .read, .settle CannedWorker.poll, .take, .pass, .take, .read,
    .work fun s => { s with current := some (.ends ⟨5, 3, 8, true⟩) }, .settle CannedWorker.poll,
    .close]

def served : Station CannedWorker :=
  (Station.start slowNode askedTwice).run CannedWorker.worker overlapping

theorem station_run_askedTwice :
    served.written = [(1, ⟨7, Server.busy 7⟩), (2, ⟨9, .status ⟨0, 0, 0, false⟩⟩),
      (0, ⟨7, .status ⟨5, 3, 8, true⟩⟩)] ∧
      served.server.worker.calls = [.sendFile "/rls/a" .binary 0 false] ∧
      (served.answered ++ served.current).Perm [0, 1, 2] ∧
      served.taken = (Wire.readFrames Wire.getRequestFrame askedTwice).1 := by
  have writable : ¬ served.Broken := fun broken => absurd broken.2 (by decide +kernel)
  obtain ⟨-, -, places, -, -, -, -, -, -, closed, -⟩ :=
    station_run_answers CannedWorker.worker slowNode askedTwice overlapping writable
  have three : served.taken.length = 3 := by decide +kernel
  have places : (served.answered ++ served.current).Perm (List.range served.taken.length) := places
  rw [three] at places
  exact ⟨by decide +kernel, by decide +kernel, places, (closed (by decide +kernel)).1⟩

end Archivist
