import Archivist.Proofs.Control.Calls
set_option autoImplicit false

/-!
# One call for each connection

A transfer has one connection, and that can be used once.  So of all calls that are made one after
the other at most one moves bytes, and all that the transfer tells is about this one.  A call that
comes to a connection that was used or given up fails, and a listener is gone as soon as it was
used or given up.
-/

namespace Archivist

namespace DataConnection

/-- No call gets past the connection any more. -/
def Over (c : DataConnection) : Prop := c.spent = true ∨ c.aborted = true

variable {c : DataConnection}

theorem Over.fails (h : c.Over) (net : Network) : ∃ e, (c.attempt net).2 = .failed e := by
  rcases c.attempt_cases net with ⟨-, out⟩ | ⟨-, -, out⟩ | ⟨kept, unused, -⟩
  · exact ⟨.aborted, by rw [out]⟩
  · exact ⟨.alreadyConnected, by rw [out]⟩
  · rcases h with used | given
    · exact absurd used (Bool.eq_false_iff.1 unused)
    · exact absurd given (Bool.eq_false_iff.1 kept)

theorem over_attempt (c : DataConnection) (net : Network) : (c.attempt net).1.Over := by
  rcases c.attempt_cases net with ⟨given, out⟩ | ⟨-, used, out⟩ | ⟨-, -, out⟩
  · rw [out]
    exact .inr given
  · rw [out]
    exact .inl used
  · rw [out]
    exact .inl (spent_use c)

end DataConnection

namespace Mover

open DataConnection FileTransfer

inductive Deed where
  | call (c : Call)
  | abort

def Deed.Uses : Deed → Prop
  | .call c => c.Reaches
  | .abort => True

/-- The deed gets past the connection. -/
def Joining (m : Mover) : Deed → Prop
  | .call c => m.JoinsIn c
  | .abort => False

def perform (m : Mover) : Deed → Mover
  | .call c => (m.ends c).poll.2
  | .abort => m.abort

def run (m : Mover) (deeds : List Deed) : Mover := deeds.foldl perform m

theorem run_append (m : Mover) (deeds later : List Deed) :
    m.run (deeds ++ later) = (m.run deeds).run later := List.foldl_append

variable {m : Mover}

theorem transfer_poll (m : Mover) : m.poll.2.stage.transfer = m.stage.transfer := by
  unfold poll
  split
  · rename_i t result stage
    rw [stage]
    rfl
  · rfl

theorem transfer_call (m : Mover) (c : Call) :
    (m.perform (.call c)).stage.transfer = (m.ends c).stage.transfer := transfer_poll (m.ends c)

theorem transfer_abort (m : Mover) :
    (m.perform .abort).stage.transfer = m.stage.transfer.abort := Stage.transfer_abort m.stage

theorem notes_poll (m : Mover) : m.poll.2.notes = m.notes := by
  unfold poll
  split <;> rfl

theorem Right.after (h : m.Right) (events : List Event) : (m.after events).Right := by
  induction events generalizing m with
  | nil => exact h
  | cons event events ih => exact ih (h.occurs event)

theorem Right.ends_call (h : m.Right) (c : Call) : (m.ends c).Right := by
  have found : Right { m with storage := c.storage, network := c.network } := ⟨h.tell, h.moves⟩
  exact (found.start c.request).after c.events

theorem Right.perform (h : m.Right) (d : Deed) : (m.perform d).Right := by
  cases d with
  | call c => exact (h.ends_call c).poll
  | abort => exact h.abort

/-- What some deeds have done to a transfer with this connection. -/
structure Past (c : DataConnection) (deeds : List Deed) (t : FileTransfer) : Prop where
  aborted : t.connection.aborted = true ↔ c.aborted = true ∨ .abort ∈ deeds
  spent : t.connection.Over ↔ c.Over ∨ ∃ d ∈ deeds, d.Uses
  unstarted : ¬ t.connection.Over → t.started = false
  cancelled : t.cancelled = true → t.connection.aborted = true
  sound : t.connection.Sound
  closed : (∃ d ∈ deeds, d.Uses) → t.connection.listening = false

variable {c : DataConnection} {deeds : List Deed} {d : Deed} {call : Call} {t t' : FileTransfer}

theorem past_nil (sound : c.Sound) : Past c [] { connection := c } where
  aborted := by simp
  spent := by simp
  unstarted _ := rfl
  cancelled h := by cases h
  sound := sound
  closed h := by simp at h

theorem Past.idle (h : Past c deeds t) (unused : ¬ d.Uses) : Past c (deeds ++ [d]) t where
  aborted := by
    have call : .abort ∉ [d] := by
      rintro given
      obtain rfl := List.mem_singleton.1 given
      exact unused trivial
    rw [h.aborted, List.mem_append, or_iff_left call]
  spent := by
    have hnone : ¬ ∃ d' ∈ [d], d'.Uses := by simpa using unused
    rw [h.spent]
    simp only [List.mem_append, or_and_right, exists_or, hnone, or_false]
  unstarted := h.unstarted
  cancelled := h.cancelled
  sound := h.sound
  closed := by
    rintro ⟨d', given, used⟩
    rcases List.mem_append.1 given with before | now
    · exact h.closed ⟨d', before, used⟩
    · obtain rfl := List.mem_singleton.1 now
      exact absurd used unused

theorem Past.used (h : Past c deeds t) (uses : d.Uses)
    (aborted : t'.connection.aborted = true ↔ t.connection.aborted = true ∨ .abort = d)
    (spent : t'.connection.Over)
    (cancelled : t'.cancelled = true → t'.connection.aborted = true)
    (closed : t'.connection.listening = false) : Past c (deeds ++ [d]) t' where
  aborted := by
    rw [aborted, h.aborted, List.mem_append, List.mem_singleton, or_assoc]
  spent := iff_of_true spent (.inr ⟨d, List.mem_append_right deeds (.head []), uses⟩)
  unstarted left := absurd spent left
  cancelled := cancelled
  sound _ := closed
  closed _ := closed

structure After (c : DataConnection) (deeds : List Deed) (m : Mover) : Prop
    extends Past c deeds m.stage.transfer where
  right : m.Right

theorem after_fresh (sound : c.Sound) (storage : Storage) (network : Network) :
    After c [] (fresh c storage network) :=
  ⟨past_nil sound, right_fresh c storage network⟩

theorem After.perform (h : After c deeds m) (d : Deed) :
    After c (deeds ++ [d]) (m.perform d) := by
  refine ⟨?_, h.right.perform d⟩
  cases d with
  | abort =>
    rw [transfer_abort]
    exact h.used (d := .abort) trivial (iff_of_true (aborted_abort _) (.inr rfl))
      (.inr (aborted_abort _)) (fun _ => aborted_abort _) (listening_abort _)
  | call call =>
    rw [transfer_call]
    by_cases reaches : call.Reaches
    · obtain ⟨connection, cancelled, -⟩ := keeps_of_reaches reaches call.events (m := m)
      rw [← ends] at connection cancelled
      have before : (m.stage.transfer.attempt call.network).1.connection.aborted =
          m.stage.transfer.connection.aborted := aborted_attempt _ call.network
      apply h.used (d := .call call) reaches <;> rw [connection]
      · rw [before]
        exact (or_iff_left Deed.noConfusion).symm
      · exact over_attempt m.stage.transfer.connection call.network
      · rw [cancelled, before]
        exact h.cancelled
      · exact h.sound.listening_attempt call.network
    · obtain ⟨e, failed⟩ := ends_of_not_reaches reaches (m := m)
      rw [failed]
      exact h.idle reaches

theorem After.run (h : After c deeds m) (later : List Deed) :
    After c (deeds ++ later) (m.run later) := by
  induction later generalizing deeds m with
  | nil => rwa [List.append_nil]
  | cons d later ih =>
    rw [List.append_cons]
    exact ih (h.perform d)

theorem not_over_of_joinsIn (joins : m.JoinsIn call) : ¬ m.stage.transfer.connection.Over := by
  intro isOver
  obtain ⟨-, stands, -⟩ := begins_of_joinsIn joins
  obtain ⟨e, failed⟩ := isOver.fails call.network
  exact stands e failed

theorem After.notes_of_joinsIn (h : After c deeds m) (joins : m.JoinsIn call) : m.notes = {} :=
  h.right.tell.fresh (h.unstarted (not_over_of_joinsIn joins))

theorem After.started_of_joinsIn (h : After c deeds m) (joins : m.JoinsIn call) :
    m.stage.transfer.started = false ∧ (m.ends call).stage.transfer.started = true := by
  obtain ⟨-, -, task, waits⟩ := begins_of_joinsIn joins
  have hopen := not_over_of_joinsIn joins
  have kept : m.stage.transfer.cancelled = false :=
    Bool.eq_false_iff.2 fun given => hopen (.inr (h.cancelled given))
  have unstarted := h.unstarted hopen
  obtain ⟨t, ready⟩ := (begin_isOk (t := (m.stage.transfer.attempt call.network).1)).2
    ⟨kept, unstarted⟩
  exact ⟨unstarted, started_of_joins waits ready joins⟩

theorem reported_of_joinsIn (joins : m.JoinsIn call) (afresh : m.notes = {}) :
    (m.ends call).Reported := by
  obtain ⟨-, -, task, waits⟩ := begins_of_joinsIn joins
  have begun : (m.begins call).Reported := by
    rw [Reported, waits, (begins_cases m call).1, afresh]
  exact begun.after call.events

theorem After.status_of_result (h : After c deeds m) {status : TransferStatus}
    (told : m.result call = some (.ok status)) (elapsed : UInt64) :
    (m.ends call).stage.transfer.status elapsed = status := by
  have joins := joinsIn_of_result_ok told
  have reported := reported_of_joinsIn joins (h.notes_of_joinsIn joins)
  obtain ⟨t, ended⟩ := result_eq_some.1 told
  rw [Reported, ended] at reported
  rw [ended]
  exact reported.2 elapsed

theorem After.completed_of_joinsIn (h : After c deeds m) (joins : m.JoinsIn call) :
    (m.ends call).notes.completed ≠ [] ↔ ∃ status, m.result call = some (.ok status) := by
  have reported := reported_of_joinsIn joins (h.notes_of_joinsIn joins)
  constructor
  · intro hsome
    unfold Reported at reported
    split at reported
    · exact reported.elim
    · rename_i t status ended
      exact ⟨status, result_eq_some.2 ⟨t, ended⟩⟩
    · exact absurd reported hsome
  · rintro ⟨status, told⟩
    obtain ⟨t, ended⟩ := result_eq_some.1 told
    rw [Reported, ended] at reported
    rw [reported.1]
    exact List.cons_ne_nil status []

theorem result_of_failed (reaches : call.Reaches) {e : TransferError}
    (failed : (m.stage.transfer.connection.attempt call.network).2 = .failed e) :
    m.result call = some (.error e) := by
  rcases (begins_cases m call).2 with ⟨fails, -⟩ | ⟨-, e', failed', done⟩ | ⟨-, stands, -⟩
  · exact absurd reaches fails
  · cases failed.symm.trans failed'
    exact result_eq_some.2 ⟨_, (after_of_done done call.events).1⟩
  · exact absurd failed (stands e)

/-- All of a transfer but its connection and whether it was given up. -/
structure Unmoved (t t' : FileTransfer) : Prop where
  started : t'.started = t.started
  transferred : t'.transferred = t.transferred
  checksum : t'.checksum = t.checksum
  finished : t'.finishedAfter = t.finishedAfter

theorem unmoved_of_not_joining (apart : ¬ m.Joining d) :
    (m.perform d).notes = m.notes ∧ Unmoved m.stage.transfer (m.perform d).stage.transfer := by
  cases d with
  | abort =>
    rw [transfer_abort]
    exact ⟨rfl, rfl, rfl, rfl, rfl⟩
  | call call =>
    obtain ⟨same, connection, ended⟩ := ends_of_not_joinsIn apart
    have last : (m.perform (.call call)).stage.transfer = { m.stage.transfer with connection } := by
      rw [transfer_call]
      rcases ended with ⟨task, waits⟩ | ⟨e, failed⟩
      · rw [waits]
        rfl
      · rw [failed]
        rfl
    rw [last]
    exact ⟨(notes_poll (m.ends call)).trans same, rfl, rfl, rfl, rfl⟩

/-- To get past the connection is to begin the transfer. -/
theorem After.joining_iff (h : After c deeds m) :
    m.Joining d ↔
      m.stage.transfer.started = false ∧ (m.perform d).stage.transfer.started = true := by
  constructor
  · intro joins
    cases d with
    | abort => exact joins.elim
    | call call =>
      rw [transfer_call]
      exact h.started_of_joinsIn joins
  · rintro ⟨before, now⟩
    by_contra apart
    have same := (unmoved_of_not_joining apart).2.started
    cases (before.symm.trans same.symm).trans now

theorem Joining.uses (joins : m.Joining d) :
    d.Uses ∧ ¬ m.stage.transfer.connection.Over := by
  cases d with
  | abort => exact joins.elim
  | call call => exact ⟨(begins_of_joinsIn joins).1, not_over_of_joinsIn joins⟩

/-- No deed gets past the connection after one that has. -/
theorem After.not_joining (h : After c deeds m) {d' : Deed} (joins : m.Joining d)
    (middle : List Deed) : ¬ ((m.perform d).run middle).Joining d' := by
  intro again
  have later := (h.perform d).run middle
  refine again.uses.2 (later.spent.2 (.inr ⟨d, ?_, joins.uses.1⟩))
  exact List.mem_append_left middle (List.mem_append_right deeds (.head []))

theorem After.refused (h : After c deeds m) (reaches : call.Reaches) :
    (c.aborted = true ∨ .abort ∈ deeds → m.result call = some (.error .aborted)) ∧
      (¬ (c.aborted = true ∨ .abort ∈ deeds) → (c.Over ∨ ∃ d ∈ deeds, d.Uses) →
        m.result call = some (.error .alreadyConnected)) := by
  constructor
  · intro given
    apply result_of_failed reaches
    rw [attempt_of_aborted (h.aborted.2 given)]
  · intro kept used
    have kept : m.stage.transfer.connection.aborted = false :=
      Bool.eq_false_iff.2 (kept ∘ h.aborted.1)
    have spent := (h.spent.2 used).resolve_right (Bool.eq_false_iff.1 kept)
    apply result_of_failed reaches
    rw [attempt_of_spent kept spent]

theorem After.listening_of_reaches (h : After c deeds m) (reaches : call.Reaches)
    (events : List Event) :
    ((m.begins call).after events).stage.transfer.connection.listening = false := by
  rw [(keeps_of_reaches reaches events).connection]
  exact h.sound.listening_attempt call.network

end Mover

/-- Whatever calls are made of a transfer, one after the other and over whatever storages and
networks, and whenever it is given up: at most one of these deeds gets past the connection, which
is to begin the transfer.  Before it no byte was moved, and what the transfer tells is right about
the bytes that this one has moved, for nothing else moves bytes or changes what is told; it calls
itself finished exactly if this call has come to a good end, and tells then what the call did.
Every call that comes to the connection after it was given up fails for that, and otherwise every
one after the first fails since there was a connection already.  The listener is gone from the
moment at which a call has come to it or it was given up. -/
theorem run_joining_once {connection : DataConnection} (sound : connection.Sound)
    (storage : Storage) (network : Network) :
    let start := Mover.fresh connection storage network
    (∀ front d middle d', (start.run front).Joining d →
      ¬ (start.run (front ++ d :: middle)).Joining d') ∧
    (∀ front d,
      let m := start.run front
      let m' := start.run (front ++ [d])
      let t := m.stage.transfer
      let t' := m'.stage.transfer
      (m.Joining d ↔ t.started = false ∧ t'.started = true) ∧
      (m.Joining d → m.notes = {}) ∧
      (¬ m.Joining d → m'.notes = m.notes ∧ Mover.Unmoved t t') ∧
      m'.notes.Tell t' ∧
      ((∃ d' ∈ front ++ [d], d'.Uses) → t'.connection.listening = false)) ∧
    (∀ front (call : Mover.Call),
      let m := start.run front
      let t' := (m.ends call).stage.transfer
      (m.JoinsIn call →
        (t'.finishedAfter.isSome = true ↔ ∃ status, m.result call = some (.ok status))) ∧
      (∀ status, m.result call = some (.ok status) →
        m.JoinsIn call ∧ ∀ elapsed, t'.status elapsed = status) ∧
      (call.Reaches →
        (connection.aborted = true ∨ .abort ∈ front → m.result call = some (.error .aborted)) ∧
        (¬ (connection.aborted = true ∨ .abort ∈ front) →
          (connection.Over ∨ ∃ d ∈ front, d.Uses) →
          m.result call = some (.error .alreadyConnected)) ∧
        ∀ events,
          ((m.begins call).after events).stage.transfer.connection.listening = false)) ∧
    ∀ (m : Mover) (storage : Storage) (net : Network) (mode : TransferMode) (elapsed : UInt64),
      let t := m.stage.transfer
      (∀ path resume want,
        let r := t.sendFile storage net path mode resume want elapsed
        ∃ events, (m.ends ⟨.sendFile path mode resume want, trivial, storage, net,
          events⟩).stage = .done r.1 r.2.1) ∧
      (∀ peer directory filename offset,
        let r := t.receiveFile storage net peer directory mode filename offset elapsed
        ∃ events, (m.ends ⟨.receiveFile directory mode filename offset, trivial, storage, net,
          events⟩).stage = .done r.1 r.2.2) ∧
      (m.perform .abort).stage.transfer = t.abort := by
  intro start
  have after (deeds : List Mover.Deed) : Mover.After connection deeds (start.run deeds) :=
    (Mover.after_fresh sound storage network).run deeds
  refine ⟨fun front d middle d' joins => ?_, fun front d => ?_, fun front call => ?_,
    fun m storage net mode elapsed => ⟨fun path resume want => ?_,
      fun peer directory filename offset => ?_, m.transfer_abort⟩⟩
  · rw [Mover.run_append]
    exact (after front).not_joining joins middle
  · intro m m' t t'
    have next : m' = m.perform d := Mover.run_append start front [d]
    have later : Mover.After connection (front ++ [d]) m' := after (front ++ [d])
    refine ⟨?_, fun joins => ?_, fun apart => ?_, later.right.tell, later.closed⟩
    · rw [(after front).joining_iff, ← next]
    · cases d with
      | abort => exact joins.elim
      | call call => exact (after front).notes_of_joinsIn joins
    · change m'.notes = m.notes ∧ Mover.Unmoved t m'.stage.transfer
      rw [next]
      exact Mover.unmoved_of_not_joining apart
  · intro m t'
    have before : Mover.After connection front m := after front
    refine ⟨fun joins => ?_, fun status told => ?_, fun reaches => ?_⟩
    · rw [← before.completed_of_joinsIn joins]
      exact (before.right.ends_call call).tell.finished
    · exact ⟨Mover.joinsIn_of_result_ok told, before.status_of_result told⟩
    · obtain ⟨given, used⟩ := before.refused reaches
      exact ⟨given, used, before.listening_of_reaches reaches⟩
  · exact Mover.sendFile_is_call m storage net path mode resume want elapsed
  · exact Mover.receiveFile_is_call m storage net peer directory mode filename offset elapsed

def fetch (directory : String) (events : List Mover.Event) : Mover.Call :=
  ⟨.receiveFile directory .binary "f" 0, trivial, .empty, { reach := .loopback }, events⟩

theorem run_joining_listener :
    let start := Mover.fresh listener .empty { reach := .loopback }
    let climbing := fetch "../d" []
    let served := fetch "d" [.connected, .arrives [1, 2, 3], .ends, .closed]
    let deeds : List Mover.Deed := [.call climbing, .call served]
    let m := start.run deeds
    listener.Sound ∧ start.result climbing = some (.error (.invalidPath "../d")) ∧
      m.notes.Tell m.stage.transfer ∧ m.stage.transfer.transferred = 3 ∧
      m.result served = some (.error .alreadyConnected) ∧
      (start.run (deeds ++ [.abort])).result served = some (.error .aborted) ∧
      (start.run (deeds ++ [.abort])).stage.transfer.transferred = 3 := by
  intro start climbing served deeds m
  have sound : listener.Sound := fun given => (by cases given)
  obtain ⟨-, told, comes, -⟩ := run_joining_once sound .empty { reach := .loopback }
  have reaches : served.Reaches := ⟨.receive ["d", "f"] .binary, by rfl⟩
  obtain ⟨-, -, -, right, -⟩ := told [.call climbing] (.call served)
  obtain ⟨-, used, -⟩ := (comes deeds served).2.2 reaches
  obtain ⟨given, -⟩ := (comes (deeds ++ [.abort]) served).2.2 reaches
  have kept : ¬ (listener.aborted = true ∨ .abort ∈ deeds) := by
    simp [deeds, listener, DataConnection.aborted]
  have failed : start.result climbing = some (.error (.invalidPath "../d")) := by rfl
  exact ⟨sound, failed, right, by decide +kernel,
    used kept (.inr ⟨.call served, by simp [deeds], reaches⟩), given (.inr (by simp)),
    by decide +kernel⟩

end Archivist
