import Archivist.Proofs.Control.Progress
import Archivist.Proofs.Transfer.Misplaced
set_option autoImplicit false

/-!
# A call of a transfer from its beginning to its end

A call gets its file ready, uses the connection, waits for it to stand and moves the bytes.  What
happens to it on the way is up to its surroundings, so it can fail at every step.  It begins in one
of three ways (`begins_cases`): it fails before it uses the connection, or the connection refuses
it, or it waits for the connection; and unless that comes to stand it moves nothing
(`ends_of_not_joinsIn`).  What the functions of a transfer come to at once are such calls
(`sendFile_is_call`, `receiveFile_is_call`).
-/

namespace Archivist

/-! ## Using a connection -/

namespace DataConnection

def spent : DataConnection → Bool
  | .active c => c.used
  | .passive c => !c.listening

def aborted : DataConnection → Bool
  | .active c => c.aborted
  | .passive c => c.aborted

def listening : DataConnection → Bool
  | .active _ => false
  | .passive c => c.listening

/-- A listener that was given up is closed. -/
def Sound (c : DataConnection) : Prop := c.aborted = true → c.listening = false

variable {c : DataConnection}

theorem attempt_of_aborted (h : c.aborted = true) (net : Network) :
    c.attempt net = (c, .failed .aborted) := by
  cases c with
  | active c =>
    have given : c.aborted = true := h
    simp only [attempt, ActiveConnection.dial, given, if_true]
  | passive c =>
    have given : c.aborted = true := h
    simp only [attempt, PassiveConnection.accept, given, if_true]

theorem attempt_of_spent (h : c.aborted = false) (used : c.spent = true) (net : Network) :
    c.attempt net = (c, .failed .alreadyConnected) := by
  cases c with
  | active c =>
    have kept : c.aborted = false := h
    have used : c.used = true := used
    simp only [attempt, ActiveConnection.dial, kept, used, if_true, Bool.false_eq_true, if_false]
  | passive c =>
    have kept : c.aborted = false := h
    have closed : c.listening = false := by simpa [spent] using used
    simp only [attempt, PassiveConnection.accept, kept, closed, Bool.false_eq_true, if_false]

def use : DataConnection → DataConnection
  | .active c => .active { c with used := true }
  | .passive c => .passive { c with listening := false }

theorem attempt_of_unspent (h : c.aborted = false) (unused : c.spent = false) (net : Network) :
    (c.attempt net).1 = c.use := by
  cases c with
  | active c =>
    have kept : c.aborted = false := h
    have unused : c.used = false := unused
    simp only [attempt, ActiveConnection.dial, kept, unused, Bool.false_eq_true, if_false]
    rcases (do c.settings.check; c.bindable; net.dial c.address : Except TransferError Unit)
      with _ | _ <;> simp only [use, kept]
  | passive c =>
    have kept : c.aborted = false := h
    have hopen : c.listening = true := by simpa [spent] using unused
    simp only [attempt, PassiveConnection.accept, kept, hopen, Bool.false_eq_true, if_false,
      if_true, use]

theorem aborted_use (c : DataConnection) : c.use.aborted = c.aborted := by
  cases c <;> rfl

theorem spent_use (c : DataConnection) : c.use.spent = true := by
  cases c <;> rfl

theorem listening_use (c : DataConnection) : c.use.listening = false := by
  cases c <;> rfl

theorem aborted_abort (c : DataConnection) : c.abort.aborted = true := by
  cases c <;> rfl

theorem listening_abort (c : DataConnection) : c.abort.listening = false := by
  cases c <;> rfl

theorem listening_of_spent (h : c.spent = true) : c.listening = false := by
  cases c with
  | active c => rfl
  | passive c =>
    have closed : c.listening = false := by simpa [spent] using h
    exact closed

theorem attempt_cases (c : DataConnection) (net : Network) :
    (c.aborted = true ∧ c.attempt net = (c, .failed .aborted)) ∨
      (c.aborted = false ∧ c.spent = true ∧ c.attempt net = (c, .failed .alreadyConnected)) ∨
      (c.aborted = false ∧ c.spent = false ∧ (c.attempt net).1 = c.use) := by
  cases given : c.aborted with
  | true => exact .inl ⟨rfl, attempt_of_aborted given net⟩
  | false =>
    cases used : c.spent with
    | true => exact .inr (.inl ⟨rfl, rfl, attempt_of_spent given used net⟩)
    | false => exact .inr (.inr ⟨rfl, rfl, attempt_of_unspent given used net⟩)

theorem Sound.listening_attempt (sound : c.Sound) (net : Network) :
    (c.attempt net).1.listening = false := by
  rcases c.attempt_cases net with ⟨given, out⟩ | ⟨-, used, out⟩ | ⟨-, -, out⟩
  · rw [out]
    exact sound given
  · rw [out]
    exact listening_of_spent used
  · rw [out]
    exact listening_use c

theorem aborted_attempt (c : DataConnection) (net : Network) :
    (c.attempt net).1.aborted = c.aborted := by
  rcases c.attempt_cases net with ⟨-, out⟩ | ⟨-, -, out⟩ | ⟨-, -, out⟩
  · rw [out]
  · rw [out]
  · rw [out, aborted_use]

end DataConnection

namespace Mover

open FileTransfer

/-! ## What happens on the way -/

/-- The connection comes to stand while it is waited for. -/
def Joins : Mover → List Event → Prop
  | _, [] => False
  | m, event :: events =>
    (event = .connected ∧ ∃ t task, m.stage = .connecting t task) ∨ Joins (m.occurs event) events

/-- What stays of a transfer while bytes are moved. -/
structure Keeps (t t' : FileTransfer) : Prop where
  connection : t'.connection = t.connection
  cancelled : t'.cancelled = t.cancelled
  started : t.started = true → t'.started = true

theorem Keeps.refl (t : FileTransfer) : Keeps t t := ⟨rfl, rfl, id⟩

theorem Keeps.trans {t t' t'' : FileTransfer} (h : Keeps t t') (h' : Keeps t' t'') : Keeps t t'' :=
  ⟨h'.connection.trans h.connection, h'.cancelled.trans h.cancelled, h'.started ∘ h.started⟩

variable {m : Mover} {t : FileTransfer} {task : TransferTask}

theorem keeps_receivePiece (r : Receiving) (p : List UInt8) :
    Keeps r.transfer (receivePiece r p).transfer := by
  unfold receivePiece
  dsimp only
  cases r.mode <;> exact ⟨rfl, rfl, id⟩

theorem keeps_flushHeld (r : Receiving) : Keeps r.transfer (flushHeld r).transfer := by
  unfold flushHeld
  split <;> exact ⟨rfl, rfl, id⟩

theorem keeps_occurs (m : Mover) (event : Event) :
    Keeps m.stage.transfer (m.occurs event).stage.transfer := by
  obtain ⟨stage, storage, network, clock, notes⟩ := m
  cases stage with
  | idle t => cases event <;> exact .refl t
  | done t result => cases event <;> exact .refl t
  | closing t => cases event <;> exact ⟨rfl, rfl, id⟩
  | receiving r =>
    cases event with
    | arrives piece => exact keeps_receivePiece r piece
    | ends => exact keeps_flushHeld r
    | _ => exact .refl r.transfer
  | sending s piece =>
    cases piece with
    | none => cases event <;> exact ⟨rfl, rfl, id⟩
    | some piece => cases event <;> exact ⟨rfl, rfl, id⟩
  | connecting t task =>
    cases event with
    | connected =>
      unfold occurs
      dsimp only
      cases begun : t.begin with
      | error e => exact .refl t
      | ok t₁ =>
        obtain rfl := begin_eq_ok begun
        rcases task with ⟨_ | _, mode, want⟩ | ⟨location, mode⟩ <;> exact ⟨rfl, rfl, fun _ => rfl⟩
    | _ => exact .refl t

theorem keeps_after (m : Mover) (events : List Event) :
    Keeps m.stage.transfer (m.after events).stage.transfer := by
  induction events generalizing m with
  | nil => exact .refl _
  | cons event events ih => exact (keeps_occurs m event).trans (ih (m.occurs event))

theorem not_joins_of_done {result : Except TransferError TransferStatus}
    (h : m.stage = .done t result) (events : List Event) : ¬ Joins m events := by
  induction events generalizing m with
  | nil => exact id
  | cons event events ih =>
    rintro (⟨-, t', task, waits⟩ | later)
    · cases h.symm.trans waits
    · exact ih (after_of_done h [event]).1 later

theorem after_of_not_joins (h : m.stage = .connecting t task) {events : List Event}
    (apart : ¬ Joins m events) :
    ((m.after events).stage = .connecting t task ∨
        ∃ e, (m.after events).stage = .done t (.error e)) ∧
      (m.after events).notes = m.notes := by
  induction events generalizing m with
  | nil => exact ⟨.inl h, rfl⟩
  | cons event events ih =>
    obtain ⟨stage, storage, network, clock, notes⟩ := m
    cases h
    have later := fun joins => apart (.inr joins)
    cases event with
    | connected => exact absurd (.inl ⟨rfl, t, task, rfl⟩) apart
    | fails e =>
      obtain ⟨ended, -, same⟩ := after_of_done (m := ⟨.done t (.error e), storage, network, clock,
        notes⟩) rfl events
      exact ⟨.inr ⟨e, ended⟩, same⟩
    | _ => exact ih rfl later

theorem started_of_joins (h : m.stage = .connecting t task) {t₁ : FileTransfer}
    (ready : t.begin = .ok t₁) {events : List Event} (joins : Joins m events) :
    (m.after events).stage.transfer.started = true := by
  induction events generalizing m with
  | nil => exact joins.elim
  | cons event events ih =>
    obtain ⟨stage, storage, network, clock, notes⟩ := m
    cases h
    cases event with
    | connected =>
      refine (keeps_after _ events).started ?_
      unfold occurs
      dsimp only
      rw [ready]
      obtain rfl := begin_eq_ok ready
      rcases task with ⟨_ | _, mode, want⟩ | ⟨location, mode⟩ <;> rfl
    | fails e =>
      rcases joins with ⟨other, -⟩ | later
      · cases other
      · exact absurd later (not_joins_of_done rfl events)
    | _ =>
      rcases joins with ⟨other, -⟩ | later
      · cases other
      · exact ih rfl later

/-- What a call says at its end is what was noted of it, and what the transfer says from then on. -/
def Reported (m : Mover) : Prop :=
  match m.stage with
  | .idle _ => False
  | .done t (.ok status) =>
    m.notes.completed = [status] ∧ ∀ elapsed, t.status elapsed = status
  | _ => m.notes.completed = []

theorem Reported.occurs (h : m.Reported) (event : Event) : (m.occurs event).Reported := by
  obtain ⟨stage, storage, network, clock, notes⟩ := m
  cases stage with
  | idle t => exact h.elim
  | done t result => cases event <;> exact h
  | closing t =>
    cases event with
    | closed =>
      have hnone : notes.completed = [] := h
      refine ⟨?_, fun elapsed => rfl⟩
      change notes.completed ++ _ = _
      rw [hnone, List.nil_append]
    | _ => exact h
  | receiving r => cases event <;> exact h
  | sending s piece =>
    cases piece with
    | none => cases event <;> exact h
    | some piece => cases event <;> exact h
  | connecting t task =>
    cases event with
    | connected =>
      have hnone : notes.completed = [] := h
      unfold Mover.occurs
      dsimp only
      cases t.begin with
      | error e => exact hnone
      | ok t₁ => rcases task with ⟨_ | _, mode, want⟩ | ⟨location, mode⟩ <;> exact hnone
    | _ => exact h

theorem Reported.after (h : m.Reported) (events : List Event) : (m.after events).Reported := by
  induction events generalizing m with
  | nil => exact h
  | cons event events ih => exact ih (h.occurs event)

/-! ## Calls -/

/-- A call that moves a file: what it asks for, how it finds the storage and the network, and what
happens on its way. -/
structure Call where
  request : Request
  moves : Server.Moves request
  storage : Storage
  network : Network
  events : List Event

/-- The file can be got ready, so the call goes on to the connection. -/
def Call.Reaches (c : Call) : Prop :=
  match c.request with
  | .sendFile path mode resume want =>
    ∃ task, prepareSend c.storage path mode resume want = .ok task
  | .receiveFile directory mode filename offset =>
    ∃ task, (prepareReceive c.storage directory mode filename offset).2 = .ok task
  | _ => False

def begins (m : Mover) (c : Call) : Mover :=
  { m with storage := c.storage, network := c.network }.start c.request

def ends (m : Mover) (c : Call) : Mover := (m.begins c).after c.events

def result (m : Mover) (c : Call) : Option (Except TransferError TransferStatus) :=
  (m.ends c).poll.1

/-- The call gets past the connection. -/
def JoinsIn (m : Mover) (c : Call) : Prop := Joins (m.begins c) c.events

theorem result_eq_some {c : Call} {r : Except TransferError TransferStatus} :
    m.result c = some r ↔ ∃ t, (m.ends c).stage = .done t r := by
  unfold result poll
  constructor
  · intro told
    split at told
    · rename_i t result ended
      cases told
      exact ⟨t, ended⟩
    · cases told
  · rintro ⟨t, ended⟩
    rw [ended]

theorem connect_cases (m : Mover) (task : TransferTask) :
    (∃ e, (m.stage.transfer.attempt m.network).2 = .failed e ∧
        m.connect task =
          { m with stage := .done (m.stage.transfer.attempt m.network).1 (.error e) }) ∨
      (∀ e, (m.stage.transfer.attempt m.network).2 ≠ .failed e) ∧
        m.connect task =
          { m with stage := .connecting (m.stage.transfer.attempt m.network).1 task } := by
  unfold connect
  rcases m.stage.transfer.attempt m.network with ⟨t, e | _ | _⟩
  · exact .inl ⟨e, rfl, rfl⟩
  · exact .inr ⟨fun e h => (by cases h), rfl⟩
  · exact .inr ⟨fun e h => (by cases h), rfl⟩

theorem begins_eq (m : Mover) (c : Call) :
    (¬ c.Reaches ∧ ∃ e storage, m.begins c = { m with
        storage, network := c.network, stage := .done m.stage.transfer (.error e) }) ∨
      c.Reaches ∧ ∃ task storage,
        m.begins c = { m with storage, network := c.network }.connect task := by
  obtain ⟨request, moves, storage, network, events⟩ := c
  unfold begins Call.Reaches
  dsimp only
  cases request with
  | sendFile path mode resume want =>
    unfold start
    dsimp only
    cases prepareSend storage path mode resume want with
    | error e => exact .inl ⟨fun ⟨task, ok⟩ => (by cases ok), e, storage, rfl⟩
    | ok task => exact .inr ⟨⟨task, rfl⟩, task, storage, rfl⟩
  | receiveFile directory mode filename offset =>
    unfold start
    dsimp only
    rcases prepareReceive storage directory mode filename offset with ⟨later, e | task⟩
    · exact .inl ⟨fun ⟨task, ok⟩ => (by cases ok), e, later, rfl⟩
    · exact .inr ⟨⟨task, rfl⟩, task, later, rfl⟩
  | _ => exact moves.elim

/-- A call fails before it uses the connection and leaves it as it is, or the connection refuses
it, or it waits for the connection. -/
theorem begins_cases (m : Mover) (c : Call) :
    (m.begins c).notes = m.notes ∧
      ((¬ c.Reaches ∧ ∃ e, (m.begins c).stage = .done m.stage.transfer (.error e)) ∨
        (c.Reaches ∧ ∃ e, (m.stage.transfer.attempt c.network).2 = .failed e ∧
          (m.begins c).stage = .done (m.stage.transfer.attempt c.network).1 (.error e)) ∨
        (c.Reaches ∧ (∀ e, (m.stage.transfer.attempt c.network).2 ≠ .failed e) ∧
          ∃ task, (m.begins c).stage =
            .connecting (m.stage.transfer.attempt c.network).1 task)) := by
  rcases begins_eq m c with ⟨fails, e, storage, begun⟩ | ⟨reaches, task, storage, begun⟩
  · rw [begun]
    exact ⟨rfl, .inl ⟨fails, e, rfl⟩⟩
  · rw [begun]
    rcases connect_cases { m with storage, network := c.network } task with
      ⟨e, failed, done⟩ | ⟨stands, waits⟩
    · rw [done]
      exact ⟨rfl, .inr (.inl ⟨reaches, e, failed, rfl⟩)⟩
    · rw [waits]
      exact ⟨rfl, .inr (.inr ⟨reaches, stands, task, rfl⟩)⟩

theorem begins_of_joinsIn {c : Call} (joins : m.JoinsIn c) :
    c.Reaches ∧ (∀ e, (m.stage.transfer.attempt c.network).2 ≠ .failed e) ∧
      ∃ task, (m.begins c).stage = .connecting (m.stage.transfer.attempt c.network).1 task := by
  rcases (begins_cases m c).2 with ⟨-, e, done⟩ | ⟨-, e, -, done⟩ | waits
  · exact absurd joins (not_joins_of_done done c.events)
  · exact absurd joins (not_joins_of_done done c.events)
  · exact waits

theorem keeps_of_reaches {c : Call} (reaches : c.Reaches) (events : List Event) :
    Keeps (m.stage.transfer.attempt c.network).1 ((m.begins c).after events).stage.transfer := by
  refine .trans ?_ (keeps_after (m.begins c) events)
  rcases (begins_cases m c).2 with ⟨fails, -⟩ | ⟨-, e, -, done⟩ | ⟨-, -, task, waits⟩
  · exact absurd reaches fails
  · rw [done]
    exact .refl _
  · rw [waits]
    exact .refl _

theorem ends_of_not_reaches {c : Call} (fails : ¬ c.Reaches) :
    ∃ e, (m.ends c).stage = .done m.stage.transfer (.error e) := by
  rcases (begins_cases m c).2 with ⟨-, e, done⟩ | ⟨reaches, -⟩ | ⟨reaches, -⟩
  · exact ⟨e, (after_of_done done c.events).1⟩
  · exact absurd reaches fails
  · exact absurd reaches fails

/-- A call that does not get past the connection moves nothing: it waits, or it has failed. -/
theorem ends_of_not_joinsIn {c : Call} (apart : ¬ m.JoinsIn c) :
    (m.ends c).notes = m.notes ∧ ∃ connection,
      (∃ task, (m.ends c).stage = .connecting { m.stage.transfer with connection } task) ∨
        ∃ e, (m.ends c).stage = .done { m.stage.transfer with connection } (.error e) := by
  obtain ⟨same, ⟨-, e, done⟩ | ⟨-, e, -, done⟩ | ⟨-, -, task, waits⟩⟩ := begins_cases m c
  · obtain ⟨still, -, notes⟩ := after_of_done done c.events
    exact ⟨notes.trans same, m.stage.transfer.connection, .inr ⟨e, still⟩⟩
  · obtain ⟨still, -, notes⟩ := after_of_done done c.events
    exact ⟨notes.trans same, (m.stage.transfer.connection.attempt c.network).1, .inr ⟨e, still⟩⟩
  · obtain ⟨still, notes⟩ := after_of_not_joins waits apart
    exact ⟨notes.trans same, (m.stage.transfer.connection.attempt c.network).1,
      still.imp_left fun waiting => ⟨task, waiting⟩⟩

theorem joinsIn_of_result_ok {c : Call} {status : TransferStatus}
    (told : m.result c = some (.ok status)) : m.JoinsIn c := by
  obtain ⟨t, ended⟩ := result_eq_some.1 told
  by_contra apart
  obtain ⟨-, connection, ⟨task, waits⟩ | ⟨e, failed⟩⟩ := ends_of_not_joinsIn apart
  · cases waits.symm.trans ended
  · cases failed.symm.trans ended

/-! ## The functions of a transfer -/

theorem occurs_connected (h : m.stage = .connecting t task) :
    m.occurs .connected = match t.begin with
      | .error e => { m with stage := .done t (.error e) }
      | .ok t₁ => m.join t₁ task := by
  obtain ⟨stage, storage, network, clock, notes⟩ := m
  cases h
  rfl

theorem after_connected_send {content : Except IoError (List UInt8)} {mode : TransferMode}
    {want : Bool} (h : m.stage = .connecting t (.send content mode want))
    (breaks : Option Interruption) :
    let r := t.runSend mode want (content.map pieces) breaks m.clock
    (m.after (.connected :: course [] (.send content mode want) breaks)).stage =
      .done r.1 r.2.1 := by
  change ((m.occurs .connected).after _).stage = _
  rw [occurs_connected h]
  cases begun : t.begin with
  | error e =>
    refine (after_of_done rfl _).1.trans ?_
    rw [runSend, begun]
  | ok t₁ => exact (after_course_send m begun content mode want [] breaks).1

theorem after_connected_receive {location : Location} {mode : TransferMode}
    (h : m.stage = .connecting t (.receive location mode)) (arriving : List (List UInt8))
    (breaks : Option Interruption) :
    let r := t.runReceive m.storage location mode arriving breaks m.clock
    (m.after (.connected :: course arriving (.receive location mode) breaks)).stage =
      .done r.1 r.2.2 := by
  change ((m.occurs .connected).after _).stage = _
  rw [occurs_connected h]
  cases begun : t.begin with
  | error e =>
    refine (after_of_done rfl _).1.trans ?_
    rw [runReceive, begun]
  | ok t₁ => exact (after_course_receive m begun location mode arriving breaks).1

theorem sendFile_is_call (m : Mover) (storage : Storage) (net : Network) (path : String)
    (mode : TransferMode) (resume : UInt64) (want : Bool) (elapsed : UInt64) :
    let r := m.stage.transfer.sendFile storage net path mode resume want elapsed
    ∃ events, (m.ends ⟨.sendFile path mode resume want, trivial, storage, net, events⟩).stage =
      .done r.1 r.2.1 := by
  unfold ends begins start sendFile
  dsimp only
  cases prepared : prepareSend storage path mode resume want with
  | error e => exact ⟨[], rfl⟩
  | ok task =>
    obtain ⟨-, content, -, rfl, -⟩ := prepareSend_eq_ok prepared
    unfold connect
    dsimp only
    rcases m.stage.transfer.attempt net with ⟨t, e | _ | _⟩
    · exact ⟨[], rfl⟩
    · refine ⟨.tick elapsed :: .connected :: course [] (.send content mode want) net.breaks, ?_⟩
      exact after_connected_send (m := { m with
        stage := .connecting t (.send content mode want), storage, network := net,
        clock := elapsed }) rfl net.breaks
    · exact ⟨[.fails t.timedOut], rfl⟩

theorem receiveFile_is_call (m : Mover) (storage : Storage) (net : Network)
    (peer : Option (List (List UInt8))) (directory : String) (mode : TransferMode)
    (filename : String) (offset elapsed : UInt64) :
    let r := m.stage.transfer.receiveFile storage net peer directory mode filename offset elapsed
    ∃ events, (m.ends ⟨.receiveFile directory mode filename offset, trivial, storage, net,
      events⟩).stage = .done r.1 r.2.2 := by
  unfold ends begins start receiveFile receiveReady
  dsimp only
  rcases prepared : prepareReceive storage directory mode filename offset with ⟨ready, e | task⟩
  · exact ⟨[], rfl⟩
  · obtain ⟨parent, -, -, -, rfl, -⟩ := prepareReceive_eq_ok prepared
    unfold connect
    dsimp only
    rcases m.stage.transfer.attempt net with ⟨t, e | _ | _⟩
    · exact ⟨[], rfl⟩
    · refine ⟨.tick elapsed :: .connected ::
        course (peer.getD []) (.receive (parent ++ [filename]) mode) net.breaks, ?_⟩
      exact after_connected_receive (m := { m with
        stage := .connecting t (.receive (parent ++ [filename]) mode), storage := ready,
        network := net, clock := elapsed }) rfl (peer.getD []) net.breaks
    · dsimp only
      split
      · rename_i arriving _
        refine ⟨.tick elapsed :: .connected ::
          course arriving (.receive (parent ++ [filename]) mode) net.breaks, ?_⟩
        exact after_connected_receive (m := { m with
          stage := .connecting t (.receive (parent ++ [filename]) mode), storage := ready,
          network := net, clock := elapsed }) rfl arriving net.breaks
      · exact ⟨[.fails t.timedOut], rfl⟩

end Mover
end Archivist
