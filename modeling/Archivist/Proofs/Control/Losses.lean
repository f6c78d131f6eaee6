import Archivist.Proofs.Control.Streams
import Archivist.Proofs.Transfer.Wording
set_option autoImplicit false

/-!
# When a client takes its node for lost

An operation that blames the node has found the stream lost, and one that finds it lost blames the
node; only a request that is too long for a message is blamed on a node whose stream was not even
touched.  Such a request changes nothing but the number of the next one.
-/

namespace Archivist

/-- A client with its end of the stream. -/
structure Contact where
  client : Client
  stream : ControlStream

namespace Contact

variable {α β : Type}

/-- What an operation leaves behind and what it gives; nothing if it waits for ever. -/
abbrev Done (α : Type) := Contact × Option (Except TransferError α)

def andThen (d : Done α) (next : Contact → α → Done β) : Done β :=
  match d with
  | (k, some (.ok a)) => next k a
  | (k, some (.error e)) => (k, some (.error e))
  | (k, none) => (k, none)

def send (k : Contact) (request : Request) : Done UInt64 :=
  match k.client.send request with
  | (client, _, .error e) => ({ k with client }, some (.error e))
  | (client, id, .ok bytes) =>
    match k.stream.write bytes with
    | (stream, some (.ok ())) => (⟨client, stream⟩, some (.ok id))
    | (stream, some (.error _)) => (⟨client, stream⟩, some (.error client.unavailable))
    | (stream, none) => (⟨client, stream⟩, none)

def reply (k : Contact) (id : UInt64) : Done Response :=
  match k.client.parked.lookup id with
  | some r =>
    ({ k with client := { k.client with parked := k.client.parked.filter (·.1 ≠ id) } },
      some (.ok r))
  | none =>
    let (client, stream, r) := ControlStream.await id k.client k.stream
    (⟨client, stream⟩, r)

def call (k : Contact) (request : Request) : Done Response := andThen (k.send request) reply

def finish (k : Contact) (id : UInt64) : Done TransferStatus :=
  andThen (k.reply id) fun k r => (k, some (k.client.conclude r))

def transfer (k : Contact) (request : Request) : Done TransferStatus :=
  andThen (k.send request) finish

inductive Operation where
  | begin (request : Request)
  | call (request : Request)
  | finish (id : UInt64)
  | transfer (request : Request)

inductive Given where
  | number (id : UInt64)
  | response (r : Response)
  | status (s : TransferStatus)

def give (f : α → Given) (d : Done α) : Done Given := andThen d fun k a => (k, some (.ok (f a)))

def perform (k : Contact) : Operation → Done Given
  | .begin request => give .number (k.send request)
  | .call request => give .response (k.call request)
  | .finish id => give .status (k.finish id)
  | .transfer request => give .status (k.transfer request)

def run (k : Contact) (ops : List Operation) : Contact := ops.foldl (fun k op => (k.perform op).1) k

def start (node : String) (stream : ControlStream) : Contact := ⟨{ node }, stream⟩

/-- The operation has to send a request that is too long for a message. -/
def TooLong (k : Contact) : Operation → Prop
  | .begin request | .call request | .transfer request =>
    ¬ Wire.requests.Fits ⟨k.client.nextId, request⟩
  | .finish _ => False

variable {k k' : Contact} {request : Request} {id : UInt64}

/-- An operation finds the stream lost and blames the node for it, or it does neither. -/
inductive Finds (k : Contact) : Done α → Prop where
  | nothing (k' : Contact) (r : Option (Except TransferError α))
      (node : k'.client.node = k.client.node) (losses : k'.stream.losses = k.stream.losses)
      (innocent : ∀ n, r ≠ some (.error (.nodeUnavailable n))) : Finds k (k', r)
  | loss (k' : Contact) (node : k'.client.node = k.client.node)
      (losses : k'.stream.losses = k.stream.losses + 1) :
      Finds k (k', some (.error (.nodeUnavailable k.client.node)))

theorem Finds.andThen {d : Done α} {next : Contact → α → Done β} (first : Finds k d)
    (hthen : ∀ k' a, d = (k', some (.ok a)) → Finds k' (next k' a)) :
    Finds k (andThen d next) := by
  cases first with
  | loss k' node losses => exact .loss k' node losses
  | nothing k' r node losses innocent =>
    rcases r with _ | e | a
    · exact .nothing k' none node losses fun n eq => by cases eq
    · refine .nothing k' _ node losses fun n eq => ?_
      cases eq
      exact innocent n rfl
    · have later := hthen k' a rfl
      unfold Contact.andThen
      dsimp only
      generalize next k' a = out at later
      cases later with
      | nothing k'' r node' losses' innocent' =>
        exact .nothing k'' r (node'.trans node) (losses'.trans losses) innocent'
      | loss k'' node' losses' =>
        rw [node]
        exact .loss k'' (node'.trans node) (by rw [losses', losses])

theorem finds_await (id : UInt64) (c : Client) (s : ControlStream) :
    let r := ControlStream.await id c s
    Finds ⟨c, s⟩ (⟨r.1, r.2.1⟩, r.2.2) := by
  induction c, s using ControlStream.await_induction with
  | answered c s f rest => exact .nothing _ _ rfl rfl fun n eq => by cases eq
  | setAside c s f rest _ _ _ later =>
    generalize ControlStream.await id (c.park f.id f.response) _ = out at later
    obtain ⟨c', s', r⟩ := out
    dsimp only at later
    cases later with
    | nothing _ _ node losses innocent => exact .nothing _ _ node losses innocent
    | loss _ node losses => exact .loss _ node losses
  | refused c s e rest _ _ innocent =>
    exact .nothing _ _ rfl rfl fun n eq => innocent n (by cases eq; rfl)
  | lost c s r rest => exact .loss _ rfl rfl
  | waits c s rest => exact .nothing _ _ rfl rfl fun n eq => by cases eq

theorem finds_reply (k : Contact) (id : UInt64) : Finds k (k.reply id) := by
  unfold reply
  split
  · exact .nothing _ _ rfl rfl fun n eq => by cases eq
  · exact finds_await id k.client k.stream

theorem finds_finish (k : Contact) (id : UInt64) : Finds k (k.finish id) := by
  refine (finds_reply k id).andThen fun k' r _ => .nothing k' _ rfl rfl fun n eq => ?_
  have concluded : k'.client.conclude r = .error (.nodeUnavailable n) := Option.some.inj eq
  unfold Client.conclude at concluded
  split at concluded <;> cases concluded

/-! ## Requests -/

def numbered (k : Contact) (n : UInt64) : Contact :=
  { k with client := { k.client with nextId := n } }

/-- The contact after a request that was not sent. -/
def skip (k : Contact) : Contact := k.numbered (k.client.nextId + 1)

theorem send_of_long (long : ¬ Wire.requests.Fits ⟨k.client.nextId, request⟩) :
    k.send request = (k.skip, some (.error (.nodeUnavailable k.client.node))) := by
  have refused : Wire.frame (Wire.putRequestFrame ⟨k.client.nextId, request⟩) = .error _ :=
    if_pos (Nat.lt_of_not_le long)
  unfold send
  rw [Client.send_of_error refused]
  rfl

theorem finds_send (fits : Wire.requests.Fits ⟨k.client.nextId, request⟩) :
    Finds k (k.send request) := by
  have framed : Wire.frame (Wire.putRequestFrame ⟨k.client.nextId, request⟩) = _ :=
    Wire.Kind.frame_of_fits fits
  unfold send
  rw [Client.send_of_frame framed]
  dsimp only
  unfold ControlStream.write
  rcases k.stream.writings with _ | ⟨_ | ⟨after, e⟩ | after, later⟩
  · exact .nothing _ _ rfl rfl fun n eq => by cases eq
  · exact .nothing _ _ rfl rfl fun n eq => by cases eq
  · exact .loss _ rfl rfl
  · exact .nothing _ _ rfl rfl fun n eq => by cases eq

theorem finds_give (f : α → Given) {d : Done α} (finds : Finds k d) : Finds k (give f d) :=
  finds.andThen fun k' _ _ => .nothing k' _ rfl rfl fun n eq => by cases eq

theorem finds_perform {op : Operation} (short : ¬ k.TooLong op) : Finds k (k.perform op) := by
  cases op with
  | begin request => exact finds_give _ (finds_send (Decidable.not_not.1 short))
  | call request =>
    exact finds_give _ ((finds_send (Decidable.not_not.1 short)).andThen
      fun k' id _ => finds_reply k' id)
  | finish id => exact finds_give _ (finds_finish k id)
  | transfer request =>
    exact finds_give _ ((finds_send (Decidable.not_not.1 short)).andThen
      fun k' id _ => finds_finish k' id)

theorem perform_of_long {op : Operation} (long : k.TooLong op) :
    k.perform op = (k.skip, some (.error (.nodeUnavailable k.client.node))) := by
  cases op with
  | begin request =>
    rw [perform, send_of_long long]
    rfl
  | call request =>
    rw [perform, call, send_of_long long]
    rfl
  | finish id => cases long
  | transfer request =>
    rw [perform, transfer, send_of_long long]
    rfl

theorem node_perform (k : Contact) (op : Operation) :
    (k.perform op).1.client.node = k.client.node := by
  by_cases long : k.TooLong op
  · rw [perform_of_long long]
    rfl
  · have finds := finds_perform long
    generalize k.perform op = out at finds
    cases finds with
    | nothing k' r node => exact node
    | loss k' node => exact node

theorem node_run (k : Contact) (ops : List Operation) :
    (k.run ops).client.node = k.client.node := by
  induction ops generalizing k with
  | nil => rfl
  | cons op ops ih => exact (ih _).trans (node_perform k op)

theorem blames_perform (k : Contact) (op : Operation) (n : String) :
    (k.perform op).2 = some (.error (.nodeUnavailable n)) ↔
      n = k.client.node ∧ (k.stream.losses < (k.perform op).1.stream.losses ∨ k.TooLong op) := by
  by_cases long : k.TooLong op
  · rw [perform_of_long long]
    constructor
    · intro blamed
      cases blamed
      exact ⟨rfl, .inr long⟩
    · rintro ⟨rfl, -⟩
      rfl
  · have finds := finds_perform long
    generalize k.perform op = out at finds
    cases finds with
    | nothing k' r node losses innocent =>
      rw [losses]
      exact iff_of_false (innocent n) fun h => h.2.elim (Nat.lt_irrefl _) long
    | loss k' node losses =>
      rw [losses]
      constructor
      · intro blamed
        cases blamed
        exact ⟨rfl, .inl (Nat.lt_succ_self _)⟩
      · rintro ⟨rfl, -⟩
        rfl

/-! ## Who waits does not look at the next number -/

theorem await_number (id n : UInt64) (c : Client) (s : ControlStream) :
    let r := ControlStream.await id c s
    ControlStream.await id { c with nextId := n } s = ({ r.1 with nextId := n }, r.2) := by
  induction c, s using ControlStream.await_induction with
  | answered c s f rest read _ same =>
    rw [ControlStream.await_of_answer read, if_pos same]
  | setAside c s f rest read _ other later =>
    rw [ControlStream.await_of_answer read, if_neg other]
    exact later
  | refused c s e rest read other =>
    rw [ControlStream.await_of_refused read other]
  | lost c s r rest read ended =>
    rw [ControlStream.await_of_atEnd read ended]
    rfl
  | waits c s rest read =>
    rw [ControlStream.await_of_silence read]

theorem reply_numbered (k : Contact) (n id : UInt64) :
    (k.numbered n).reply id = ((k.reply id).1.numbered n, (k.reply id).2) := by
  have same := await_number id n k.client k.stream
  unfold reply numbered
  dsimp only at same ⊢
  cases k.client.parked.lookup id with
  | some r => rfl
  | none =>
    dsimp only
    rw [same]

theorem finish_numbered (k : Contact) (n id : UInt64) :
    (k.numbered n).finish id = ((k.finish id).1.numbered n, (k.finish id).2) := by
  unfold finish
  rw [reply_numbered]
  rcases k.reply id with ⟨k', _ | e | r⟩ <;> rfl

/-- What comes of transfers that are finished one after the other. -/
def finishAll (k : Contact) : List UInt64 → List (Option (Except TransferError TransferStatus))
  | [] => []
  | id :: ids => (k.finish id).2 :: (k.finish id).1.finishAll ids

theorem finishAll_numbered (k : Contact) (n : UInt64) (ids : List UInt64) :
    (k.numbered n).finishAll ids = k.finishAll ids := by
  induction ids generalizing k with
  | nil => rfl
  | cons id ids ih => rw [finishAll, finish_numbered, ih, finishAll]

/-! ## A peer that has said everything -/

/-- Nothing keeps a reader waiting, and what is written goes out. -/
structure Plain (k : Contact) : Prop where
  speaks : k.stream.ending ≠ .silent
  writes : k.stream.writings = []

/-- The conversation with somebody who has said everything that the stream brings. -/
def line (k : Contact) : Conversation Recorder where
  client := k.client
  peer := { heard := k.stream.written }
  arriving := Client.arrivals k.stream.incoming.flatten

/-- An operation does what it does in the conversation. -/
structure Agrees (d : Done α) (d' : Conversation Recorder × Option (Except TransferError α)) :
    Prop where
  line : d.1.line = d'.1
  given : d.2 = d'.2
  plain : d.1.Plain

theorem await_agrees (id : UInt64) (c : Client) (s : ControlStream) (speaks : s.ending ≠ .silent) :
    let r := Client.await id c (Client.arrivals s.incoming.flatten)
    ∃ rest losses, Client.arrivals rest.flatten = r.2.2 ∧
      ControlStream.await id c s =
        (r.1, { s with incoming := rest, losses }, some (r.2.1.getD (.error r.1.unavailable))) := by
  induction c, s using ControlStream.await_induction with
  | answered c s f rest _ next same =>
    rw [next, Client.await, if_pos same]
    exact ⟨rest, s.losses, rfl, rfl⟩
  | setAside c s f rest _ next other later =>
    rw [next, Client.await, if_neg other]
    exact later speaks
  | refused c s e rest _ other _ next =>
    rw [next]
    cases e with
    | io x => exact absurd rfl (other x)
    | _ => exact ⟨rest, s.losses, rfl, rfl⟩
  | lost c s r rest _ _ next nothing =>
    have silent : Client.arrivals rest.flatten = [] := by
      rw [nothing]
      rfl
    rcases next with next | ⟨e, next⟩ <;> rw [next]
    · exact ⟨rest, s.losses + 1, silent, rfl⟩
    · exact ⟨rest, s.losses + 1, silent, rfl⟩
  | waits c s rest _ silent => exact absurd silent speaks

theorem reply_agrees (plain : k.Plain) (id : UInt64) :
    Agrees (k.reply id) (k.line.await Recorder.peer id) := by
  unfold reply Conversation.await
  cases found : k.client.parked.lookup id with
  | some r =>
    have parked : k.line.client.reply id k.line.arriving =
        ({ k.client with parked := k.client.parked.filter (·.1 ≠ id) }, some (.ok r),
          k.line.arriving) := by
      change k.client.reply id _ = _
      rw [Client.reply, found]
    rw [parked]
    exact ⟨rfl, rfl, plain.speaks, plain.writes⟩
  | none =>
    have awaited : k.line.client.reply id k.line.arriving =
        Client.await id k.client (Client.arrivals k.stream.incoming.flatten) :=
      Client.reply_eq_await found _
    obtain ⟨rest, losses, later, eq⟩ := await_agrees id k.client k.stream plain.speaks
    rw [awaited, eq]
    generalize Client.await id k.client _ = out at later ⊢
    obtain ⟨client, _ | r, arriving⟩ := out <;> dsimp only at later ⊢ <;> rw [← later]
    · exact ⟨rfl, rfl, plain.speaks, plain.writes⟩
    · exact ⟨rfl, rfl, plain.speaks, plain.writes⟩

theorem send_agrees (plain : k.Plain) (request : Request) :
    Agrees (k.send request)
      ((k.line.begin Recorder.peer request).1, some (k.line.begin Recorder.peer request).2) := by
  unfold send Conversation.begin
  rcases sent : k.client.send request with ⟨client, id, e | bytes⟩
  · have sent' : k.line.client.send request = _ := sent
    rw [sent']
    exact ⟨rfl, rfl, plain.speaks, plain.writes⟩
  · have sent' : k.line.client.send request = _ := sent
    rw [sent']
    dsimp only
    rw [ControlStream.write, plain.writes]
    refine ⟨?_, rfl, plain.speaks, rfl⟩
    dsimp only [line, Recorder.peer]
    rw [List.map_nil, List.append_nil]
    rfl

theorem Agrees.failed {d : Done α} {c : Conversation Recorder} {e : TransferError}
    (h : Agrees d (c, some (.error e))) (next : Contact → α → Done β) :
    Agrees (Contact.andThen d next) (c, some (.error e)) := by
  obtain ⟨k', r⟩ := d
  obtain ⟨same, given, plain⟩ := h
  dsimp only at same given
  subst same given
  exact ⟨rfl, rfl, plain⟩

theorem Agrees.goesOn {d : Done α} {c : Conversation Recorder} {a : α}
    (h : Agrees d (c, some (.ok a))) {next : Contact → α → Done β}
    (next' : Conversation Recorder → α → Conversation Recorder × Option (Except TransferError β))
    (later : ∀ {k : Contact}, k.Plain → Agrees (next k a) (next' k.line a)) :
    Agrees (Contact.andThen d next) (next' c a) := by
  obtain ⟨k', r⟩ := d
  obtain ⟨same, given, plain⟩ := h
  dsimp only at same given
  subst same given
  exact later plain

theorem call_agrees (plain : k.Plain) (request : Request) :
    Agrees (k.call request) (k.line.call Recorder.peer request) := by
  have sent := send_agrees plain request
  unfold Conversation.call
  rcases begun : k.line.begin Recorder.peer request with ⟨c, e | id⟩ <;> rw [begun] at sent
  · exact sent.failed reply
  · exact sent.goesOn (Conversation.await Recorder.peer) fun plain => reply_agrees plain id

theorem finish_agrees (plain : k.Plain) (id : UInt64) :
    Agrees (k.finish id) (k.line.finish Recorder.peer id) := by
  have replied := reply_agrees plain id
  unfold finish Conversation.finish
  rcases awaited : k.line.await Recorder.peer id with ⟨c, _ | e | r⟩ <;> rw [awaited] at replied
  · obtain ⟨same, given, plain'⟩ := replied
    generalize k.reply id = d at same given plain'
    obtain ⟨k', r⟩ := d
    dsimp only at same given
    subst same given
    exact ⟨rfl, rfl, plain'⟩
  · exact replied.failed _
  · exact replied.goesOn (fun c r => (c, some (c.client.conclude r)))
      fun plain => ⟨rfl, rfl, plain⟩

theorem transfer_agrees (plain : k.Plain) (request : Request) :
    Agrees (k.transfer request) (k.line.transfer Recorder.peer request) := by
  have sent := send_agrees plain request
  unfold Conversation.transfer
  rcases begun : k.line.begin Recorder.peer request with ⟨c, e | id⟩ <;> rw [begun] at sent
  · exact sent.failed finish
  · exact sent.goesOn (Conversation.finish Recorder.peer) fun plain => finish_agrees plain id

end Contact

/-- Whatever was done before and whatever the peer does: an operation blames the node exactly if it
finds the stream lost, or if it has to send a request that is too long for a message, and it blames
no other node.  A request that is too long leaves everything as it was but the number of the next
one: nothing is read or written, nothing is lost, and each transfer that is finished later comes to
what it would have come to.  On a stream that keeps nobody waiting the operations are those of a
conversation. -/
theorem perform_nodeUnavailable_iff (node : String)
    (stream : ControlStream) (ops : List Contact.Operation) (op : Contact.Operation) :
    let k := (Contact.start node stream).run ops
    let done := k.perform op
    (∀ n, done.2 = some (.error (.nodeUnavailable n)) ↔
      n = node ∧ (k.stream.losses < done.1.stream.losses ∨ k.TooLong op)) ∧
    (k.TooLong op → done.1 = k.skip ∧ ∀ ids, done.1.finishAll ids = k.finishAll ids) ∧
    (k.Plain → ∀ request id,
      Contact.Agrees (k.call request) (k.line.call Recorder.peer request) ∧
      Contact.Agrees (k.finish id) (k.line.finish Recorder.peer id) ∧
      Contact.Agrees (k.transfer request) (k.line.transfer Recorder.peer request)) := by
  intro k done
  have name : k.client.node = node := Contact.node_run _ ops
  refine ⟨?_, ?_, ?_⟩
  · rw [← name]
    exact Contact.blames_perform k op
  · intro long
    have refused : done = _ := Contact.perform_of_long long
    rw [refused]
    exact ⟨rfl, Contact.finishAll_numbered k _⟩
  · exact fun plain request id => ⟨Contact.call_agrees plain request,
      Contact.finish_agrees plain id, Contact.transfer_agrees plain request⟩

def answeredStream : ControlStream where
  incoming := [Wire.answers.packed ⟨1, .status ⟨3, 4, 5, true⟩⟩]
  ending := .closed

def answeredContact : Contact :=
  (Contact.start "n1" answeredStream).run [.begin (.sendFile "/a" .binary 0 true)]

theorem answeredContact_eq :
    ∃ heard, answeredContact =
      ⟨{ node := "n1", nextId := 2 }, { answeredStream with written := heard }⟩ := by
  have fits : Wire.requests.Fits ⟨1, .sendFile "/a" .binary 0 true⟩ := by
    change (Wire.putRequestFrame _).length ≤ Wire.limit
    rw [Wire.length_sendFile]
    decide
  have framed : Wire.frame (Wire.putRequestFrame ⟨1, .sendFile "/a" .binary 0 true⟩) = _ :=
    Wire.Kind.frame_of_fits fits
  have sent := Client.send_of_frame (c := { node := "n1" }) framed
  refine ⟨Wire.requests.packed ⟨1, .sendFile "/a" .binary 0 true⟩, ?_⟩
  change (Contact.give _ (Contact.send _ _)).1 = _
  unfold Contact.send Contact.start
  rw [sent]
  rfl

theorem plain_answeredContact : answeredContact.Plain := by
  obtain ⟨heard, begun⟩ := answeredContact_eq
  rw [begun]
  exact { speaks := fun silent => (by cases silent), writes := rfl }

theorem line_answeredContact :
    ∃ heard, answeredContact.line =
      ⟨{ node := "n1", nextId := 2 }, { heard }, [.ok ⟨1, .status ⟨3, 4, 5, true⟩⟩]⟩ := by
  have fits : Wire.answers.Fits ⟨1, .status ⟨3, 4, 5, true⟩⟩ := Response.fits_status 1 _
  have stream : answeredStream.incoming.flatten = Wire.answers.packed _ := List.append_nil _
  have arrives := Client.arrivals_of_frame (Wire.Kind.frame_of_fits fits)
  obtain ⟨heard, begun⟩ := answeredContact_eq
  refine ⟨heard, ?_⟩
  rw [begun, ← arrives]
  exact congrArg (fun bytes => Conversation.mk _ _ (Client.arrivals bytes)) stream

def wordy : Request := .abort (String.ofList (List.replicate 1048557 'x'))

theorem tooLong_wordy (k : Contact) : k.TooLong (.call wordy) := by
  have length : (Wire.putRequestFrame ⟨k.client.nextId, wordy⟩).length = 1048577 := by
    rw [wordy, Wire.length_abort, Wire.size_replicate]
    rfl
  intro fits
  have fits : (Wire.putRequestFrame ⟨k.client.nextId, wordy⟩).length ≤ 1048576 := fits
  omega

theorem perform_nodeUnavailable_wordy :
    let done := answeredContact.perform (.call wordy)
    done.2 = some (.error (.nodeUnavailable "n1")) ∧ done.1.stream = answeredContact.stream ∧
      done.1.stream.losses = 0 ∧ done.1.finishAll [1] = [some (.ok ⟨3, 4, 5, true⟩)] := by
  have long := tooLong_wordy answeredContact
  have holds := perform_nodeUnavailable_iff "n1" answeredStream
    [.begin (.sendFile "/a" .binary 0 true)] (.call wordy)
  dsimp only at holds
  rw [← answeredContact] at holds
  generalize wordy = request at long holds ⊢
  obtain ⟨blames, skips, agrees⟩ := holds
  obtain ⟨same, finishes⟩ := skips long
  obtain ⟨heard, line⟩ := line_answeredContact
  have finished := (agrees plain_answeredContact request 1).2.1.given
  rw [line] at finished
  refine ⟨(blames "n1").2 ⟨rfl, .inr long⟩, ?_, ?_, ?_⟩
  · rw [same]
    rfl
  · obtain ⟨heard, begun⟩ := answeredContact_eq
    rw [same, begun]
    rfl
  · rw [finishes, Contact.finishAll, finished]
    rfl

end Archivist
