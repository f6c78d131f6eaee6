import Archivist.Control.Session
import Archivist.Proofs.Control.Spent
import Archivist.Proofs.Control.Tending
set_option autoImplicit false

namespace Archivist

/-! ## A worker that moves files -/

namespace NodeWorker

/-- Only a request whose path was found good is waiting for its peer. -/
structure Holds (request : Option Request) (n : NodeWorker) : Prop where
  words : n.transfer.Words
  short : ∀ i, n.network.breaks = some i → i.error.Brief
  result : ∀ result, n.result = some result → ∃ r, request = some r ∧ r.Reports result
  waiting : ∀ task, n.waiting = some task →
    n.result = none ∧ task.Plain ∧ ∃ r, request = some r ∧ r.misplaced = none

variable {n : NodeWorker} {request : Option Request} {r : Request} {task : TransferTask}

theorem Holds.idle (h : Holds none n) : n.result = none ∧ n.waiting = none := by
  constructor
  · refine Option.eq_none_iff_forall_ne_some.2 fun result found => ?_
    obtain ⟨r, eq, -⟩ := h.result result found
    cases eq
  · refine Option.eq_none_iff_forall_ne_some.2 fun task found => ?_
    obtain ⟨-, -, r, eq, -⟩ := h.waiting task found
    cases eq

theorem holds_of_idle (words : n.transfer.Words)
    (short : ∀ i, n.network.breaks = some i → i.error.Brief) (done : n.result = none)
    (alone : n.waiting = none) : Holds request n where
  words := words
  short := short
  result _ found := by cases done.symm.trans found
  waiting _ found := by cases alone.symm.trans found

theorem holds_of_done (words : n.transfer.Words)
    (short : ∀ i, n.network.breaks = some i → i.error.Brief)
    {result : Except TransferError TransferStatus} (done : n.result = some result)
    (reports : r.Reports result) (alone : n.waiting = none) : Holds (some r) n where
  words := words
  short := short
  result other found := by
    cases done.symm.trans found
    exact ⟨r, rfl, reports⟩
  waiting _ found := by cases alone.symm.trans found

theorem breaks_close (n : NodeWorker) : n.close.network.breaks = n.network.breaks := by
  unfold close
  split <;> rfl

theorem Holds.close (h : Holds request n) : Holds request n.close := by
  have short := h.short
  rw [← breaks_close] at short
  rw [close_eq] at short ⊢
  exact ⟨h.words, short, h.result, h.waiting⟩

theorem holds_carryOut (words : n.transfer.Words)
    (short : ∀ i, n.network.breaks = some i → i.error.Brief) (plain : task.Plain)
    (placed : r.misplaced = none) (arriving : List (List UInt8)) :
    Holds (some r) (n.carryOut arriving task) := by
  cases task with
  | send content mode want =>
    have same := n.transfer.connection_runSend mode want (content.map FileTransfer.pieces)
      n.network.breaks 0
    refine holds_of_done (r := r) ?_ short rfl (.of_brief placed fun e failed => ?_) rfl
    · change SocketSettings.Words (FileTransfer.runSend ..).1.connection.settings
      rw [same]
      exact words
    · exact FileTransfer.brief_runSend plain short failed
  | receive location mode =>
    have same := n.transfer.connection_runReceive n.storage location mode arriving
      n.network.breaks 0
    refine holds_of_done (r := r) ?_ short rfl (.of_brief placed fun e failed => ?_) rfl
    · change SocketSettings.Words (FileTransfer.runReceive ..).1.connection.settings
      rw [same]
      exact words
    · exact FileTransfer.brief_runReceive short failed

theorem holds_connect (h : Holds none n) (plain : task.Plain) (placed : r.misplaced = none) :
    Holds (some r) (n.connect task) := by
  obtain ⟨done, alone⟩ := h.idle
  have words : (n.transfer.attempt n.network).1.Words := by
    unfold FileTransfer.Words
    rw [FileTransfer.settings_attempt]
    exact h.words
  unfold connect
  split
  · rename_i t e failed
    rw [failed] at words
    have brief := FileTransfer.Words.brief_attempt h.words failed
    exact holds_of_done words h.short rfl (.of_brief_error placed brief) alone
  · rename_i t connected
    rw [connected] at words
    exact holds_carryOut (n := { n with transfer := t }) words h.short plain placed []
  · rename_i t waits
    rw [waits] at words
    split
    · rename_i arriving _
      exact (holds_carryOut (n := { n with transfer := t, peer := none }) words h.short plain
        placed arriving).close
    · refine ⟨words, h.short, fun result found => ?_, fun other found => ?_⟩
      · cases done.symm.trans found
      · cases found
        exact ⟨done, plain, r, rfl, placed⟩

theorem holds_start (h : Holds none n) (r : Request) : Holds (some r) (n.start r) := by
  obtain ⟨done, alone⟩ := h.idle
  cases r with
  | sendFile path mode resume want =>
    have reports := FileTransfer.reports_prepareSend n.storage path mode resume want
    unfold start
    dsimp only
    split
    · rename_i e failed
      rw [failed] at reports
      exact holds_of_done h.words h.short rfl reports.error alone
    · rename_i task prepared
      rw [prepared] at reports
      exact holds_connect h (FileTransfer.plain_prepareSend prepared) reports.placed
  | receiveFile directory mode filename offset =>
    have reports := FileTransfer.reports_prepareReceive n.storage directory mode filename offset
    unfold start
    dsimp only
    split
    · rename_i storage e failed
      rw [failed] at reports
      exact holds_of_done h.words h.short rfl reports.error alone
    · rename_i storage task prepared
      rw [prepared] at reports
      have ready : Holds none { n with storage } := ⟨h.words, h.short, h.result, h.waiting⟩
      exact holds_connect ready (FileTransfer.plain_prepareReceive prepared) reports.placed
  | _ => exact holds_of_idle h.words h.short done alone

theorem Holds.abort (h : Holds request n) : Holds request n.abort := by
  have words : n.transfer.abort.Words := by
    unfold FileTransfer.Words
    rw [FileTransfer.settings_abort]
    exact h.words
  have given : Holds request { n with transfer := n.transfer.abort } :=
    ⟨words, h.short, h.result, h.waiting⟩
  have closed := given.close
  unfold NodeWorker.abort
  dsimp only
  split
  · rename_i waits
    obtain ⟨task, waiting⟩ := Option.isSome_iff_exists.1 waits
    obtain ⟨-, -, r, rfl, placed⟩ := closed.waiting task waiting
    exact holds_of_done closed.words closed.short rfl
      (.of_brief_error placed TransferError.brief_aborted) rfl
  · exact closed

theorem Holds.dialled (h : Holds request n) (arriving : List (List UInt8)) :
    Holds request (n.dialled arriving) := by
  unfold NodeWorker.dialled
  split
  · rename_i task waiting
    obtain ⟨-, plain, r, rfl, placed⟩ := h.waiting task waiting
    exact (holds_carryOut h.words h.short plain placed arriving).close
  · exact ⟨h.words, h.short, h.result, h.waiting⟩

theorem finds_poll : Worker.Finds Holds poll := by
  intro r n h
  refine ⟨fun done => ?_, fun result found => ?_⟩
  · have same : { n with result := none } = n := by rw [← show n.result = none from done]
    change Holds (some r) { n with result := none }
    rw [same]
    exact h
  · obtain ⟨r', eq, reports⟩ := h.result result found
    cases eq
    refine ⟨reports, holds_of_idle h.words h.short rfl ?_⟩
    refine Option.eq_none_iff_forall_ne_some.2 fun task waiting => ?_
    cases (h.waiting task waiting).1.symm.trans found

theorem finds_expire : Worker.Finds Holds expire := by
  intro r n h
  cases waiting : n.waiting with
  | none =>
    have polled : n.expire = n.poll := by rw [expire, waiting]
    rw [polled]
    exact finds_poll r n h
  | some task =>
    obtain ⟨done, -, r', eq, placed⟩ := h.waiting task waiting
    cases eq
    have expired : n.expire =
        (some (.error n.transfer.timedOut), close { n with waiting := none }) := by
      rw [expire, waiting]
    rw [expired]
    refine ⟨fun waits => (by cases waits), fun result found => ?_⟩
    cases found
    have alone : Holds none { n with waiting := none } := holds_of_idle h.words h.short done rfl
    exact ⟨.of_brief_error placed (FileTransfer.Words.brief_timedOut h.words), alone.close⟩

theorem works : Worker.Works worker dialled Holds where
  start _ r h := holds_start h r
  abort _ _ _ h := h.abort
  occurs _ _ arriving h := h.dialled arriving
  poll := finds_poll
  expire := finds_expire

end NodeWorker

/-! ## From the first request on -/

namespace Session

variable {service : NodeService} {net : Network}

theorem brief_openChannel (words : service.settings.Words) {start : Nat} {channel : DataChannel}
    {e : TransferError} (h : service.openChannel net start channel = .error e) : e.Brief := by
  cases channel with
  | active address => cases h
  | passive =>
    unfold NodeService.openChannel at h
    dsimp only at h
    cases bound : PassiveConnection.bind service.bindIp service.ports service.settings start
      net with
    | error e' =>
      rw [bound] at h
      cases h
      exact PassiveConnection.brief_bindFrom words bound
    | ok found =>
      rw [bound] at h
      cases h

theorem settings_openChannel {start : Nat} {channel : DataChannel} {connection : DataConnection}
    {net' : Network} (h : service.openChannel net start channel = .ok (connection, net')) :
    connection.settings = service.settings ∧ net'.breaks = net.breaks := by
  cases channel with
  | active address =>
    cases h
    exact ⟨rfl, rfl⟩
  | passive =>
    unfold NodeService.openChannel at h
    dsimp only at h
    cases bound : PassiveConnection.bind service.bindIp service.ports service.settings start
      net with
    | error e =>
      rw [bound] at h
      cases h
    | ok found =>
      rw [bound] at h
      cases h
      exact PassiveConnection.settings_bindFrom bound

theorem receive_fresh (words : service.settings.Words)
    (short : ∀ i, net.breaks = some i → i.error.Brief) (storage : Storage) (first : RequestFrame) :
    let opened := receive service (.fresh storage net) first
    (∀ reply ∈ opened.2, Wire.answers.Fits reply) ∧
      ∀ server, opened.1 = .serving server → NodeWorker.Holds none server.worker := by
  obtain ⟨id, request⟩ := first
  have refused (r : Response) (fits : Wire.answers.Fits ⟨id, r⟩) :
      let opened : Session × List ResponseFrame := (.over storage (.ok ()), [⟨id, r⟩])
      (∀ reply ∈ opened.2, Wire.answers.Fits reply) ∧
        ∀ server, opened.1 = .serving server → NodeWorker.Holds none server.worker := by
    refine ⟨fun reply mem => ?_, fun server eq => by cases eq⟩
    rw [List.mem_singleton.1 mem]
    exact fits
  have unopened : Wire.answers.Fits ⟨id, notOpen⟩ :=
    Response.fits_error_of_length id _ (by decide)
  cases request with
  | openChannel channel =>
    unfold receive
    dsimp only
    split
    · rename_i e failed
      exact refused _ (Response.fits_of_brief id (brief_openChannel words failed))
    · rename_i connection net' found
      obtain ⟨same, still⟩ := settings_openChannel found
      refine ⟨fun reply mem => ?_, fun server eq => ?_⟩
      · rw [List.mem_singleton.1 mem]
        exact Response.fits_localPort id _
      · cases eq
        refine NodeWorker.holds_of_idle ?_ ?_ rfl rfl
        · change connection.settings.Words
          rw [same]
          exact words
        · rw [← still] at short
          exact short
  | _ => exact refused notOpen unopened

end Session

/-- Whatever the first request, it is answered with few bytes.  In the session that it opens,
whatever the stream and whatever befalls its transfers, a request that names something in the wrong
place is worked on, and the answer repeats that, with up to 14 bytes more than the request had.  The
session breaks exactly when such a request is not worked on any more and its answer would have been
too long, and it breaks over nothing but that. -/
theorem broken_iff_misplaces (service : NodeService)
    (words : service.settings.Words) (storage : Storage) (net : Network)
    (short : ∀ i, net.breaks = some i → i.error.Brief) (first : RequestFrame) :
    let opened := Session.receive service (.fresh storage net) first
    (∀ reply ∈ opened.2, Wire.answers.Fits reply) ∧
    (∀ server, opened.1 = .serving server → ∀ stream acts,
      let s := (Station.start server.worker stream).act NodeWorker.worker NodeWorker.dialled acts
      (s.Broken ↔ s.server.running = none ∧ ∃ p, s.Misplaces p ∧ Wire.limit < 47 + Wire.size p) ∧
      (s.Broken → ∃ p, s.Misplaces p ∧ s.server.ended = some (.error (.messageTooLarge
        (min (47 + Wire.size p) (Word.bound32 - 1)) Wire.limit)))) ∧
    ∀ (f : RequestFrame) p, f.request.misplaced = some p →
      47 + Wire.size p ≤ (Wire.putRequestFrame f).length + 14 := by
  intro opened
  obtain ⟨fits, idle⟩ := Session.receive_fresh words short storage first
  refine ⟨fits, fun server eq stream acts => ?_, fun f p named => ?_⟩
  · have fate := (Station.fate_start (idle server eq) stream).act NodeWorker.works acts
    exact ⟨fate.broken_iff, fate.ended_of_broken⟩
  · exact Request.length_of_misplaced named f.id

/-! ## A path that almost fills a request -/

def quietService : NodeService := ⟨.localhost, .any, {}⟩

def quietNetwork : Network := { reach := .loopback }

def climbing : String := "../" ++ String.ofList (List.replicate 1048540 'x')

theorem size_climbing : Wire.size climbing = 1048543 := by
  have front : Wire.size "../" = 3 := by decide
  have name : 'x'.utf8Size = 1 := by decide
  rw [climbing, Wire.size_append, front, Wire.size_replicate, name]

theorem Location.climbs (s : String) : ".." ∈ names ("../" ++ s) := by
  have whole : ("../" ++ s).toList = ['.', '.'] ++ '/' :: s.toList := String.toList_append
  have up : ['.', '.'] ∈ Text.pieces '/' ("../" ++ s).toList := by
    rw [whole, Text.pieces_append_sep (by decide)]
    exact List.mem_cons_self
  exact List.mem_map.2 ⟨['.', '.'], List.mem_filter.2 ⟨up, by decide⟩, rfl⟩

theorem climbing_climbs : ".." ∈ Location.names climbing := by
  rw [climbing]
  exact Location.climbs _

theorem Request.misplaced_of_climbs {path : String} (climbs : ".." ∈ Location.names path)
    (mode : TransferMode) (resume : UInt64) (want : Bool) :
    (sendFile path mode resume want).misplaced = some path := if_pos climbs

section

variable {σ : Type}

theorem Station.settle_eq (w : Worker σ) (s : Station σ)
    (look : σ → Option (Except TransferError TransferStatus) × σ) :
    s.settle w look = { s with
      server := (s.server.settle w look).1
      written := (s.settle w look).written } := rfl

theorem Station.step_settle (w : Worker σ) {s : Station σ} (stands : s.server.ended = none)
    (look : σ → Option (Except TransferError TransferStatus) × σ) :
    s.step w (.settle look) = s.settle w look := if_neg (by simp [stands])

theorem Station.first_taken (w : Worker σ) (worker : σ) {f : RequestFrame}
    (fits : Wire.requests.Fits f) (same : f.request.zoneless = f.request)
    (moves : Server.Moves f.request) :
    (start worker (Wire.requests.packed f)).run w [.read, .pass, .take] =
      { server := { worker := w.start worker f.request, running := some f.id }
        unread := [], taken := [f], begun := [0] } := by
  have framed : Wire.frame (Wire.putRequestFrame f) = .ok (Wire.requests.packed f) :=
    Wire.Kind.frame_of_fits fits
  have first := Wire.readFrame_of_frame framed
  rw [same] at first
  have read : (start worker (Wire.requests.packed f)).read =
      { start worker [] with hand := some f } := by
    unfold Station.read start
    dsimp only
    rw [first]
  have taken : (({ start worker [] with queue := [f] } : Station σ).take w) =
      { server := { worker := w.start worker f.request, running := some f.id }
        unread := [], taken := [f], begun := [0] } := by
    unfold Station.take start
    dsimp only
    rw [Server.handle_of_moves moves rfl, if_pos (Server.starts_of_idle moves rfl)]
    rfl
  have begins (u : Station σ) (stands : u.server.ended = none) :
      u.run w [.read, .pass, .take] = u.read.run w [.pass, .take] := by
    have step : u.step w .read = u.read := if_neg (by simp [stands])
    exact congrArg (run w · [.pass, .take]) step
  rw [begins _ rfl, read]
  exact taken

end

theorem NodeWorker.first_looked_at (n : NodeWorker) {f : RequestFrame}
    (fits : Wire.requests.Fits f) (same : f.request.zoneless = f.request)
    (moves : Server.Moves f.request) {result : Except TransferError TransferStatus}
    (done : (n.start f.request).result = some result) :
    let s := (Station.start n (Wire.requests.packed f)).act worker dialled
      [.read, .pass, .take, .poll]
    s.closed = false ∧ s.begun = [0] ∧ s.taken = [f] ∧ s.server.Silent := by
  intro s
  have steps (u : Station NodeWorker) : u.act worker dialled [.read, .pass, .take, .poll] =
      (u.run worker [.read, .pass, .take]).step worker (.settle worker.poll) := rfl
  have eq : s = _ := steps _
  rw [Station.first_taken worker n fits same moves, Station.step_settle worker rfl,
    Station.settle_eq] at eq
  have polled : worker.poll (n.start f.request) =
      (some result, { n.start f.request with result := none }) := by
    rw [poll_eq, done]
  obtain ⟨silent, -, -⟩ := Server.settle_of_some (w := worker)
    (s := { worker := n.start f.request, running := some f.id }) rfl rfl polled
  rw [eq]
  exact ⟨rfl, rfl, rfl, silent⟩

theorem NodeWorker.start_of_climbs (n : NodeWorker) {path : String}
    (climbs : ".." ∈ Location.names path) (mode : TransferMode) (resume : UInt64) (want : Bool) :
    (n.start (.sendFile path mode resume want)).result = some (.error (.invalidPath path)) := by
  have reports := FileTransfer.reports_prepareSend n.storage path mode resume want
  unfold Request.Reports at reports
  rw [Request.misplaced_of_climbs climbs] at reports
  unfold start
  dsimp only
  rw [reports]

theorem broken_climbing :
    ∃ n, Session.receive quietService (.fresh .empty quietNetwork) ⟨1, .openChannel .passive⟩ =
        (.serving { worker := n }, [⟨1, .localPort (some 32768)⟩]) ∧
      let f : RequestFrame := ⟨2, .sendFile climbing .binary 0 true⟩
      Wire.requests.Fits f ∧
      let s := (Station.start n (Wire.requests.packed f)).act NodeWorker.worker
        NodeWorker.dialled [.read, .pass, .take, .poll]
      s.Broken ∧ s.server.ended = some (.error (.messageTooLarge 1048590 1048576)) := by
  have words : quietService.settings.Words :=
    ⟨by decide, fun n buffer => by rcases buffer with buffer | buffer <;> cases buffer⟩
  obtain ⟨n, opened⟩ : ∃ n, Session.receive quietService (.fresh .empty quietNetwork)
      ⟨1, .openChannel .passive⟩ = (.serving { worker := n }, [⟨1, .localPort (some 32768)⟩]) :=
    ⟨_, rfl⟩
  obtain ⟨-, holds, -⟩ := broken_iff_misplaces quietService words .empty
    quietNetwork (fun i breaks => by cases breaks) ⟨1, .openChannel .passive⟩
  have fits : Wire.requests.Fits ⟨2, .sendFile climbing .binary 0 true⟩ := by
    change (Wire.putRequestFrame _).length ≤ 1048576
    rw [Wire.length_sendFile, size_climbing]
  have started := n.start_of_climbs climbing_climbs .binary 0 true
  have named := Request.misplaced_of_climbs climbing_climbs .binary 0 true
  have size := size_climbing
  generalize climbing = path at fits started named size ⊢
  refine ⟨n, opened, fits, ?_⟩
  have looked := n.first_looked_at fits rfl trivial started
  have breaks := holds { worker := n } (congrArg Prod.fst opened)
    (Wire.requests.packed ⟨2, .sendFile path .binary 0 true⟩) [.read, .pass, .take, .poll]
  dsimp only at looked breaks ⊢
  generalize Station.act _ _ _ _ = s at looked breaks ⊢
  obtain ⟨going, begun, taken, silent⟩ := looked
  obtain ⟨broken_iff, ended_of_broken⟩ := breaks
  have broken : s.Broken := by
    rcases silent with idle | ended
    · have misplaces : s.Misplaces path :=
        ⟨0, by rw [begun]; exact List.mem_cons_self, _, by rw [taken]; rfl, named⟩
      exact broken_iff.2 ⟨idle, path, misplaces, by rw [size]; decide⟩
    · exact ⟨ended, going⟩
  refine ⟨broken, ?_⟩
  obtain ⟨p, ⟨k, mem, g, hget, wrong⟩, ended⟩ := ended_of_broken broken
  rw [begun, List.mem_singleton] at mem
  rw [mem, taken] at hget
  rw [← Option.some.inj hget, named] at wrong
  have total : min (47 + 1048543) (Word.bound32 - 1) = 1048590 := by decide
  rw [ended, ← Option.some.inj wrong, size, total]
  rfl

end Archivist
