import Archivist.Proofs.Transfer.Stream
import Archivist.Proofs.Transfer.Wording
set_option autoImplicit false

namespace Archivist

structure SocketSettings.Words (s : SocketSettings) : Prop where
  timeout : s.timeoutMs < Word.bound64
  buffers : ∀ n, s.sendBuffer = some n ∨ s.receiveBuffer = some n → n < Word.bound64

theorem SocketSettings.check_eq_error {s : SocketSettings} {e : TransferError}
    (h : s.check = .error e) :
    ∃ n, (s.sendBuffer = some n ∨ s.receiveBuffer = some n) ∧ e = .io (.bufferSize n) := by
  obtain ⟨timeout, send, receive, keepAlive, noDelay⟩ := s
  unfold check at h
  -- The first buffer that is too large is named, and with none of them nothing fails.
  have named {n : Nat} (thrown : (throw (.io (.bufferSize n)) : Except TransferError Unit) =
      .error e) : e = .io (.bufferSize n) := (Except.error.inj thrown).symm
  have fine (nothing : (pure () : Except TransferError Unit) = .error e) : False := by
    cases nothing
  rcases send with _ | n
  · rcases receive with _ | m
    · cases h
    · by_cases large : m ≥ Word.bound32
      · exact ⟨m, .inr rfl, named (by simpa [large] using h)⟩
      · exact (fine (by simpa [large] using h)).elim
  · by_cases large : n ≥ Word.bound32
    · simp only [List.forIn_cons, large, if_true] at h
      exact ⟨n, .inl rfl, named h⟩
    · rcases receive with _ | m
      · exact (fine (by simpa [large] using h)).elim
      · by_cases larger : m ≥ Word.bound32
        · exact ⟨m, .inr rfl, named (by simpa [large, larger] using h)⟩
        · exact (fine (by simpa [large, larger] using h)).elim

theorem SocketSettings.Words.brief {s : SocketSettings} (words : s.Words) {e : TransferError}
    (h : s.check = .error e) : e.Brief := by
  obtain ⟨n, buffer, rfl⟩ := SocketSettings.check_eq_error h
  exact TransferError.brief_bufferSize (words.buffers n buffer)

variable {net : Network} {e : TransferError}

theorem Network.brief_dial {address : SocketAddress} (h : net.dial address = .error e) :
    e.Brief := by
  unfold dial at h
  split at h
  · cases h
    exact IoError.Fixed.brief trivial
  · split at h
    · cases h
    · cases h
      exact TransferError.brief_connectionRefused address

theorem ActiveConnection.brief_bindable {c : ActiveConnection} (h : c.bindable = .error e) :
    e.Brief := by
  unfold bindable at h
  split at h
  · cases h
  · cases h
    exact IoError.Fixed.brief trivial
  · cases h
    exact IoError.Fixed.brief trivial
  · split at h
    · cases h
    · cases h
      exact IoError.Fixed.brief trivial

theorem ActiveConnection.brief_dial {c c' : ActiveConnection} (words : c.settings.Words)
    (h : c.dial net = (c', .error e)) : e.Brief := by
  unfold dial at h
  split at h
  · cases h
    exact TransferError.brief_aborted
  · split at h
    · cases h
      exact TransferError.brief_alreadyConnected
    · have failed := congrArg Prod.snd h
      dsimp only at failed
      cases checked : c.settings.check with
      | error e' =>
        rw [checked] at failed
        cases failed
        exact words.brief checked
      | ok u =>
        rw [checked] at failed
        cases bound : c.bindable with
        | error e' =>
          rw [bound] at failed
          cases failed
          exact brief_bindable bound
        | ok u =>
          rw [bound] at failed
          exact Network.brief_dial failed

theorem ActiveConnection.settings_dial (c : ActiveConnection) (net : Network) :
    (c.dial net).1.settings = c.settings := by
  unfold dial
  split
  · rfl
  · split <;> rfl

theorem PassiveConnection.brief_accept {c c' : PassiveConnection}
    (h : c.accept = (c', .error e)) : e.Brief := by
  unfold accept at h
  split at h
  · cases h
    exact TransferError.brief_aborted
  · split at h
    · cases h
    · cases h
      exact TransferError.brief_alreadyConnected

theorem PassiveConnection.settings_accept (c : PassiveConnection) :
    c.accept.1.settings = c.settings := by
  unfold accept
  split
  · rfl
  · split <;> rfl

theorem Network.breaks_listen {port p : Nat} {net' : Network}
    (h : net.listen port = some (p, net')) : net'.breaks = net.breaks := by
  unfold listen at h
  split at h
  · cases h
    rfl
  · split at h
    · cases h
    · cases h
      rfl

namespace PassiveConnection

variable {ip : Ip} {range : PortRange} {settings : SocketSettings} {ports : List Nat}

theorem bindFrom_cons (ip : Ip) (range : PortRange) (settings : SocketSettings) (net : Network)
    (port : Nat) (ports : List Nat) :
    let bound := bindFrom ip range settings net (port :: ports)
    (∃ e, settings.check = .error e ∧ bound = .error e) ∨
      bound = .error (.io .addressNotAvailable) ∨
      bound = bindFrom ip range settings net ports ∨
      ∃ p net', net.listen port = some (p, net') ∧
        bound = .ok (⟨ip, p, settings, true, false⟩, net') := by
  intro bound
  have eq : bound = bindFrom ip range settings net (port :: ports) := rfl
  unfold bindFrom at eq
  cases checked : settings.check with
  | error e =>
    rw [checked] at eq
    exact .inl ⟨e, rfl, eq⟩
  | ok u =>
    rw [checked] at eq
    cases here : ip.isLocal with
    | false =>
      rw [here] at eq
      exact .inr (.inl eq)
    | true =>
      rw [here] at eq
      cases listens : net.listen port with
      | none =>
        rw [listens] at eq
        exact .inr (.inr (.inl eq))
      | some found =>
        rw [listens] at eq
        exact .inr (.inr (.inr ⟨found.1, found.2, rfl, eq⟩))

theorem brief_bindFrom (words : settings.Words)
    (h : bindFrom ip range settings net ports = .error e) : e.Brief := by
  induction ports with
  | nil =>
    cases h
    exact TransferError.brief_noPortAvailable range.first range.last
  | cons port ports ih =>
    rcases bindFrom_cons ip range settings net port ports with
      ⟨e', checked, failed⟩ | foreign | next | ⟨p, net', -, found⟩
    · cases failed.symm.trans h
      exact words.brief checked
    · cases foreign.symm.trans h
      exact IoError.Fixed.brief trivial
    · exact ih (next.symm.trans h)
    · cases found.symm.trans h

theorem settings_bindFrom {c : PassiveConnection} {net' : Network}
    (h : bindFrom ip range settings net ports = .ok (c, net')) :
    c.settings = settings ∧ net'.breaks = net.breaks := by
  induction ports with
  | nil => cases h
  | cons port ports ih =>
    rcases bindFrom_cons ip range settings net port ports with
      ⟨e', -, failed⟩ | foreign | next | ⟨p, found, listens, bound⟩
    · cases failed.symm.trans h
    · cases foreign.symm.trans h
    · exact ih (next.symm.trans h)
    · cases bound.symm.trans h
      exact ⟨rfl, Network.breaks_listen listens⟩

end PassiveConnection

namespace FileTransfer

variable {t t' : FileTransfer}

def Words (t : FileTransfer) : Prop := t.connection.settings.Words

theorem settings_attempt (t : FileTransfer) (net : Network) :
    (t.attempt net).1.connection.settings = t.connection.settings := by
  unfold attempt DataConnection.attempt
  cases connection : t.connection with
  | active c =>
    have same := c.settings_dial net
    dsimp only
    generalize c.dial net = out at same
    obtain ⟨c', _ | _⟩ := out <;> exact same
  | passive c =>
    have same := c.settings_accept
    dsimp only
    generalize c.accept = out at same
    obtain ⟨c', _ | _⟩ := out <;> exact same

theorem settings_abort (t : FileTransfer) :
    t.abort.connection.settings = t.connection.settings := by
  unfold abort
  cases t.connection <;> rfl

theorem Words.brief_attempt (words : t.Words) (h : t.attempt net = (t', .failed e)) : e.Brief := by
  unfold Words at words
  have failed := congrArg Prod.snd h
  unfold attempt DataConnection.attempt at failed
  cases connection : t.connection with
  | active c =>
    rw [connection] at words failed
    dsimp only at failed
    cases dialled : c.dial net with
    | mk c' result =>
      rw [dialled] at failed
      cases result with
      | ok u => cases failed
      | error e' =>
        cases failed
        exact ActiveConnection.brief_dial words dialled
  | passive c =>
    rw [connection] at failed
    dsimp only at failed
    cases accepted : c.accept with
    | mk c' result =>
      rw [accepted] at failed
      cases result with
      | ok u => cases failed
      | error e' =>
        cases failed
        exact PassiveConnection.brief_accept accepted

theorem Words.brief_timedOut (words : t.Words) : t.timedOut.Brief := by
  unfold Words at words
  unfold timedOut
  cases connection : t.connection with
  | active c =>
    rw [connection] at words
    exact TransferError.brief_connectionTimeout c.address words.timeout
  | passive c =>
    rw [connection] at words
    exact TransferError.brief_connectionTimeout c.address words.timeout

theorem brief_begin (h : t.begin = .error e) : e.Brief := by
  unfold begin at h
  split at h
  · cases h
    exact TransferError.brief_aborted
  · split at h
    · cases h
      exact TransferError.brief_alreadyConnected
    · cases h

end FileTransfer

end Archivist
