import Archivist.Proofs.Copy.Ends
import Archivist.Proofs.Lookup
set_option autoImplicit false

namespace Archivist

namespace Site

/-- The bytes of the file that the node at an address has at a path below its storage root. -/
def file? (s : Site) (a : SocketAddress) (path : String) : Option (List UInt8) :=
  match s.storage? a, Location.resolve path with
  | some storage, .ok l =>
    match storage.openItem l with
    | .ok (.file content) => some content
    | _ => none
  | _, _ => none

variable {s : Site} {a b : SocketAddress}

theorem file?_of_holds {path : String} {l : Location} (place : Location.resolve path = .ok l)
    {storage : Storage} (node : s.storage? a = some storage) {content : List UInt8}
    (h : storage.Holds l content) : s.file? a path = some content := by
  have opened : storage.openItem l = .ok (.file content) := by
    rw [Storage.openItem, h]
    rfl
  rw [file?, node, place]
  dsimp only
  rw [opened]

theorem storage?_eq_some {storage : Storage} (h : s.storage? a = some storage) :
    ∃ service taken fate, s.host a = .node service storage taken fate := by
  unfold storage? at h
  split at h
  · rename_i service stored taken fate found
    rw [Option.some.inj h] at found
    exact ⟨service, taken, fate, found⟩
  · cases h

theorem storage?_setStorage (s : Site) (a b : SocketAddress) (storage : Storage) :
    (s.setStorage a storage).storage? b =
      if b = a then (s.storage? a).map fun _ => storage else s.storage? b := by
  unfold storage? host setStorage
  dsimp only
  rw [Lookup.lookup_map]
  · by_cases same : b = a
    · subst same
      rw [if_pos rfl]
      cases s.hosts.lookup b with
      | none => rfl
      | some h => cases h <;> simp
    · rw [if_neg same]
      cases s.hosts.lookup b with
      | none => rfl
      | some h => cases h <;> simp [same]
  · rintro ⟨c, h⟩
    cases h <;> rfl

end Site

namespace RemoteCopy

theorem connect_eq_ok {site : Site} {settings : TransferSettings} {n : Node} {c : Line}
    (h : connect site settings n = .ok c) {a : SocketAddress} (address : n.address = some a)
    {storage : Storage} (node : site.storage? a = some storage) :
    ∃ service, Connected c service storage := by
  obtain ⟨service, taken, fate, found⟩ := Site.storage?_eq_some node
  unfold connect at h
  rw [address] at h
  dsimp only at h
  split at h
  · cases h
  · split at h
    · cases h
    · rw [found] at h
      cases h
      exact ⟨service, ⟨_, _, rfl⟩, rfl, rfl⟩

theorem move_eq_ok {receiver sender receiver' : Line} {stored source : Storage}
    {passive : PassiveConnection} {active : ActiveConnection}
    (listens : Ready receiver stored (.passive passive))
    (dials : Ready sender source (.active active)) {channel : Channel} {job : Job}
    {status : TransferStatus}
    (h : move channel receiver sender job = (receiver', .ok status)) :
    ∃ location content stored', Location.resolve job.file.path = .ok location ∧
      source.Holds location content ∧ receiver'.peer.storage? = some stored' ∧
      stored'.Holds location content := by
  unfold move at h
  cases begun : receiver.begin HostSession.peer
      (.receiveFile job.file.directory.text .binary job.file.name 0) with
  | mk waiting r =>
    rw [begun] at h
    cases r with
    | error e => cases h
    | ok pending =>
      dsimp only at h
      generalize learned : ({ sender with peer := sender.peer.learn waiting.peer.listening } :
        Line) = knowing at h
      -- what the sender learns of the receiver's ports does not change how it stands
      have ready : Ready knowing source (.active active) := by
        obtain ⟨service, network, ds, node⟩ := dials.node
        rw [← learned]
        refine ⟨⟨service, { network with listening := waiting.peer.listening }, ds, ?_⟩,
          dials.nothing, dials.new⟩
        rw [node]
        rfl
      cases transferred : knowing.transfer HostSession.peer
          (.sendFile job.file.path .binary 0 true) with
      | mk done sent =>
        rw [transferred] at h
        dsimp only at h
        cases told : settled done sent with
        | error e =>
          rw [told] at h
          cases congrArg Prod.snd h
        | ok st =>
          rw [settled_eq_ok told] at transferred
          obtain ⟨location, content, place, held, out⟩ := ready.sent transferred
          rw [told, out] at h
          dsimp only at h
          generalize pieces : channel.deliver (Except.isOk (.ok st : Except ArchiveError _)) content =
            arriving at h
          have through : arriving.flatten = content := by
            rw [← pieces]
            exact channel.complete content
          cases ended : Conversation.finish HostSession.peer
              { waiting with peer := waiting.peer.dialled arriving } pending with
          | mk last received =>
            rw [ended] at h
            have same : last = receiver' := congrArg Prod.fst h
            have counted := congrArg Prod.snd h
            dsimp only at counted
            cases confirmed : settled last received with
            | error e =>
              rw [confirmed] at counted
              cases counted
            | ok st' =>
              rw [settled_eq_ok confirmed] at ended
              obtain ⟨parent, stored', name, plain, resolved, kept, whole⟩ :=
                listens.received begun ended
              have path := FileEntry.resolve_path name plain resolved
              rw [place] at path
              rw [through, ← Except.ok.inj path] at whole
              rw [same] at kept
              exact ⟨location, content, stored', place, held, kept, whole⟩

theorem run_steps {site site' : Site} {fleet : Fleet} {settings : TransferSettings} {job : Job}
    {status : TransferStatus} (h : run site fleet settings job = (site', .ok status)) :
    ∃ destination source a, fleet.node? job.destination = some destination ∧
      sourceFor fleet job destination.name = .ok source ∧ destination.address = some a ∧
      ∃ receiver receiver₁ port sender sender₁ other receiver₂,
        connect site settings destination = .ok receiver ∧
        openChannel receiver .passive = (receiver₁, .ok (some port)) ∧
        connect site settings source = .ok sender ∧
        openChannel sender (.active (.ofIp a.ip port)) = (sender₁, .ok other) ∧
        move (site.channelTo a) receiver₁ sender₁ job = (receiver₂, .ok status) ∧
        site' = (receiver₂.peer.storage?).elim site (site.setStorage a) := by
  unfold run at h
  split at h
  · cases h
  · rename_i destination found
    split at h
    · cases h
    · rename_i source chosen
      split at h
      · cases h
      · rename_i receiver reached
        split at h
        · cases h
        · cases h
        · rename_i receiver₁ port opened
          split at h
          · cases h
          · rename_i a address
            split at h
            · cases h
            · rename_i sender met
              split at h
              · cases h
              · rename_i sender₁ other dialled
                cases moved : move (site.channelTo a) receiver₁ sender₁ job with
                | mk receiver₂ result =>
                  rw [moved] at h
                  have ok : result = .ok status := congrArg Prod.snd h
                  have left := congrArg Prod.fst h
                  dsimp only at left
                  refine ⟨destination, source, a, found, chosen, address, receiver, receiver₁, port,
                    sender, sender₁, other, receiver₂, reached, opened, met, dialled, ?_, ?_⟩
                  · rw [moved, ok]
                  · rw [← left]
                    cases receiver₂.peer.storage? <;> rfl

def ends (fleet : Fleet) (job : Job) : Option (SocketAddress × SocketAddress) := do
  let destination ← fleet.node? job.destination
  let source ← (sourceFor fleet job destination.name).toOption
  return (← destination.address, ← source.address)

theorem ends_eq_some {fleet : Fleet} {job : Job} {a b : SocketAddress}
    (h : ends fleet job = some (a, b)) :
    ∃ n, fleet.node? job.destination = some n ∧ n.address = some a := by
  unfold ends at h
  obtain ⟨n, node, h⟩ := Option.bind_eq_some_iff.1 h
  obtain ⟨source, -, h⟩ := Option.bind_eq_some_iff.1 h
  obtain ⟨x, address, h⟩ := Option.bind_eq_some_iff.1 h
  obtain ⟨y, -, h⟩ := Option.bind_eq_some_iff.1 h
  have same : x = a := congrArg Prod.fst (Option.some.inj h)
  exact ⟨n, node, same ▸ address⟩

/-- Storage nodes answer at the ends of a job's copy, and they are not one and the same. -/
def Apart (site : Site) (fleet : Fleet) (job : Job) : Prop :=
  ∀ a b, ends fleet job = some (a, b) →
    a ≠ b ∧ (site.storage? a).isSome = true ∧ (site.storage? b).isSome = true

theorem address_of_connect {site : Site} {settings : TransferSettings} {n : Node} {c : Line}
    (h : connect site settings n = .ok c) : ∃ a, n.address = some a := by
  unfold connect at h
  split at h
  · cases h
  · rename_i a address
    exact ⟨a, address⟩

/-- A copy that is reported as made has the bytes of the source, which has kept them. -/
theorem run_eq_ok {site site' : Site} {fleet : Fleet} {settings : TransferSettings} {job : Job}
    (apart : Apart site fleet job) {status : TransferStatus}
    (h : run site fleet settings job = (site', .ok status)) :
    ∃ a b content, ends fleet job = some (a, b) ∧
      site.file? b job.file.path = some content ∧ site'.file? b job.file.path = some content ∧
      site'.file? a job.file.path = some content := by
  obtain ⟨destination, source, a, found, chosen, address, receiver, receiver₁, port, sender,
    sender₁, other, receiver₂, reached, opened, met, dialled, moved, left⟩ := run_steps h
  obtain ⟨b, address'⟩ := address_of_connect met
  have both : ends fleet job = some (a, b) := by
    simp [ends, found, chosen, address, address', Except.toOption]
  obtain ⟨ne, nodeA, nodeB⟩ := apart a b both
  obtain ⟨stored, hstored⟩ := Option.isSome_iff_exists.1 nodeA
  obtain ⟨kept, hkept⟩ := Option.isSome_iff_exists.1 nodeB
  obtain ⟨service, fresh⟩ := connect_eq_ok reached address hstored
  obtain ⟨service', fresh'⟩ := connect_eq_ok met address' hkept
  obtain ⟨connection, ready, net, net', made⟩ := fresh.opened opened
  obtain ⟨connection', ready', net₁, net₁', made'⟩ := fresh'.opened dialled
  obtain ⟨passive, rfl⟩ := openChannel_passive made
  obtain ⟨active, rfl⟩ := openChannel_active made'
  obtain ⟨location, content, new, place, held, last, whole⟩ := move_eq_ok ready ready' moved
  rw [last] at left
  change site' = site.setStorage a new at left
  -- only the destination's storage is replaced, and the source is another node
  have atSource : site'.storage? b = some kept := by
    rw [left, Site.storage?_setStorage, if_neg ne.symm, hkept]
  have atDestination : site'.storage? a = some new := by
    rw [left, Site.storage?_setStorage, if_pos rfl, hstored]
    rfl
  exact ⟨a, b, content, both, Site.file?_of_holds place hkept held,
    Site.file?_of_holds place atSource held, Site.file?_of_holds place atDestination whole⟩

end RemoteCopy
end Archivist
