import Archivist.Proofs.Copy.Course
import Archivist.Proofs.Jobs.Failures
set_option autoImplicit false

/-!
# Whom a failed copy blames

A copy asks two nodes in turn, and each of its steps with one of them can fail
(`RemoteCopy.FailsAt`).  If the failure says that a node cannot be reached, the job names its
destination, also when it was the source that could not be reached.  Only if no source is found at
all it names other nodes, and then all holders of the file at once.
-/

namespace Archivist

inductive Side where
  | source
  | destination
deriving DecidableEq

namespace RemoteCopy

variable {site : Site} {fleet : Fleet} {settings : TransferSettings} {job : Job} {s d : Node}
  {who : Side} {e : ArchiveError} {channel : Channel} {receiver sender : Line}

/-- The receiving line once the bytes of the sending one have come through the channel. -/
def handOver (channel : Channel) (whole : Bool) (sender receiver : Line) : Line :=
  match sender.peer.sent with
  | some bytes => { receiver with peer := receiver.peer.dialled (channel.deliver whole bytes) }
  | none => receiver

def sendOver (sender receiver : Line) (job : Job) :
    Line × Option (Except TransferError TransferStatus) :=
  Conversation.transfer HostSession.peer
    { sender with peer := sender.peer.learn receiver.peer.listening }
    (.sendFile job.file.path .binary 0 true)

def askFor (receiver : Line) (job : Job) : Line × Except TransferError UInt64 :=
  receiver.begin HostSession.peer (.receiveFile job.file.directory.text .binary job.file.name 0)

/-- Of two open lines one fails while the file is moved. -/
inductive MoveFailsAt (channel : Channel) (receiver sender : Line) (job : Job) :
    Side → ArchiveError → Prop where
  | unasked {c : Line} {t : TransferError} (asked : askFor receiver job = (c, .error t)) :
      MoveFailsAt channel receiver sender job .destination (.transport t)
  | unsent {c b : Line} {id : UInt64} {r : Option (Except TransferError TransferStatus)}
      {e : ArchiveError} (asked : askFor receiver job = (c, .ok id))
      (sends : sendOver sender c job = (b, r)) (fails : settled b r = .error e) :
      MoveFailsAt channel receiver sender job .source e
  | unreceived {c b c' : Line} {id : UInt64}
      {r r' : Option (Except TransferError TransferStatus)} {t : TransferStatus}
      {e : ArchiveError} (asked : askFor receiver job = (c, .ok id))
      (sends : sendOver sender c job = (b, r)) (sent : settled b r = .ok t)
      (finished : Conversation.finish HostSession.peer (handOver channel true b c) id = (c', r'))
      (fails : settled c' r' = .error e) :
      MoveFailsAt channel receiver sender job .destination e

/-- A copy fails in a step with one of its nodes. -/
inductive FailsAt (site : Site) (settings : TransferSettings) (job : Job) (s d : Node) :
    Side → ArchiveError → Prop where
  | destinationAway {e : ArchiveError} (away : connect site settings d = .error e) :
      FailsAt site settings job s d .destination e
  | destinationShut {c c' : Line} {e : ArchiveError} (met : connect site settings d = .ok c)
      (shut : openChannel c .passive = (c', .error e)) :
      FailsAt site settings job s d .destination e
  | sourceAway {c c' : Line} {port : UInt16} {e : ArchiveError}
      (met : connect site settings d = .ok c)
      (opened : openChannel c .passive = (c', .ok (some port)))
      (away : connect site settings s = .error e) : FailsAt site settings job s d .source e
  | sourceShut {c c' b b' : Line} {port : UInt16} {a : SocketAddress} {e : ArchiveError}
      (met : connect site settings d = .ok c)
      (opened : openChannel c .passive = (c', .ok (some port))) (place : d.address = some a)
      (met' : connect site settings s = .ok b)
      (shut : openChannel b (.active (.ofIp a.ip port)) = (b', .error e)) :
      FailsAt site settings job s d .source e
  | moving {c c' b b' : Line} {port : UInt16} {other : Option UInt16} {a : SocketAddress}
      {who : Side} {e : ArchiveError} (met : connect site settings d = .ok c)
      (opened : openChannel c .passive = (c', .ok (some port))) (place : d.address = some a)
      (met' : connect site settings s = .ok b)
      (opened' : openChannel b (.active (.ofIp a.ip port)) = (b', .ok other))
      (fails : MoveFailsAt (site.channelTo a) c' b' job who e) :
      FailsAt site settings job s d who e

theorem move_of_unasked {c : Line} {t : TransferError}
    (asked : askFor receiver job = (c, .error t)) :
    (move channel receiver sender job).2 = .error (.transport t) := by
  rw [askFor] at asked
  unfold move
  rw [asked]

theorem move_of_unsent {c b : Line} {id : UInt64}
    {r : Option (Except TransferError TransferStatus)} (asked : askFor receiver job = (c, .ok id))
    (sends : sendOver sender c job = (b, r)) (fails : settled b r = .error e) :
    (move channel receiver sender job).2 = .error e := by
  rw [askFor] at asked
  rw [sendOver] at sends
  unfold move
  rw [asked]
  dsimp only
  rw [sends]
  dsimp only
  rw [fails]
  rfl

theorem move_of_sent {c b c' : Line} {id : UInt64}
    {r r' : Option (Except TransferError TransferStatus)} {t : TransferStatus}
    (asked : askFor receiver job = (c, .ok id)) (sends : sendOver sender c job = (b, r))
    (sent : settled b r = .ok t)
    (finished : Conversation.finish HostSession.peer (handOver channel true b c) id = (c', r')) :
    (move channel receiver sender job).2 =
      (settled c' r').bind fun received => compare job.file.path t received := by
  rw [askFor] at asked
  rw [sendOver] at sends
  unfold move
  rw [asked]
  dsimp only
  rw [sends]
  dsimp only
  rw [sent]
  dsimp only [Except.isOk, Except.toBool]
  change (settled (Conversation.finish _ (handOver channel true b c) id).1
    (Conversation.finish _ (handOver channel true b c) id).2).bind _ = _
  rw [finished]

theorem MoveFailsAt.move_eq (h : MoveFailsAt channel receiver sender job who e) :
    (move channel receiver sender job).2 = .error e := by
  cases h with
  | unasked asked => exact move_of_unasked asked
  | unsent asked sends fails => exact move_of_unsent asked sends fails
  | unreceived asked sends sent finished fails =>
    rw [move_of_sent asked sends sent finished, fails]
    rfl

theorem move_cases (channel : Channel) (receiver sender : Line) (job : Job) :
    (∃ who e, MoveFailsAt channel receiver sender job who e) ∨
      (∃ f, (move channel receiver sender job).2 = .error (.state f)) ∨
      ∃ t, (move channel receiver sender job).2 = .ok t := by
  cases asked : askFor receiver job with
  | mk c pending =>
    cases pending with
    | error t => exact .inl ⟨_, _, .unasked asked⟩
    | ok id =>
      cases sends : sendOver sender c job with
      | mk b r =>
        cases sent : settled b r with
        | error e => exact .inl ⟨_, _, .unsent asked sends sent⟩
        | ok t =>
          cases finished : Conversation.finish HostSession.peer (handOver channel true b c) id with
          | mk c' r' =>
            cases received : settled c' r' with
            | error e => exact .inl ⟨_, _, .unreceived asked sends sent finished received⟩
            | ok t' =>
              rw [move_of_sent asked sends sent finished, received]
              change _ ∨ (∃ f, compare job.file.path t t' = _) ∨ ∃ u, compare job.file.path t t' = _
              unfold compare
              split
              · exact .inr (.inr ⟨_, rfl⟩)
              · exact .inr (.inl ⟨_, rfl⟩)

theorem FailsAt.run_eq (found : fleet.node? job.destination = some d)
    (chosen : sourceFor fleet job d.name = .ok s) (h : FailsAt site settings job s d who e) :
    (run site fleet settings job).2 = .error e := by
  unfold run
  rw [found]
  dsimp only
  rw [chosen]
  dsimp only
  cases h with
  | destinationAway away => rw [away]
  | destinationShut met shut =>
    rw [met]
    dsimp only
    rw [shut]
  | sourceAway met opened away =>
    rw [met]
    dsimp only
    rw [opened]
    dsimp only
    obtain ⟨a, place⟩ := address_of_connect met
    rw [place]
    dsimp only
    rw [away]
  | sourceShut met opened place met' shut =>
    rw [met]
    dsimp only
    rw [opened]
    dsimp only
    rw [place]
    dsimp only
    rw [met']
    dsimp only
    rw [shut]
  | moving met opened place met' opened' fails =>
    rw [met]
    dsimp only
    rw [opened]
    dsimp only
    rw [place]
    dsimp only
    rw [met']
    dsimp only
    rw [opened']
    exact fails.move_eq

/-- A copy with two nodes fails in a step with one of them, or for what they have told, or it goes
well. -/
theorem run_cases (site : Site) (settings : TransferSettings)
    (found : fleet.node? job.destination = some d)
    (chosen : sourceFor fleet job d.name = .ok s) :
    (∃ who e, FailsAt site settings job s d who e) ∨
      (∃ f, (run site fleet settings job).2 = .error (.state f)) ∨
      ∃ t, (run site fleet settings job).2 = .ok t := by
  unfold run
  rw [found]
  dsimp only
  rw [chosen]
  dsimp only
  cases met : connect site settings d with
  | error e => exact .inl ⟨_, _, .destinationAway met⟩
  | ok c =>
    dsimp only
    cases opened : openChannel c .passive with
    | mk c' answer =>
      cases answer with
      | error e => exact .inl ⟨_, _, .destinationShut met opened⟩
      | ok listens =>
        cases listens with
        | none => exact .inr (.inl ⟨_, rfl⟩)
        | some port =>
          obtain ⟨a, place⟩ := address_of_connect met
          rw [place]
          dsimp only
          cases met' : connect site settings s with
          | error e => exact .inl ⟨_, _, .sourceAway met opened met'⟩
          | ok b =>
            dsimp only
            cases opened' : openChannel b (.active (.ofIp a.ip port)) with
            | mk b' answer =>
              cases answer with
              | error e => exact .inl ⟨_, _, .sourceShut met opened place met' opened'⟩
              | ok other =>
                rcases move_cases (site.channelTo a) c' b' job with
                  ⟨who, e, fails⟩ | told | moved
                · exact .inl ⟨_, _, .moving met opened place met' opened' fails⟩
                · exact .inr (.inl told)
                · exact .inr (.inr moved)

theorem sourceFor_eq_error (h : sourceFor fleet job d.name = .error e) :
    e = .nodeUnavailable (",".intercalate job.file.holders) := by
  unfold sourceFor at h
  dsimp only at h
  split at h
  · cases h
  · exact (Except.error.inj h).symm

theorem sourceFor_eq_ok (h : sourceFor fleet job d.name = .ok s) :
    s.name ∈ job.file.holders ∧ s.name ≠ d.name ∧ s.online = true ∧ s.address.isSome = true := by
  unfold sourceFor at h
  dsimp only at h
  split at h
  · rename_i m found
    obtain rfl := Except.ok.inj h
    have able := List.find?_some found
    rw [Bool.and_eq_true] at able
    obtain ⟨name, held, named⟩ := List.mem_filterMap.1 (List.mem_of_find?_eq_some found)
    rw [List.mem_filter, decide_eq_true_iff] at held
    have same : m.node.name = name := by simpa using List.find?_some named
    rw [same]
    exact ⟨held.1, held.2, able⟩
  · cases h

theorem settled_eq_error {α : Type} {c : Line} {r : Option (Except TransferError α)}
    (h : settled c r = .error e) : ∃ t, e = .transport t := by
  unfold settled at h
  split at h
  · cases h
  · exact ⟨_, (Except.error.inj h).symm⟩
  · exact ⟨_, (Except.error.inj h).symm⟩

theorem openChannel_eq_error {c c' : Line} {channel : DataChannel}
    (h : openChannel c channel = (c', .error e)) : (∃ t, e = .transport t) ∨ ∃ f, e = .state f := by
  unfold openChannel at h
  dsimp only at h
  have answer := congrArg Prod.snd h
  dsimp only at answer
  cases asked : settled (c.call HostSession.peer (.openChannel channel)).1
      (c.call HostSession.peer (.openChannel channel)).2 with
  | error e' =>
    rw [asked] at answer
    obtain rfl := Except.error.inj answer
    exact .inl (settled_eq_error asked)
  | ok response =>
    rw [asked] at answer
    cases response with
    | localPort port => cases answer
    | error kind message => exact .inl ⟨_, (Except.error.inj answer).symm⟩
    | _ => exact .inr ⟨_, (Except.error.inj answer).symm⟩

theorem connect_eq_error {n : Node} (h : connect site settings n = .error e) :
    n.address = none ∧ e = .nodeUnavailable n.name ∨ ∃ t, e = .transport t := by
  unfold connect at h
  split at h
  · rename_i missing
    exact .inl ⟨missing, (Except.error.inj h).symm⟩
  · refine .inr ?_
    split at h
    · exact ⟨_, (Except.error.inj h).symm⟩
    · split at h
      · exact ⟨_, (Except.error.inj h).symm⟩
      · split at h
        · exact ⟨_, (Except.error.inj h).symm⟩
        · exact ⟨_, (Except.error.inj h).symm⟩
        · cases h
        · cases h

theorem MoveFailsAt.transport (h : MoveFailsAt channel receiver sender job who e) :
    ∃ t, e = .transport t := by
  cases h with
  | unasked _ => exact ⟨_, rfl⟩
  | unsent _ _ fails => exact settled_eq_error fails
  | unreceived _ _ _ _ fails => exact settled_eq_error fails

theorem FailsAt.error_cases (address : s.address.isSome = true)
    (h : FailsAt site settings job s d who e) :
    e = .nodeUnavailable d.name ∨ (∃ t, e = .transport t) ∨ ∃ f, e = .state f := by
  cases h with
  | destinationAway away =>
    rcases connect_eq_error away with ⟨-, named⟩ | transport
    · exact .inl named
    · exact .inr (.inl transport)
  | destinationShut _ shut => exact .inr (openChannel_eq_error shut)
  | sourceAway _ _ away =>
    rcases connect_eq_error away with ⟨missing, -⟩ | transport
    · rw [missing] at address
      cases address
    · exact .inr (.inl transport)
  | sourceShut _ _ _ _ shut => exact .inr (openChannel_eq_error shut)
  | moving _ _ _ _ _ fails => exact .inr (.inl fails.transport)

/-- So a job names its destination, whichever node cannot be reached. -/
theorem FailsAt.failureFor_eq (address : s.address.isSome = true)
    (h : FailsAt site settings job s d who e) (away : e.isNodeUnavailable = true) :
    Job.failureFor d.name e = .nodeUnavailable d.name := by
  unfold Job.failureFor
  rw [if_pos away]
  rcases h.error_cases address with rfl | ⟨t, rfl⟩ | ⟨f, rfl⟩ <;> rfl

end RemoteCopy

namespace Job

variable {name node : String} {e : ArchiveError}

theorem isNodeUnavailable_of_failureFor (h : failureFor name e = .nodeUnavailable node) :
    e.isNodeUnavailable = true := by
  unfold failureFor at h
  split at h
  · assumption
  · cases h

theorem EndsBy.unavailable_iff {result : Except ArchiveError TransferStatus} {st : JobStatus}
    (h : EndsBy name (.ofCopy result) st) :
    st = .failed (.nodeUnavailable node) ↔
      ∃ e, result = .error e ∧ failureFor name e = .nodeUnavailable node := by
  cases result with
  | ok t => cases h <;> simp
  | error e => cases h with
    | failed _ => simp

end Job

def Side.of (s d : Node) : Side → Node
  | source => s
  | destination => d

open RemoteCopy in
/-- A job of a manager whose node was online at each of its steps, which has ended and was told how
a copy between two nodes had gone.  If a source was found for the copy, the job has failed for a node
that cannot be reached exactly if a step with one of the two nodes failed for that, and then it
names its destination.  So it names the node that failed exactly if this was not the source.  If no
source was found, the job names all holders of the file at once. -/
theorem nodeUnavailable_iff_failsAt (names : NodeId → String) (maxJobs : Nat)
    (ns : Namespace) (es : List CrewEvent) (id : JobId) (j : Job) (site : Site) (fleet : Fleet)
    (settings : TransferSettings) (d : Node)
    (hget : ((Crew.start maxJobs ns).run names es).jobs[id]? = some j)
    (online : ∀ here e, .act id here e ∈ es → here = true) (ended : j.isDone = true)
    (found : fleet.node? j.destination = some d) (named : names j.destination = d.name)
    (told : Crew.Met names (Crew.start maxJobs ns) es
      (Crew.Told id (.ofCopy (run site fleet settings j).2))) :
    (∀ s, sourceFor fleet j d.name = .ok s → s.name ≠ d.name ∧
      (∀ node, j.status = .failed (.nodeUnavailable node) ↔ node = d.name ∧
        ∃ who e, FailsAt site settings j s d who e ∧ e.isNodeUnavailable = true) ∧
      ((∀ node who e, j.status = .failed (.nodeUnavailable node) →
          FailsAt site settings j s d who e → node = (who.of s d).name) ↔
        ¬ ∃ e, FailsAt site settings j s d .source e ∧ e.isNodeUnavailable = true)) ∧
    ∀ e, sourceFor fleet j d.name = .error e →
      j.status = .failed (.nodeUnavailable (",".intercalate j.file.holders)) := by
  obtain ⟨r, once, ends⟩ := Crew.endsBy_of_ended online hget ended
  obtain rfl := (once _).1 told
  rw [named] at ends
  refine ⟨fun s chosen => ?_, fun e missing => ?_⟩
  · obtain ⟨-, other, -, address⟩ := sourceFor_eq_ok chosen
    have blames : ∀ node, j.status = .failed (.nodeUnavailable node) ↔ node = d.name ∧
        ∃ who e, FailsAt site settings j s d who e ∧ e.isNodeUnavailable = true := by
      intro node
      rw [ends.unavailable_iff]
      constructor
      · rintro ⟨e, failed, blamed⟩
        have away := Job.isNodeUnavailable_of_failureFor blamed
        rcases run_cases site settings found chosen with ⟨who, e', fails⟩ | ⟨f, told⟩ | ⟨t, moved⟩
        · obtain rfl := Except.error.inj ((fails.run_eq found chosen).symm.trans failed)
          rw [fails.failureFor_eq address away, JobFailure.nodeUnavailable.injEq] at blamed
          exact ⟨blamed.symm, who, _, fails, away⟩
        · obtain rfl := Except.error.inj (told.symm.trans failed)
          cases away
        · rw [moved] at failed
          cases failed
      · rintro ⟨rfl, who, e, fails, away⟩
        exact ⟨e, fails.run_eq found chosen, fails.failureFor_eq address away⟩
    refine ⟨other, blames, ?_⟩
    constructor
    · rintro right ⟨e, fails, away⟩
      exact other (right d.name .source e ((blames _).2 ⟨rfl, _, e, fails, away⟩) fails).symm
    · intro spared node who e failed fails
      obtain ⟨rfl, who', e', fails', away⟩ := (blames node).1 failed
      obtain rfl := Except.error.inj
        ((fails.run_eq found chosen).symm.trans (fails'.run_eq found chosen))
      cases who with
      | destination => rfl
      | source => exact absurd ⟨e, fails, away⟩ spared
  · rw [ends.unavailable_iff]
    refine ⟨e, ?_, by rw [sourceFor_eq_error missing]; rfl⟩
    unfold run
    rw [found]
    dsimp only
    rw [missing]

def deserted : Site where
  reach := .loopback
  hosts := [(secondNode, .node ⟨.localhost, .any, {}⟩ .empty)]

def refusal : ArchiveError := .transport (.connectionRefused "127.0.0.1:7100")

def lonelyNode : Node := { name := "n1", free := 0, address := some firstNode }

def answeringNode : Node := { name := "n2", free := 0, address := some secondNode }

def desertion : List CrewEvent :=
  [.submit outdatedJob.file 1 0, .act 0 true .ask, .act 0 true .start,
    .act 0 true (.ran (.failed refusal)), .act 0 true .settle]

def answeringLine : RemoteCopy.Line where
  client := { node := "n2" }
  peer := .node ⟨.localhost, .any, {}⟩ (.fresh .empty { reach := .loopback }) []

theorem deserted_at_source (j : Job) :
    RemoteCopy.FailsAt deserted {} j lonelyNode answeringNode .source refusal := by
  have met : RemoteCopy.connect deserted {} answeringNode = .ok answeringLine := rfl
  cases opened : RemoteCopy.openChannel answeringLine .passive with
  | mk c answer =>
    have port : (RemoteCopy.openChannel answeringLine .passive).2 = .ok (some 32768) := by
      decide +kernel
    rw [opened] at port
    have away : RemoteCopy.connect deserted {} lonelyNode = .error refusal := by
      rfl
    exact .sourceAway met (opened.trans (congrArg (Prod.mk c) port)) away

theorem nodeUnavailable_desertion :
    let c := (Crew.start 1 outdated.world.namespace_).run outdated.world.fleet.nameOf desertion
    ∃ j, c.jobs[0]? = some j ∧ j.status = .failed (.nodeUnavailable "n2") ∧
      RemoteCopy.sourceFor outdated.world.fleet j "n2" = .ok lonelyNode ∧
      RemoteCopy.FailsAt deserted {} j lonelyNode answeringNode .source refusal ∧
      ¬ ∀ node who e, j.status = .failed (.nodeUnavailable node) →
        RemoteCopy.FailsAt deserted {} j lonelyNode answeringNode who e →
        node = (who.of lonelyNode answeringNode).name := by
  intro c
  let j : Job := { outdatedJob with status := .failed (.nodeUnavailable "n2") }
  have hget : c.jobs[0]? = some j := rfl
  have chosen : RemoteCopy.sourceFor outdated.world.fleet j "n2" = .ok lonelyNode := rfl
  have fails := deserted_at_source j
  have found : outdated.world.fleet.node? j.destination = some answeringNode := rfl
  have told : Crew.Met outdated.world.fleet.nameOf (Crew.start 1 outdated.world.namespace_)
      desertion (Crew.Told 0 (.ofCopy (RemoteCopy.run deserted outdated.world.fleet {} j).2)) := by
    rw [fails.run_eq found chosen]
    exact ⟨desertion.take 3, _, [.act 0 true .settle], rfl, rfl, true, rfl⟩
  have online : ∀ here e, CrewEvent.act 0 here e ∈ desertion → here = true := by
    intro here e mem
    simp only [desertion, List.mem_cons, List.not_mem_nil, reduceCtorEq, CrewEvent.act.injEq,
      or_false, false_or] at mem
    rcases mem with ⟨-, here, -⟩ | ⟨-, here, -⟩ | ⟨-, here, -⟩ | ⟨-, here, -⟩ <;> exact here
  obtain ⟨blame, -⟩ := nodeUnavailable_iff_failsAt outdated.world.fleet.nameOf 1
    outdated.world.namespace_ desertion 0 j deserted outdated.world.fleet {} answeringNode hget
    online rfl found rfl told
  obtain ⟨-, names, right⟩ := blame lonelyNode chosen
  have failed := (names "n2").2 ⟨rfl, _, _, fails, rfl⟩
  exact ⟨j, hget, failed, chosen, fails, fun honest => right.1 honest ⟨_, fails, rfl⟩⟩

end Archivist
