import Archivist.Archive.Policy
set_option autoImplicit false

namespace Archivist

inductive Stage where
  | start
  | directorySelected
  | registered
  | destinationsResolved
  | jobsSubmitted
  | waiting
  | cleanup
  | done
deriving DecidableEq

def Stage.name : Stage → String
  | .start => "Start"
  | .directorySelected => "DirectorySelected"
  | .registered => "Registered"
  | .destinationsResolved => "DestinationsResolved"
  | .jobsSubmitted => "JobsSubmitted"
  | .waiting => "Waiting"
  | .cleanup => "Cleanup"
  | .done => "Done"

inductive RunFault where
  | error (e : ArchiveError)
  | panicked
  | cancelled
  | alreadyRan
deriving DecidableEq

def RunFault.message : RunFault → String
  | .error e => e.message
  | .panicked => "archive handler panicked"
  | .cancelled => "archive handler cancelled"
  | .alreadyRan => "archive handler already ran"

inductive Outcome where
  | noDirectory
  /-- Another handler works on the directory. -/
  | duplicate (d : Dir)
  /-- There are not enough nodes; the directory is left for a later run. -/
  | noDestination (d : Dir)
  | completed (r : Report)
  | failed (d : Option Dir) (f : RunFault)
deriving DecidableEq

structure Handler where
  owner : Owner
  sectionName : String
  stage : Stage := .start
  directory : Option Dir := none
  slot : Option Slot := none
  /-- How the run will end, as long as that is not published. -/
  ending : Option Outcome := none
  outcome : Option Outcome := none

inductive HandlerEvent where
  | selected (d : Dir)
  | nothingToDo
  | register (since : Instant)
  | resolved
  | noNodes
  | submitted
  | wait
  | jobsEnded
  | cleaned (r : Report)
  | failed (e : ArchiveError)
  | panicked
  | cancelled
  | letGo
  | publish

namespace Handler

def endWith (h : Handler) (o : Outcome) : Handler := { h with ending := some o }

def endFailed (h : Handler) (f : RunFault) : Handler := h.endWith (.failed h.directory f)

def register (r : Registry) (h : Handler) (d : Dir) (since : Instant) : Registry × Handler :=
  match r.add ⟨h.owner, h.sectionName, d, since⟩ with
  | .ok (r, slot) => (r, { h with slot := some slot, stage := .registered })
  | .error (.duplicate _) => (r, h.endWith (.duplicate d))
  | .error e => (r, h.endFailed (.error e))

def advance (r : Registry) (h : Handler) : HandlerEvent → Registry × Handler
  | .selected d =>
    if h.stage = .start then (r, { h with directory := some d, stage := .directorySelected })
    else (r, h)
  | .nothingToDo => if h.stage = .start then (r, h.endWith .noDirectory) else (r, h)
  | .register since =>
    match h.stage, h.directory with
    | .directorySelected, some d => register r h d since
    | _, _ => (r, h)
  | .resolved =>
    (r, if h.stage = .registered then { h with stage := .destinationsResolved } else h)
  | .noNodes =>
    match h.stage, h.directory with
    | .registered, some d => (r, h.endWith (.noDestination d))
    | _, _ => (r, h)
  | .submitted =>
    (r, if h.stage = .destinationsResolved then { h with stage := .jobsSubmitted } else h)
  | .wait => (r, if h.stage = .jobsSubmitted then { h with stage := .waiting } else h)
  | .jobsEnded => (r, if h.stage = .waiting then { h with stage := .cleanup } else h)
  | .cleaned report => (r, if h.stage = .cleanup then h.endWith (.completed report) else h)
  | .failed e => (r, h.endFailed (.error e))
  | .panicked => (r, h.endFailed .panicked)
  | .cancelled => (r, h.endFailed .cancelled)
  | .letGo | .publish => (r, h)

def react (r : Registry) (h : Handler) (e : HandlerEvent) : Registry × Handler :=
  match h.ending, e with
  | none, e => if h.stage = .done then (r, h) else h.advance r e
  | some _, .letGo =>
    match h.slot with
    | some s => (r.letGo s, { h with slot := none })
    | none => (r, h)
  | some o, .publish =>
    match h.slot with
    | some _ => (r, h)
    | none => (r, { h with stage := .done, ending := none, outcome := some o })
  | some _, _ => (r, h)

/-! ## What the policy brings about

Each of these asks the policy of a run for one thing and tells the run what has come of it.  A
failure of the policy takes its directory away; a panic leaves the policy as it is. -/

def dropped (p : Policy) (e : ArchiveError) : Policy × HandlerEvent :=
  (p.setDirectory none, .failed e)

def select (p : Policy) (w : World) : Policy × HandlerEvent :=
  match p.directory with
  | some d => (p, .selected d)
  | none =>
    match p.next w w.clock.now with
    | .ok (some d) => (p.setDirectory (some d), .selected d)
    | .ok none => (p, .nothingToDo)
    | .error e => dropped p e

def resolve (p : Policy) (w : World) : Policy × HandlerEvent :=
  if p.destinations.isSome then (p, .resolved)
  else
    match p.find w with
    | .panicked => (p, .panicked)
    | .error e => dropped p e
    | .answer none => (p.setDirectory none, .noNodes)
    | .answer (some nodes) =>
      match p.freeze (nodes.map (·.id)) with
      | .ok p => (p, .resolved)
      | .error e => dropped p e

def jobs (p : Policy) (w : World) : Policy × HandlerEvent × List Job :=
  match p.send w with
  | .ok jobs => (p, .submitted, jobs)
  | .error e => ((dropped p e).1, (dropped p e).2, [])

def conclude (p : Policy) (w : World) (jobs : List Job) : Policy × World × HandlerEvent :=
  match p.cleanup w jobs with
  | .ok (p, w, report) => (p, w, .cleaned report)
  | .error e => ((dropped p e).1, w, (dropped p e).2)

theorem react_of_done {r : Registry} {h : Handler} (he : h.ending = none) (hd : h.stage = .done)
    (e : HandlerEvent) : h.react r e = (r, h) := by
  simp [react, he, hd]

theorem react_of_open {r : Registry} {h : Handler} {e : HandlerEvent}
    (hopen : h.ending = none) (undone : h.stage ≠ .done) : h.react r e = h.advance r e := by
  unfold react
  rw [hopen]
  dsimp only
  rw [if_neg undone]

end Handler
end Archivist
