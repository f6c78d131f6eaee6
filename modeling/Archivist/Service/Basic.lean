import Archivist.Archive.Handler
import Archivist.Archive.Manager
import Archivist.Archive.RemoteCopy
set_option autoImplicit false

namespace Archivist

abbrev PolicyId := Nat

abbrev RunId := Nat

abbrev ManagerId := Nat

/-- What a scripted runner does with a job, in this order. -/
structure Act where
  offline : List String := []
  /-- A directory that is moved meanwhile. -/
  moved : Option (Dir × Dir) := none
  panics : Option String := none
  result : Option (Except ArchiveError TransferStatus) := none

inductive Runner where
  /-- Acts as a table says for `path@node`, `path` or `*`, whichever is listed first. -/
  | scripted (table : List (String × Act))
  | remote (settings : TransferSettings)

inductive Executor where
  /-- Takes every copy for made. -/
  | instant
  | rejecting
  | gated
  | managed (m : ManagerId)
deriving DecidableEq

inductive TaskEnd where
  | finished
  | panicked
  | cancelled
deriving DecidableEq

structure Run where
  handler : Handler
  policy : PolicyId
  executor : Executor
  jobs : List JobId := []
  cancelRequested : Bool := false

namespace Run

def isOver (r : Run) : Bool := r.handler.outcome.isSome

def ended (r : Run) : TaskEnd :=
  match r.handler.outcome with
  | some (.failed _ .panicked) => .panicked
  | some (.failed _ .cancelled) => .cancelled
  | _ => .finished

end Run

inductive Task where
  | run (r : RunId)
  | job (m : ManagerId) (j : JobId)
  | runner (m : ManagerId) (j : JobId)
deriving DecidableEq

structure Service where
  world : World
  site : Site
  policies : List Policy := []
  jobs : List Job := []
  managers : List (Manager × Runner) := []
  runs : List Run := []
  /-- The tasks that are ready, the first to go on first. -/
  tasks : List Task := []
  held : List JobId := []

namespace Service

def assumed (j : Job) : TransferStatus := ⟨1, UInt64.ofNat j.file.size, 0, true⟩

def nodeOf (s : Service) (j : Job) : Node :=
  (s.world.fleet.node? j.destination).getD ⟨"", 0, false, none⟩

def setNamespace (s : Service) (ns : Namespace) : Service :=
  { s with world := { s.world with namespace_ := ns } }

def setFleet (s : Service) (f : Fleet) : Service := { s with world := { s.world with fleet := f } }

def setRegistry (s : Service) (r : Registry) : Service :=
  { s with world := { s.world with registry := r } }

def setPolicy (s : Service) (p : PolicyId) (policy : Policy) : Service :=
  { s with policies := s.policies.set p policy }

def setRun (s : Service) (r : RunId) (run : Run) : Service := { s with runs := s.runs.set r run }

def wake (s : Service) (t : Task) : Service :=
  if t ∈ s.tasks then s else { s with tasks := s.tasks ++ [t] }

def isOpenJob (s : Service) (id : JobId) : Bool :=
  match s.jobs[id]? with
  | some j => !j.isDone
  | none => false

/-- The job that a run waits for: the first of its jobs that has not ended. -/
def awaited (s : Service) (r : Run) : Option JobId :=
  if r.handler.stage = .waiting then r.jobs.find? s.isOpenJob else none

def waitingFor (s : Service) (id : JobId) : List RunId :=
  (List.range s.runs.length).filter fun r => ((s.runs[r]?).bind s.awaited) = some id

/-- Changes a job; a change of its status wakes who waits for it. -/
def setJob (s : Service) (id : JobId) (j : Job) : Service :=
  let changed := (s.jobs[id]?).any fun old => !old.isDone && old.status ≠ j.status
  let woken := if changed then s.waitingFor id else []
  woken.foldl (fun s r => s.wake (.run r)) { s with jobs := s.jobs.set id j }

def addJob (s : Service) (j : Job) : Service × JobId :=
  ({ s with jobs := s.jobs ++ [j] }, s.jobs.length)

def addJobs (s : Service) (js : List Job) : Service × List JobId :=
  ({ s with jobs := s.jobs ++ js }, (List.range js.length).map (s.jobs.length + ·))

def addManager (s : Service) (maxJobs : Nat) (r : Runner) : Service × ManagerId :=
  ({ s with managers := s.managers ++ [({ maxJobs }, r)] }, s.managers.length)

def record (s : Service) (j : Job) : Except ArchiveError Service :=
  (s.world.namespace_.addReplica j.file.path (s.nodeOf j).name).map s.setNamespace

def submit (s : Service) (id : JobId) (j : Job) : Executor → Except ArchiveError Service
  | .instant => (s.record j).map fun s => s.setJob id (j.markDone (assumed j)).1
  | .rejecting => .error (.state .executorClosed)
  | .gated => .ok (({ s with held := s.held ++ [id] }).setJob id j.markTransferring.1)
  | .managed m =>
    match s.managers[m]? with
    | none => .error (.state .executorClosed)
    | some (manager, runner) =>
      .ok ({ s with managers := s.managers.set m (manager.submit id, runner) }.wake (.job m id))

/-- Hands a job to an executor where no tasks can be started. -/
def submitOutside (s : Service) (id : JobId) (j : Job) (e : Executor) :
    Except ArchiveError Service :=
  match e with
  | .managed _ => .error (.state .noRuntime)
  | e => s.submit id j e

/-- Lets the held jobs go: those of the named files fail, the others are taken for made. -/
def release (s : Service) (failing : List String) : Service :=
  s.held.foldl (fun s id =>
    match s.jobs[id]? with
    | none => s
    | some j =>
      if failing.contains j.file.path then s.setJob id (j.markFailed (.transport "gate")).1
      else
        match s.record j with
        | .ok s => s.setJob id (j.markDone (assumed j)).1
        | .error e => s.setJob id (j.markFailed (.executor e.message)).1) { s with held := [] }

/-- Gives a node of the fleet a host, or no address at all; whoever deals with the node as it was
goes on doing so. -/
def startNode (s : Service) (name : String) (host : Option Host) : Service :=
  let old := ((s.world.fleet.find? name).map (·.node)).getD { name, free := 0 }
  match host with
  | none => s.setFleet (s.world.fleet.add { old with address := none }).1
  | some h =>
    let a := s.site.freshAddress
    { s with site := s.site.add a h }.setFleet (s.world.fleet.add { old with address := some a }).1

end Service
end Archivist
