import Archivist.Service.Basic
set_option autoImplicit false

/-!
# Going on

A run goes on stage by stage until it has to wait for a job.  A job goes on when its manager lets it
in and when its runner is done.  `quiet` lets every task go on until none is ready.
-/

namespace Archivist.Service

def tell (s : Service) (id : RunId) (e : HandlerEvent) : Service :=
  match s.runs[id]? with
  | none => s
  | some run =>
    let (registry, handler) := run.handler.react s.world.registry e
    (s.setRegistry registry).setRun id { run with handler }

/-- Submits the jobs of a run; one that is not taken has failed. -/
def submitAll (s : Service) (e : Executor) (ids : List JobId) : Service :=
  ids.foldl (fun s id =>
    match s.jobs[id]? with
    | none => s
    | some j =>
      match s.submit id j e with
      | .ok s => s
      | .error e => s.setJob id (j.markFailed (.executor e.message)).1) s

def advanceWith (s : Service) (id : RunId) (run : Run) (p : Policy) : Service :=
  let asked := fun (e : Policy × HandlerEvent) => (s.setPolicy run.policy e.1).tell id e.2
  match run.handler.stage with
  | .start => asked (Handler.select p s.world)
  | .directorySelected => s.tell id (.register s.world.clock.now)
  | .registered => asked (Handler.resolve p s.world)
  | .destinationsResolved =>
    match Handler.jobs p s.world with
    | (policy, .submitted, js) =>
      let (s, ids) := (s.setPolicy run.policy policy).addJobs js
      ((s.setRun id { run with jobs := ids }).submitAll run.executor ids).tell id .submitted
    | (policy, event, _) => asked (policy, event)
  | .jobsSubmitted => s.tell id .wait
  | .waiting => if (s.awaited run).isNone then s.tell id .jobsEnded else s
  | .cleanup =>
    let (policy, world, event) :=
      Handler.conclude p s.world (run.jobs.filterMap fun j => s.jobs[j]?)
    ({ s with world }.setPolicy run.policy policy).tell id event
  | .done => s

/-- Takes a run one stage further; one whose end is known lets its directory go and then publishes
its outcome. -/
def advance (s : Service) (id : RunId) : Service :=
  match s.runs[id]? with
  | none => s
  | some run =>
    if run.handler.ending.isSome then
      s.tell id (if run.handler.slot.isSome then .letGo else .publish)
    else
      match s.policies[run.policy]? with
      | some p => s.advanceWith id run p
      | none => s

def stages : Nat := 10

def goOn (s : Service) (id : RunId) : Service :=
  match s.runs[id]? with
  | none => s
  | some run =>
    let s := if run.cancelRequested && !run.isOver then s.tell id .cancelled else s
    (List.range stages).foldl (fun s _ => s.advance id) s

def act (s : Service) (j : Job) (a : Act) : Service × RunResult :=
  let away := fun (f : Fleet) (name : String) =>
    match f.find? name with
    | some m => f.update m.id fun n => { n with online := false }
    | none => f
  let s := s.setFleet (a.offline.foldl away s.world.fleet)
  let s := match a.moved with
    | none => s
    | some (source, target) =>
      let (now, clock) := s.world.clock.read
      let s := { s with world := { s.world with clock } }
      match s.world.namespace_.rename now source target with
      | .ok ns => s.setNamespace ns
      | .error _ => s
  match a.panics, a.result with
  | some text, _ => (s, .panicked text)
  | none, some result => (s, .ofCopy result)
  | none, none => (s, .moved (assumed j))

def actFor (table : List (String × Act)) (path node : String) : Act :=
  (((table.lookup s!"{path}@{node}").or (table.lookup path)).or (table.lookup "*")).getD {}

def work (s : Service) (j : Job) : Runner → Service × RunResult
  | .scripted table => s.act j (actFor table j.file.path (s.nodeOf j).name)
  | .remote settings =>
    let (site, result) := RemoteCopy.run s.site s.world.fleet settings j
    ({ s with site }, .ofCopy result)

def manage (s : Service) (m : ManagerId) (id : JobId) (e : ManagerEvent) : Service :=
  match s.managers[m]?, s.jobs[id]? with
  | some (manager, runner), some j =>
    let effect := manager.react id j (s.nodeOf j) s.world.namespace_ e
    let s := { s with managers := s.managers.set m (effect.manager, runner) }
    let s := (s.setNamespace effect.ns).setJob id effect.job
    match effect.admitted with
    | some other => s.wake (.job m other)
    | none => s
  | _, _ => s

def phase? (s : Service) (m : ManagerId) (id : JobId) : Option Phase :=
  (s.managers[m]?).bind fun e => e.1.phase? id

def launch (s : Service) (m : ManagerId) (id : JobId) : Service :=
  match s.phase? m id with
  | some .admitted =>
    let s := s.manage m id .start
    match s.phase? m id with
    | some .running => s.wake (.runner m id)
    | _ => s
  | _ => s

def turn (s : Service) : Task → Service
  | .run r => s.goOn r
  | .job m j =>
    match s.phase? m j with
    | some (.ran _) => s.manage m j .settle
    | _ => (s.manage m j .ask).launch m j
  | .runner m j =>
    match s.managers[m]?, s.jobs[j]? with
    | some (_, runner), some job =>
      let (s, result) := s.work job runner
      (s.manage m j (.ran result)).wake (.job m j)
    | _, _ => s

def quietWith : Nat → Service → Service
  | 0, s => s
  | fuel + 1, s =>
    match s.tasks with
    | [] => s
    | t :: rest => quietWith fuel ({ s with tasks := rest }.turn t)

/-- More turns than all tasks can take: each run makes at most one job for each file and each of its
nodes, a job takes four turns and changes its status twice. -/
def turns (s : Service) : Nat :=
  let files := s.world.namespace_.dirs.foldl (fun n e => n + e.2.files.length) 0
  let fixed := s.policies.foldl (fun n p => n + (p.destinations.getD []).length) 0
  let nodes := s.world.fleet.joined.length + fixed
  let jobs := s.jobs.length + s.runs.length * files * nodes
  s.tasks.length + 2 * s.runs.length + jobs * (4 + 2 * s.runs.length) + 1

def quiet (s : Service) : Service := quietWith s.turns s

def spawn (s : Service) (p : PolicyId) (e : Executor) : Service × RunId :=
  let id := s.runs.length
  let name := ((s.policies[p]?).map (·.section_.name)).getD ""
  let handler : Handler := { owner := .run id, sectionName := name }
  let run : Run := { handler, policy := p, executor := e }
  ({ s with runs := s.runs ++ [run] }.wake (.run id), id)

def cancel (s : Service) (id : RunId) : Service :=
  match s.runs[id]? with
  | none => s
  | some run =>
    if run.isOver then s else (s.setRun id { run with cancelRequested := true }).wake (.run id)

/-- What a run that is started again comes to: a handler runs once. -/
def runAgain (s : Service) (id : RunId) : Option Outcome :=
  (s.runs[id]?).map fun _ => .failed none .alreadyRan

def cycle (s : Service) (ps : List PolicyId) (e : Executor) :
    Service × List (String × Option Outcome) :=
  let (s, ids) := ps.foldl (fun (s, ids) p =>
    let (s, id) := s.spawn p e
    (s, ids ++ [id])) (s, ([] : List RunId))
  let s := s.quiet
  (s, (ids.filterMap fun id => s.runs[id]?).map fun r => (r.handler.sectionName, r.handler.outcome))

end Archivist.Service
