import Archivist.Archive.Job
set_option autoImplicit false

/-!
# The manager of jobs

A manager lets at most so many jobs run at once, at least one; the others wait in line in the order
in which they asked.  A job that is let in is checked for its node, run, checked again and entered
in the tree.  `react` is one step of one job, so any order of any jobs' steps can be put to it, and
nodes may come and go between them.
-/

namespace Archivist

abbrev JobId := Nat

inductive RunResult where
  | moved (s : TransferStatus)
  | failed (e : ArchiveError)
  /-- The runner has panicked, and its task is reported with this text. -/
  | panicked (text : String)

def RunResult.ofCopy : Except ArchiveError TransferStatus → RunResult
  | .ok s => .moved s
  | .error e => .failed e

namespace Job

def panicMessage (text : String) : String := s!"runner panicked: {text}"

def start (j : Job) (node : Node) : Job :=
  if node.online then j.markTransferring.1 else (j.markFailed (.nodeUnavailable node.name)).1

/-- A copy counts once the tree knows of it; its node must still be there. -/
def settle (j : Job) (node : Node) (ns : Namespace) : RunResult → Job × Namespace
  | .panicked text => ((j.markFailed (.executor (panicMessage text))).1, ns)
  | .moved s =>
    if !node.online then ((j.markFailed (.nodeUnavailable node.name)).1, ns)
    else
      match ns.addReplica j.file.path node.name with
      | .ok ns => ((j.markDone s).1, ns)
      | .error e => ((j.markFailed (.executor e.message)).1, ns)
  | .failed e =>
    if !node.online then ((j.markFailed (.nodeUnavailable node.name)).1, ns)
    else ((j.markFailed (failureFor node.name e)).1, ns)

end Job

inductive Phase where
  | submitted
  | waiting
  | admitted
  | running
  | ran (r : RunResult)
  | over

def Phase.executes : Phase → Bool
  | .admitted | .running | .ran _ => true
  | _ => false

def Phase.waits : Phase → Bool
  | .waiting => true
  | _ => false

structure Manager where
  maxJobs : Nat
  /-- The jobs; those that wait stand in the order in which they asked. -/
  jobs : List (JobId × Phase) := []

inductive ManagerEvent where
  | ask
  | start
  | ran (r : RunResult)
  | settle

namespace Manager

def limit (m : Manager) : Nat := max 1 m.maxJobs

def phase? (m : Manager) (id : JobId) : Option Phase := m.jobs.lookup id

def executing (m : Manager) : Nat := m.jobs.countP fun e => e.2.executes

def setPhase (m : Manager) (id : JobId) (p : Phase) : Manager :=
  { m with jobs := m.jobs.map fun e => if e.1 = id then (id, p) else e }

def submit (m : Manager) (id : JobId) : Manager :=
  { m with jobs := m.jobs ++ [(id, .submitted)] }

def lineUp (m : Manager) (id : JobId) : Manager :=
  { m with jobs := m.jobs.filter (·.1 ≠ id) ++ [(id, .waiting)] }

def next? (m : Manager) : Option JobId := (m.jobs.find? fun e => e.2.waits).map (·.1)

def finish (m : Manager) (id : JobId) : Manager × Option JobId :=
  let m := m.setPhase id .over
  match m.next? with
  | some other => (m.setPhase other .admitted, some other)
  | none => (m, none)

structure Effect where
  manager : Manager
  job : Job
  ns : Namespace
  admitted : Option JobId := none

def react (m : Manager) (id : JobId) (j : Job) (node : Node) (ns : Namespace) :
    ManagerEvent → Effect
  | .ask =>
    match m.phase? id with
    | some .submitted =>
      if m.executing < m.limit then ⟨m.setPhase id .admitted, j, ns, none⟩
      else ⟨m.lineUp id, j, ns, none⟩
    | _ => ⟨m, j, ns, none⟩
  | .start =>
    match m.phase? id with
    | some .admitted =>
      if node.online then ⟨m.setPhase id .running, j.start node, ns, none⟩
      else ⟨(m.finish id).1, j.start node, ns, (m.finish id).2⟩
    | _ => ⟨m, j, ns, none⟩
  | .ran r =>
    match m.phase? id with
    | some .running => ⟨m.setPhase id (.ran r), j, ns, none⟩
    | _ => ⟨m, j, ns, none⟩
  | .settle =>
    match m.phase? id with
    | some (.ran r) =>
      let (j, ns) := j.settle node ns r
      ⟨(m.finish id).1, j, ns, (m.finish id).2⟩
    | _ => ⟨m, j, ns, none⟩

end Manager
end Archivist
