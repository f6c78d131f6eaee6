import Archivist.Archive.Destination
import Archivist.Archive.Job
import Archivist.Archive.Registry
set_option autoImplicit false

namespace Archivist

structure World where
  clock : Clock
  namespace_ : Namespace
  fleet : Fleet := {}
  registry : Registry := {}

/-- How a policy finds nodes: by the section's rule, or not at all because it is broken. -/
inductive Finder where
  | placement
  | broken
  | failing
deriving DecidableEq

structure Policy where
  section_ : Section
  finder : Finder := .placement
  directory : Option Dir := none
  destinations : Option (List NodeId) := none

structure Report where
  sectionName : String
  directory : Dir
  done : Nat
  failed : Nat
  archived : Bool
  movedTo : Option Dir
deriving DecidableEq

inductive Search (α : Type) where
  | answer (a : α)
  | error (e : ArchiveError)
  | panicked

namespace Policy

def setDirectory (p : Policy) (d : Option Dir) : Policy :=
  { p with
    destinations := if p.directory = d then p.destinations else none
    directory := d }

def freeze (p : Policy) (nodes : List NodeId) : Except ArchiveError Policy :=
  if nodes.isEmpty then .error (.state .emptyDestinations)
  else if p.destinations.isSome then .error (.state .frozen)
  else .ok { p with destinations := some nodes }

def clear (p : Policy) : Policy := { p with directory := none, destinations := none }

def requireDirectory (p : Policy) : Except ArchiveError Dir :=
  match p.directory with
  | some d => .ok d
  | none => .error (.state .noDirectory)

def files (p : Policy) (ns : Namespace) (d : Dir) : Except ArchiveError (List FileEntry) :=
  ns.files d p.section_.deep

def eligible (p : Policy) (w : World) : List Member := Destination.eligible p.section_ w.fleet

/-- A directory is archived if enough nodes hold all its files; an empty one is. -/
def isArchived (p : Policy) (w : World) (d : Dir) : Except ArchiveError Bool := do
  let fs ← p.files w.namespace_ d
  if fs.isEmpty then return true
  return (Destination.completeHolders (p.eligible w) fs).length ≥ p.section_.copies

def isCandidate (p : Policy) (w : World) (now created : Instant) (d : Dir) : Bool :=
  !p.section_.ignored.contains d.name && !w.registry.isArchiving d &&
    decide ((p.section_.minAge : Int) * Instant.second ≤ max 0 (now - created))

/-- Earlier directories come first, of the same age those with the lesser text. -/
def earlier (a b : Instant × Dir) : Bool :=
  if a.1 = b.1 then a.2.le b.2 else decide (a.1 < b.1)

def candidates (p : Policy) (w : World) (now : Instant) : Except ArchiveError (List Dir) := do
  let dirs ← w.namespace_.subdirectories p.section_.path
  let dated ← dirs.mapM fun d => return (← w.namespace_.createdAt d, d)
  return ((dated.filter fun e => p.isCandidate w now e.1 e.2).mergeSort earlier).map (·.2)

def next (p : Policy) (w : World) (now : Instant) : Except ArchiveError (Option Dir) := do
  firstOpen (← p.candidates w now)
where
  firstOpen : List Dir → Except ArchiveError (Option Dir)
    | [] => return none
    | d :: ds => do if ← p.isArchived w d then firstOpen ds else return some d

def find (p : Policy) (w : World) : Search (Option (List Member)) :=
  match p.finder with
  | .broken => .panicked
  | .failing => .error (.namespace (.other "placement lookup failed"))
  | .placement =>
    let nodes := p.eligible w
    match p.requireDirectory with
    | .error e => .error e
    | .ok d =>
      match p.section_.placement with
      | .mostFree =>
        match p.files w.namespace_ d with
        | .error e => .error e
        | .ok fs => .answer (Destination.byFreeSpace p.section_ fs nodes nodes)
      | .affinity =>
        if nodes.length < p.section_.copies then .answer none
        else
          match p.files w.namespace_ d with
          | .error e => .error e
          | .ok fs => .answer (Destination.byAffinity p.section_ fs nodes nodes nodes)

/-- A job for each file and each node that does not hold it. -/
def send (p : Policy) (w : World) : Except ArchiveError (List Job) := do
  let d ← p.requireDirectory
  match p.destinations with
  | none => .error (.state .noDestinations)
  | some nodes =>
    let fs ← p.files w.namespace_ d
    return fs.flatMap fun f =>
      (nodes.filter fun id => !f.isOn (w.fleet.nameOf id)).map fun id =>
        { file := f, destination := id, priority := p.section_.priority }

/-- Judges a run: an archived directory is moved if the section says where to. -/
def cleanup (p : Policy) (w : World) (jobs : List Job) :
    Except ArchiveError (Policy × World × Report) := do
  let d ← p.requireDirectory
  let archived ← p.isArchived w d
  let done := (jobs.filter (·.status = .done)).length
  let failed := (jobs.filter fun j => match j.status with
    | .failed _ => true
    | _ => false).length
  let report := fun movedTo => (⟨p.section_.name, d, done, failed, archived, movedTo⟩ : Report)
  match archived, p.section_.target with
  | true, some target =>
    let new := target.join d.name
    let (now, clock) := w.clock.read
    match w.namespace_.rename now d new with
    | .ok ns => return (p.clear, { w with clock, namespace_ := ns }, report (some new))
    | .error _ => return (p.clear, { w with clock }, report none)
  | _, _ => return (p.clear, w, report none)

end Policy
end Archivist
