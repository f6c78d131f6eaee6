import Archivist.CommandLine.Arguments
import Archivist.Plan.Load
import Archivist.Plan.SectionPlan
set_option autoImplicit false

namespace Archivist.CommandLine

inductive CommandFailure where
  | settings (e : LoadError)
  | snapshot (f : Snapshot.LoadFailure)
  | noSection (name : String)
  | archive (e : ArchiveError)

def CommandFailure.message : CommandFailure → String
  | .settings e => e.message
  | .snapshot f => s!"{f.context}: {f.cause.message}"
  | .noSection name => s!"no section named {name}"
  | .archive e => e.message

def padded (width : Nat) (s : String) : String :=
  s ++ String.ofList (List.replicate (width - s.length) ' ')

def checkLines (path : String) (s : Settings) : List String :=
  s!"{path}: ok" :: s.sections.map fun x =>
    s!"  {padded 12 x.name} {x.path.text} {x.placement.name} x{x.copies}"

def planLines (asJson : Bool) (plans : List SectionPlan) : List String :=
  if asJson then [(Json.list (plans.map SectionPlan.json)).pretty]
  else plans.flatMap SectionPlan.lines

def loadSettings (files : Files) (path : String) : Except CommandFailure Settings :=
  (Settings.load files path).mapError .settings

def loadSnapshot (files : Files) (path : String) : Except CommandFailure Snapshot :=
  (Snapshot.load files path).mapError .snapshot

def check (files : Files) (config : String) : Except CommandFailure (List String) := do
  return checkLines config (← loadSettings files config)

def plan (files : Files) (clock : Clock) (config snapshot : String) (only : Option String)
    (asJson : Bool) : Except CommandFailure (List String) := do
  let settings ← loadSettings files config
  match only with
  | some name => if (settings.section? name).isNone then throw (.noSection name)
  | none => pure ()
  let world := (← loadSnapshot files snapshot).build clock
  let plans ← (SectionPlan.all settings.sections only world).mapError .archive
  return planLines asJson plans

/-- What a command prints.  A node prints nothing once its settings are loaded, and neither does
a cycle. -/
def output (files : Files) (clock : Clock) : Command → Except CommandFailure (List String)
  | .check config => check files config
  | .plan config snapshot only asJson => plan files clock config snapshot only asJson
  | .node config _ _ => do
    let _ ← loadSettings files config
    return []
  | .run config snapshot _ => do
    let _ ← loadSettings files config
    let _ ← loadSnapshot files snapshot
    return []

end Archivist.CommandLine
