import Archivist.Plan.Snapshot
set_option autoImplicit false

namespace Archivist

structure SectionPlan where
  sectionName : String
  directory : Option Dir := none
  destinations : List String := []
  /-- The files to be copied with the nodes they are copied to. -/
  copies : List (String × String) := []
deriving DecidableEq

def Policy.plan (p : Policy) (w : World) : Except ArchiveError SectionPlan := do
  let plan : SectionPlan := { sectionName := p.section_.name }
  match ← p.next w w.clock.now with
  | none => return plan
  | some d =>
    let p := p.setDirectory (some d)
    let plan := { plan with directory := some d }
    match p.find w with
    | .panicked => return plan
    | .error e => throw e
    | .answer none => return plan
    | .answer (some nodes) =>
      let p ← p.freeze (nodes.map (·.id))
      let jobs ← p.send w
      return { plan with
        destinations := nodes.map (·.node.name)
        copies := jobs.map fun j => (j.file.path, w.fleet.nameOf j.destination) }

namespace SectionPlan

def all (sections : List Section) (only : Option String) (w : World) :
    Except ArchiveError (List SectionPlan) :=
  (sections.filter fun s => only.all (· = s.name)).mapM fun s =>
    Policy.plan { section_ := s } w

def json (p : SectionPlan) : Json :=
  .record [("section", .text p.sectionName), ("directory", .orNull Dir.json p.directory),
    ("destinations", .texts p.destinations),
    ("copies", .list (p.copies.map fun (file, node) => .texts [file, node]))]

def lines (p : SectionPlan) : List String :=
  match p.directory with
  | none => [s!"{p.sectionName}: nothing to archive"]
  | some d =>
    if p.destinations.isEmpty then
      [s!"{p.sectionName}: {d.text} (no destination slaves available)"]
    else
      let nodes := ", ".intercalate p.destinations
      s!"{p.sectionName}: {d.text} -> {nodes}" ::
        p.copies.map fun (file, node) => s!"    {file} -> {node}"

end SectionPlan
end Archivist
