import Archivist.Plan.SectionPlan
import Archivist.Service.Basic
set_option autoImplicit false

namespace Archivist.Service

def plan (s : Service) (id : PolicyId) (p : Policy) : Service × Except ArchiveError SectionPlan :=
  let plan : SectionPlan := { sectionName := p.section_.name }
  match p.next s.world s.world.clock.now with
  | .error e => (s, .error e)
  | .ok none => (s, .ok plan)
  | .ok (some d) =>
    let p := p.setDirectory (some d)
    let s := s.setPolicy id p
    let plan := { plan with directory := some d }
    match p.find s.world with
    | .panicked => (s, .ok plan)
    | .error e => (s, .error e)
    | .answer none => (s.setPolicy id (p.setDirectory none), .ok plan)
    | .answer (some nodes) =>
      match p.freeze (nodes.map (·.id)) with
      | .error e => (s, .error e)
      | .ok p =>
        let s := s.setPolicy id p
        match p.send s.world with
        | .error e => (s, .error e)
        | .ok jobs =>
          (s.setPolicy id (p.setDirectory none), .ok { plan with
            destinations := nodes.map (·.node.name)
            copies := jobs.map fun j => (j.file.path, s.world.fleet.nameOf j.destination) })

end Archivist.Service
