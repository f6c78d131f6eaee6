import Archivist.Config.Reading
import Archivist.Exchange.Listing
import Archivist.Exchange.Message
import Archivist.Json.Reader
import Archivist.Service.Schedule
set_option autoImplicit false

namespace Archivist.Exchange

def jobStatus : JobStatus → Json
  | .queued => .text "Queued"
  | .transferring => .text "Transferring"
  | .done => .text "Done"
  | .failed f => jobFailure f

def fileRecord (f : FileEntry) : Json :=
  .record [("path", .text f.path), ("size", .nat f.size), ("slaves", .texts f.holders)]

def job (s : Service) (j : Job) : Json :=
  .record [("file", .text j.file.path), ("size", .nat j.file.size),
    ("sources", .texts j.file.holders), ("dest", .text (s.nodeOf j).name),
    ("priority", .nat j.priority), ("status", jobStatus j.status)]

def jobs (s : Service) (ids : List JobId) : Json :=
  .list ((ids.filterMap fun id => s.jobs[id]?).map (job s))

def jobState (j : Job) : Json :=
  .record [("status", jobStatus j.status), ("done", .bool j.isDone),
    ("transfer", .orNull (status true) j.transfer)]

def report (r : Report) : Json :=
  .record [("section", .text r.sectionName), ("directory", r.directory.json),
    ("done", .nat r.done), ("failed", .nat r.failed), ("archived", .bool r.archived),
    ("moved_to", .orNull Dir.json r.movedTo)]

def outcome : Outcome → Json
  | .noDirectory => .record [("outcome", .text "NoDirectory")]
  | .duplicate d => .record [("outcome", .text "Duplicate"), ("directory", d.json)]
  | .noDestination d => .record [("outcome", .text "NoDestination"), ("directory", d.json)]
  | .completed r => .record [("outcome", .text "Completed"), ("report", report r)]
  | .failed d f =>
    .record [("outcome", .text "Failed"), ("directory", .orNull Dir.json d),
      ("reason", .text f.message)]

def awaited (r : Run) : Json :=
  let o := Json.orNull outcome r.handler.outcome
  match r.ended with
  | .finished => o
  | .panicked => .record [("task", .text "panicked"), ("outcome", o)]
  | .cancelled => .record [("task", .text "cancelled"), ("outcome", o)]

def nodeNames (f : Fleet) (ids : List NodeId) : Json := .texts (ids.map f.nameOf)

def run (s : Service) (r : Run) : Json :=
  let p := s.policies[r.policy]?
  .record [("state", .text r.handler.stage.name), ("outcome", .orNull outcome r.handler.outcome),
    ("jobs", jobs s r.jobs), ("policy_dir", .orNull Dir.json (p.bind (·.directory))),
    ("policy_dests", .orNull (nodeNames s.world.fleet) (p.bind (·.destinations)))]

def registration (e : Registration) : Json :=
  .list [e.directory.json, .text e.sectionName, .text e.owner.text]

def members (ms : List Member) : Json := .texts (ms.map (·.node.name))

def readAct (d : Document) : Document.Asked Act := do
  let moved ← d.maybe "rename" fun r => do
    match ← r.asList with
    | [source, target] =>
      return (Dir.ofText (← source.asText), Dir.ofText (← target.asText))
    | _ => .error "two directories expected"
  let result ← match d.given? "err" with
    | some spec => do pure (some (.error (← readArchiveError spec)))
    | none => do pure ((← d.maybe "ok" readStatus).map .ok)
  let panics := if ← d.boolOr "panic" false then some "task panicked" else none
  return ⟨← d.textsOf "offline", moved, panics, result⟩

def readExecutor (s : Service) : Document → Document.Asked (Service × Executor)
  | .text "instant" => .ok (s, .instant)
  | .text "reject" => .ok (s, .rejecting)
  | .text "gated" => .ok (s, .gated)
  | d => do
    let runner ← match ← d.textOf "kind" with
      | "manager" => do
        let table ← (← d.entriesOr "script").mapM fun (key, v) => do return (key, ← readAct v)
        pure (Runner.scripted table)
      | "remote" =>
        match Reads.transferSettings Json.dialect ((d.given? "config").getD (.record [])) with
        | .ok settings => pure (Runner.remote settings)
        | .error _ => .error "settings expected"
      | _ => .error "executor expected"
    let (s, m) := s.addManager (← d.natOr "max" 1) runner
    return (s, .managed m)

def readHost : Document → Document.Asked (Option Host)
  | .text "closed" => .ok (some .closed)
  | .text _ => .ok none
  | d =>
    match d.given? "fake" with
    | some rs => do return some (.script (← (← rs.asList).mapM readResponse))
    | none => do
      let taken ← d.boolOr "ports_taken" false
      let ports : PortRange := if taken then ⟨50000, 50000, by decide⟩ else .any
      return some (.node ⟨.localhost, ports, {}⟩ (← readStorage d) (if taken then [50000] else []))

end Archivist.Exchange
