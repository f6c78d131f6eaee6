import Archivist.Control.Dialogue
import Archivist.Exchange.Message
set_option autoImplicit false

namespace Archivist.Exchange

structure Manner where
  timed : Bool := true
  veil : String → String := id

def stepRequest (d : Document) : Document.Asked Request :=
  match d.given? "abort_len" with
  | some n => do return .abort (String.ofList (List.replicate (← n.asNat) 'x'))
  | none => do readRequest (← d.fieldOf "request")

def readClientStep (d : Document) : Document.Asked ClientStep := do
  match ← d.textOf "do" with
  | "call" => return .call (← stepRequest d)
  | "transfer" => return .transfer (← stepRequest d)
  | "begin" => return .begin (← stepRequest d) (← d.textOf "as")
  | "finish" =>
    match d.given? "as" with
    | some name => return .finishNamed (← name.asText)
    | none => return .finish (← d.natOf "id").toUInt64
  | "node" => return .node
  | _ => .error "step expected"

def clientAnswer (m : Manner) : ClientAnswer → Json
  | .reply r => result m.veil (response m.timed m.veil) r
  | .status r => result m.veil (status m.timed) r
  | .begun r => result m.veil (fun id => .nat id.toNat) r
  | .node name => .text name

def dialogue {σ : Type} (p : Peer σ) (start : Dialogue σ) (d : Document) :
    Document.Asked (Dialogue σ × Json) := do
  let steps ← (← d.listOr "steps").mapM readClientStep
  match start.performAll p steps with
  | some (t, answers) => return (t, .list (answers.map (clientAnswer {})))
  | none => .error "no answer"

end Archivist.Exchange
