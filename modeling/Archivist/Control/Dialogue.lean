import Archivist.Control.Conversation
set_option autoImplicit false

namespace Archivist

inductive ClientStep where
  | call (request : Request)
  | transfer (request : Request)
  | begin (request : Request) (name : String)
  | finish (id : UInt64)
  | finishNamed (name : String)
  | node

inductive ClientAnswer where
  | reply (r : Except TransferError Response)
  | status (r : Except TransferError TransferStatus)
  | begun (r : Except TransferError UInt64)
  | node (name : String)

structure Dialogue (σ : Type) where
  line : Conversation σ
  begun : List (String × UInt64) := []

namespace Dialogue

variable {σ : Type}

def wait {α : Type} (d : Dialogue σ) (f : α → ClientAnswer) (r : Conversation σ × Option α) :
    Option (Dialogue σ × ClientAnswer) :=
  r.2.map fun a => ({ d with line := r.1 }, f a)

/-- Takes a step; none if it would wait for ever or names nothing that was begun. -/
def perform (p : Peer σ) (d : Dialogue σ) : ClientStep → Option (Dialogue σ × ClientAnswer)
  | .call request => d.wait .reply (d.line.call p request)
  | .transfer request => d.wait .status (d.line.transfer p request)
  | .begin request name =>
    match d.line.begin p request with
    | (line, .error e) => some ({ d with line }, .begun (.error e))
    | (line, .ok id) =>
      some ({ line, begun := (name, id) :: d.begun.filter (·.1 ≠ name) }, .begun (.ok id))
  | .finish id => d.wait .status (d.line.finish p id)
  | .finishNamed name =>
    (d.begun.lookup name).bind fun id => d.wait .status (d.line.finish p id)
  | .node => some (d, .node d.line.client.node)

def performAll (p : Peer σ) (d : Dialogue σ) (steps : List ClientStep) :
    Option (Dialogue σ × List ClientAnswer) :=
  steps.foldlM (fun (d, answers) step => do
    let (d, a) ← d.perform p step
    return (d, answers ++ [a])) (d, [])

end Dialogue
end Archivist
