import Archivist.Net.Address
set_option autoImplicit false

namespace Archivist

structure Node where
  name : String
  free : Nat
  online : Bool := true
  address : Option SocketAddress := none
deriving DecidableEq

abbrev NodeId := Nat

structure Member where
  id : NodeId
  node : Node
deriving DecidableEq

structure Fleet where
  joined : List Node := []
  members : List NodeId := []

namespace Fleet

def node? (f : Fleet) (id : NodeId) : Option Node := f.joined[id]?

def nameOf (f : Fleet) (id : NodeId) : String := ((f.node? id).map (·.name)).getD ""

def member? (f : Fleet) (id : NodeId) : Option Member := (f.node? id).map fun n => ⟨id, n⟩

def all (f : Fleet) : List Member := f.members.filterMap f.member?

def find? (f : Fleet) (name : String) : Option Member := f.all.find? (·.node.name = name)

def available (f : Fleet) : List Member := f.all.filter (·.node.online)

/-- A node joins, in the place of one of the same name if there is one. -/
def add (f : Fleet) (n : Node) : Fleet × NodeId :=
  let id := f.joined.length
  let members := match f.find? n.name with
    | some old => f.members.map fun m => if m = old.id then id else m
    | none => f.members ++ [id]
  ({ joined := f.joined ++ [n], members }, id)

def update (f : Fleet) (id : NodeId) (change : Node → Node) : Fleet :=
  { f with joined := f.joined.modify id change }

end Fleet
end Archivist
