import Archivist.Path.Dir
set_option autoImplicit false

namespace Archivist

inductive Placement where
  | mostFree
  | affinity
deriving DecidableEq, Repr

def Placement.name : Placement → String
  | .mostFree => "MostFree"
  | .affinity => "Affinity"

structure Section where
  name : String
  path : Dir
  placement : Placement
  copies : Nat := 1
  /-- The least age, in seconds, of a directory to be archived. -/
  minAge : Nat := 0
  priority : Nat := 3
  /-- Whether files of subdirectories belong to a directory. -/
  deep : Bool := true
  /-- The nodes that may take copies; none named means all. -/
  nodes : List String := []
  ignored : List String := []
  target : Option Dir := none
deriving DecidableEq

namespace Section

def isEligible (s : Section) (node : String) : Bool := s.nodes.isEmpty || s.nodes.contains node

end Section
end Archivist
