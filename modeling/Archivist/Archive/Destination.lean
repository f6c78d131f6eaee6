import Archivist.Archive.Fleet
import Archivist.Archive.Namespace
import Archivist.Archive.Section
set_option autoImplicit false

namespace Archivist.Destination

def eligible (s : Section) (fleet : Fleet) : List Member :=
  fleet.available.filter fun m => s.isEligible m.node.name

def countAt (nodes : List Member) (counts : List (Member × Nat)) (name : String) :
    List (Member × Nat) :=
  if counts.any (·.1.node.name = name) then
    counts.map fun e => if e.1.node.name = name then (e.1, e.2 + 1) else e
  else
    match nodes.find? (·.node.name = name) with
    | some m => counts ++ [(m, 1)]
    | none => counts

def counts (nodes : List Member) (files : List FileEntry) : List (Member × Nat) :=
  files.foldl (fun acc f => f.holders.foldl (countAt nodes) acc) []

/-- The nodes that are named as often as there are files. -/
def completeHolders (nodes : List Member) (files : List FileEntry) : List Member :=
  if files.isEmpty then []
  else ((counts nodes files).filter (·.2 = files.length)).map (·.1)

/-- The nodes with the most room that are not excluded; of two with the same room the one that
stands first in the fleet. -/
def mostFree (nodes : List Member) (excluded : List Member) (count : Nat) : List Member :=
  ((nodes.filter fun m => !(excluded.any fun e => e.node.name = m.node.name)).mergeSort
    fun a b => b.node.free ≤ a.node.free).take count

/-- The node that is named most often, of several the one that is met first. -/
def anchor (nodes : List Member) (files : List FileEntry) : Option Member :=
  ((counts nodes files).foldl (fun best e =>
    match best with
    | none => some e
    | some b => if e.2 > b.2 then some e else best) none).map (·.1)

def fillUp (s : Section) (chosen : List Member) (fill : List Member) : Option (List Member) :=
  let missing := s.copies - chosen.length
  let extra := mostFree fill chosen missing
  if extra.length < missing then none else some (chosen ++ extra)

/-- Keeps complete holders and fills up; `holders` and `fill` are the two looks at the fleet. -/
def byFreeSpace (s : Section) (files : List FileEntry) (holders fill : List Member) :
    Option (List Member) :=
  if files.isEmpty then none
  else fillUp s ((completeHolders holders files).take s.copies) fill

/-- Starts from the anchor and fills up; the three looks tell whether there are enough nodes, find
the anchor, and fill up. -/
def byAffinity (s : Section) (files : List FileEntry) (enough anchors fill : List Member) :
    Option (List Member) :=
  if enough.length < s.copies then none
  else
    match anchor anchors files with
    | none => none
    | some a => fillUp s [a] fill

end Archivist.Destination
