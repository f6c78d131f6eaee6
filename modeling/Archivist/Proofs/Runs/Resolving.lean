import Archivist.Proofs.Placement.Keeping
import Archivist.Proofs.Runs.Round
set_option autoImplicit false

/-!
# Finding nodes while they come and go

The liveness and the room of nodes change at any time, and a search looks at the fleet more than
once: to see whether there are enough nodes, to find those that hold files, and to fill up.  Each
look may come out differently, and while the nodes are sorted their room may change again, so the
sort is only known to give the nodes that it was given.  What is found is still a choice that can
be fixed: as many nodes as are wanted, of different names, each of them online at some look
(`Gathered`).
-/

namespace Archivist

namespace Fleet

/-- What a fleet comes to when the liveness and the room of its nodes are reported anew. -/
inductive Monitored (f : Fleet) : Fleet → Prop where
  | same : Monitored f f
  | report {g : Fleet} (h : Monitored f g) (id : NodeId) (online : Bool) (free : Nat) :
      Monitored f (g.update id fun n => { n with online, free })

variable {f g : Fleet}

theorem Monitored.built (h : f.Monitored g) (built : f.Built) : g.Built := by
  induction h with
  | same => exact built
  | report _ id online free ih => exact .update id _ (fun _ => rfl) ih

theorem Monitored.members_eq (h : f.Monitored g) : g.members = f.members := by
  induction h with
  | same => rfl
  | report _ id online free ih => exact ih

theorem Monitored.nameOf_eq (h : f.Monitored g) (id : NodeId) : g.nameOf id = f.nameOf id := by
  induction h with
  | same => rfl
  | report _ changed online free ih =>
    refine (nameOf_update changed ?_ id).trans ih
    exact fun _ => rfl

end Fleet

namespace Destination

def byFreeSpaceBy (arrange : List Member → List Member) (s : Section) (files : List FileEntry)
    (holders fill : List Member) : Option (List Member) :=
  if files.isEmpty then none
  else fillUpBy arrange s ((completeHolders holders files).take s.copies) fill

def byAffinityBy (arrange : List Member → List Member) (s : Section) (files : List FileEntry)
    (enough anchors fill : List Member) : Option (List Member) :=
  if enough.length < s.copies then none
  else
    match anchor anchors files with
    | none => none
    | some a => fillUpBy arrange s [a] fill

theorem byFreeSpace_eq_byRoom (s : Section) (files : List FileEntry) (holders fill : List Member) :
    byFreeSpace s files holders fill = byFreeSpaceBy byRoom s files holders fill := rfl

theorem byAffinity_eq_byRoom (s : Section) (files : List FileEntry)
    (enough anchors fill : List Member) :
    byAffinity s files enough anchors fill = byAffinityBy byRoom s files enough anchors fill := by
  unfold byAffinity byAffinityBy
  cases anchor anchors files <;> rfl

/-- As many nodes of a fleet as are wanted, with different names, each of them eligible and online
at some look. -/
structure Gathered (s : Section) (f : Fleet) (looks : List Fleet) (ms : List Member) : Prop where
  length : ms.length = s.copies
  names : (ms.map (·.node.name)).Nodup
  seen : ∀ m ∈ ms, ∃ g ∈ looks, m ∈ eligible s g
  known : ∀ m ∈ ms, m.id ∈ f.members ∧ f.nameOf m.id = m.node.name

variable {arrange : List Member → List Member} {s : Section} {chosen fill ms : List Member}
  {f : Fleet} {looks : List Fleet}

theorem known_of_eligible {g : Fleet} (changed : f.Monitored g) {m : Member}
    (h : m ∈ eligible s g) : m.id ∈ f.members ∧ f.nameOf m.id = m.node.name := by
  have mem := (mem_eligible.1 h).1
  rw [← changed.members_eq, ← changed.nameOf_eq]
  exact ⟨(Fleet.mem_all.1 mem).1, Fleet.nameOf_of_mem_all mem⟩

theorem gathered_fillUpBy (perm : ∀ nodes, (arrange nodes).Perm nodes) {g : Fleet}
    (built : f.Built) (changed : ∀ g ∈ looks, f.Monitored g) (look : g ∈ looks)
    (fits : chosen.length ≤ s.copies) (names : (chosen.map (·.node.name)).Nodup)
    (seen : ∀ m ∈ chosen, ∃ g ∈ looks, m ∈ eligible s g)
    (h : fillUpBy arrange s chosen (eligible s g) = some ms) : Gathered s f looks ms := by
  obtain ⟨eq, length⟩ := fillUpBy_eq_some fits h
  have sub := take_arranged_subperm perm (others (eligible s g) chosen) (s.copies - chosen.length)
  -- those that join differ among each other by the look, and from the rest by the search
  have distinct := names_eligible ((changed g look).built built).distinct s
  have all : ∀ m ∈ ms, ∃ g ∈ looks, m ∈ eligible s g := by
    intro m hm
    rw [eq, List.mem_append] at hm
    rcases hm with old | new
    · exact seen m old
    · exact ⟨g, look, (apart_of_mem_others (sub.subset new)).1⟩
  refine ⟨length, eq ▸ names_append_others names distinct sub, all, ?_⟩
  intro m hm
  obtain ⟨g, hg, mem⟩ := all m hm
  exact known_of_eligible (changed g hg) mem

theorem gathered_byFreeSpaceBy (perm : ∀ nodes, (arrange nodes).Perm nodes)
    {holders filling : Fleet} (built : f.Built) (changed : ∀ g ∈ looks, f.Monitored g)
    (first : holders ∈ looks) (last : filling ∈ looks) {fs : List FileEntry}
    (h : byFreeSpaceBy arrange s fs (eligible s holders) (eligible s filling) = some ms) :
    Gathered s f looks ms := by
  unfold byFreeSpaceBy at h
  split at h
  · cases h
  · rename_i files
    have distinct := names_eligible ((changed holders first).built built).distinct s
    obtain ⟨names, sub, fits⟩ := kept_completeHolders distinct (by simpa using files) s.copies
    exact gathered_fillUpBy perm built changed last fits names
      (fun m hm => ⟨holders, first, sub hm⟩) h

theorem gathered_byAffinityBy (perm : ∀ nodes, (arrange nodes).Perm nodes)
    {anchors filling : Fleet} (built : f.Built) (changed : ∀ g ∈ looks, f.Monitored g)
    (first : anchors ∈ looks) (last : filling ∈ looks) (pos : 1 ≤ s.copies) {fs : List FileEntry}
    {enough : List Member}
    (h : byAffinityBy arrange s fs enough (eligible s anchors) (eligible s filling) = some ms) :
    Gathered s f looks ms := by
  unfold byAffinityBy at h
  split at h
  · cases h
  · split at h
    · cases h
    · rename_i a found
      have distinct := names_eligible ((changed anchors first).built built).distinct s
      have fits : [a].length ≤ s.copies := pos
      have names : ([a].map (·.node.name)).Nodup := List.nodup_singleton _
      refine gathered_fillUpBy perm built changed last fits names ?_ h
      intro m hm
      rw [List.mem_singleton.1 hm]
      exact ⟨anchors, first, (mem_of_anchor distinct found).2⟩

end Destination

namespace Policy

open Destination

/-- Which nodes there are for a directory if each look at the fleet comes out by itself: whether
there are enough (by affinity), who holds files, and who is there to fill up. -/
def lookAmid (p : Policy) (arrange : List Member → List Member) (ns : Namespace)
    (enough counted filling : Fleet) (d : Dir) : Search (Option (List Member)) :=
  let nodes := Destination.eligible p.section_
  match p.section_.placement with
  | .mostFree =>
    match p.files ns d with
    | .error e => .error e
    | .ok fs => .answer (byFreeSpaceBy arrange p.section_ fs (nodes counted) (nodes filling))
  | .affinity =>
    if (nodes enough).length < p.section_.copies then .answer none
    else
      match p.files ns d with
      | .error e => .error e
      | .ok fs =>
        .answer (byAffinityBy arrange p.section_ fs (nodes enough) (nodes counted) (nodes filling))

theorem find_eq_findOn_lookAmid (p : Policy) (w : World) :
    p.find w = p.findOn (p.lookAmid byRoom w.namespace_ w.fleet w.fleet w.fleet) := by
  have same : p.lookIn w = p.lookAmid byRoom w.namespace_ w.fleet w.fleet w.fleet := by
    funext d
    unfold lookIn lookAmid
    simp only [byAffinity_eq_byRoom, byFreeSpace_eq_byRoom]
    rfl
  rw [find_eq_findOn, same]

variable {p : Policy} {arrange : List Member → List Member} {ns : Namespace}
  {f enough counted filling : Fleet} {ms : List Member}

theorem gathered_lookAmid (perm : ∀ nodes, (arrange nodes).Perm nodes) (built : f.Built)
    (changed : ∀ g ∈ [counted, filling], f.Monitored g) (pos : 1 ≤ p.section_.copies) {d : Dir}
    (found : p.lookAmid arrange ns enough counted filling d = .answer (some ms)) :
    Gathered p.section_ f [counted, filling] ms := by
  unfold lookAmid at found
  dsimp only at found
  split at found
  · split at found
    · cases found
    · exact gathered_byFreeSpaceBy perm built changed (by simp) (by simp) (Search.answer.inj found)
  · split at found
    · cases found
    · split at found
      · cases found
      · exact gathered_byAffinityBy perm built changed (by simp) (by simp) pos
          (Search.answer.inj found)

theorem findOn_of_placement {d : Dir} (finder : p.finder = .placement)
    (dir : p.directory = some d) (look : Dir → Search (Option (List Member))) :
    p.findOn look = look d := by
  unfold findOn requireDirectory
  rw [finder, dir]

theorem findOn_eq_answer {look : Dir → Search (Option (List Member))}
    (h : p.findOn look = .answer (some ms)) :
    ∃ d, p.directory = some d ∧ look d = .answer (some ms) := by
  cases finder : p.finder with
  | broken =>
    rw [findOn, finder] at h
    cases h
  | failing =>
    rw [findOn, finder] at h
    cases h
  | placement =>
    cases dir : p.directory with
    | none =>
      rw [findOn, finder, requireDirectory, dir] at h
      cases h
    | some d => exact ⟨d, rfl, (findOn_of_placement finder dir look).symm.trans h⟩

theorem freeze_of_ne_nil {q : Policy} {ids : List NodeId} (free : q.destinations = none)
    (hsome : ids ≠ []) : q.freeze ids = .ok { q with destinations := some ids } := by
  rw [freeze, if_neg (by simpa using hsome), if_neg (by simp [free])]

end Policy

open Destination in
/-- Whatever becomes of the liveness and the room of the nodes from one look to the next and while
they are sorted: nodes that are found are as many as the section wants, of different names, each
eligible and online at one of the looks, and a policy that has no nodes yet can fix them.  In a
world that stands still this is the search of the policy. -/
theorem findOn_lookAmid_gathered (p : Policy) (ns : Namespace)
    (f enough counted filling : Fleet) (built : f.Built)
    (changed : ∀ g ∈ [counted, filling], f.Monitored g) (pos : 1 ≤ p.section_.copies)
    (arrange : List Member → List Member) (perm : ∀ nodes, (arrange nodes).Perm nodes) :
    (∀ ms, p.findOn (p.lookAmid arrange ns enough counted filling) = .answer (some ms) →
      Gathered p.section_ f [counted, filling] ms ∧
        ∀ q : Policy, q.destinations = none →
          q.freeze (ms.map (·.id)) = .ok { q with destinations := some (ms.map (·.id)) }) ∧
      ∀ w : World, p.find w =
        p.findOn (p.lookAmid byRoom w.namespace_ w.fleet w.fleet w.fleet) := by
  refine ⟨?_, p.find_eq_findOn_lookAmid⟩
  intro ms found
  obtain ⟨d, -, answer⟩ := Policy.findOn_eq_answer found
  have gathered := Policy.gathered_lookAmid perm built changed pos answer
  refine ⟨gathered, ?_⟩
  intro q free
  refine Policy.freeze_of_ne_nil free ?_
  intro nobody
  have length := gathered.length
  rw [List.map_eq_nil_iff.1 nobody, List.length_nil] at length
  omega

def pairOfNodes : Fleet :=
  ((Fleet.add {} { name := "n1", free := 10 }).1.add { name := "n2", free := 20 }).1

def onlyOnline (id : NodeId) : Fleet :=
  (pairOfNodes.update 0 fun n => { n with online := id = 0, free := 10 }).update 1 fun n =>
    { n with online := id = 1, free := 20 }

def heldByFirst : Namespace := Namespace.empty.addFile 0 "/rls/T/a" 1 ["n1"]

def pairedPolicy : Policy where
  section_ := { name := "rls", path := Dir.ofText "/rls", placement := .mostFree, copies := 2 }
  directory := some (Dir.ofText "/rls/T")

theorem findOn_lookAmid_onlyOnline :
    ∃ ms, pairedPolicy.findOn (pairedPolicy.lookAmid List.reverse heldByFirst (onlyOnline 0)
        (onlyOnline 0) (onlyOnline 1)) = .answer (some ms) ∧
      ms.map (·.node.name) = ["n1", "n2"] ∧
      (∀ g ∈ [onlyOnline 0, onlyOnline 1], g.available.length = 1) ∧
      ∃ q, pairedPolicy.freeze (ms.map (·.id)) = .ok q := by
  have built : pairOfNodes.Built := .add _ (.add _ .empty)
  have monitored : ∀ id, pairOfNodes.Monitored (onlyOnline id) := fun id =>
    .report (.report .same 0 _ _) 1 _ _
  have changed : ∀ g ∈ [onlyOnline 0, onlyOnline 1], pairOfNodes.Monitored g := by
    intro g hg
    simp only [List.mem_cons, List.not_mem_nil, or_false] at hg
    rcases hg with rfl | rfl <;> exact monitored _
  have listed : pairedPolicy.files heldByFirst (Dir.ofText "/rls/T") =
      .ok [⟨"/rls/T/a", 1, ["n1"]⟩] := by decide +kernel
  have found : pairedPolicy.findOn (pairedPolicy.lookAmid List.reverse heldByFirst (onlyOnline 0)
      (onlyOnline 0) (onlyOnline 1)) = .answer (some
        [⟨0, { name := "n1", free := 10 }⟩, ⟨1, { name := "n2", free := 20 }⟩]) := by
    rw [Policy.findOn_of_placement rfl rfl]
    unfold Policy.lookAmid
    rw [listed]
    exact congrArg Search.answer (by decide +kernel)
  obtain ⟨fixes, -⟩ := findOn_lookAmid_gathered pairedPolicy heldByFirst pairOfNodes
    (onlyOnline 0) (onlyOnline 0) (onlyOnline 1) built changed (by decide) List.reverse
    List.reverse_perm
  obtain ⟨-, freezes⟩ := fixes _ found
  exact ⟨_, found, rfl, by decide +kernel, _, freezes pairedPolicy rfl⟩

end Archivist
