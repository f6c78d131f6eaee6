import Archivist.Proofs.Copy.Between
import Archivist.Proofs.Copy.Turns
import Archivist.Proofs.Tree.Reached
import Mathlib.Logic.Relation
set_option autoImplicit false

/-!
# The course of a job

A course is any run of a service in which the turns of one job stand among whatever else happens.
The job begins submitted and unheard of; when it has ended as done, its destination has the file of
its source byte for byte and all that the job has done to the tree is to list its destination for
that file, and when it has failed it has done nothing to the tree.
-/

namespace Archivist

/-- A service, what the turns of one job have made of its tree so far, and the ends of the job's
copy once there has been one. -/
structure Course where
  service : Service
  changes : List (Namespace × Namespace) := []
  ends : Option (SocketAddress × SocketAddress) := none

namespace Course

def own (c : Course) (s : Service) : Course :=
  { c with
    service := s
    changes := c.changes ++ [(c.service.world.namespace_, s.world.namespace_)] }

/-- What may happen around a job: it keeps its place, unless it is let in from the line, the tree
is one that can be reached, nodes keep their names and addresses, and once the job's file has been
copied nothing else writes it at either end. -/
structure Around (c : Course) (m : ManagerId) (id : JobId) (s : Service) : Prop where
  job : ∀ runner j p, c.service.Has m id runner j p →
    s.Has m id runner j p ∨ p = .waiting ∧ s.Has m id runner j .admitted
  tree : s.world.namespace_.Reached
  nodes : ∀ i n, c.service.world.fleet.node? i = some n →
    ∃ n', s.world.fleet.node? i = some n' ∧ n'.name = n.name ∧ n'.address = n.address
  files : ∀ j a b, c.service.jobs[id]? = some j → c.ends = some (a, b) →
    s.site.file? a j.file.path = c.service.site.file? a j.file.path ∧
      s.site.file? b j.file.path = c.service.site.file? b j.file.path

/-- A job goes on by its own turns and by those of its runner; others act around it. -/
inductive Step (m : ManagerId) (id : JobId) : Course → Course → Prop where
  | turn (c : Course) : Step m id c (c.own (c.service.turn (.job m id)))
  | copy (c : Course) {j : Job} (job : c.service.jobs[id]? = some j)
      (running : c.service.phase? m id = some .running)
      (apart : RemoteCopy.Apart c.service.site c.service.world.fleet j) :
      Step m id c { c.own (c.service.turn (.runner m id)) with
        ends := RemoteCopy.ends c.service.world.fleet j }
  | around (c : Course) {s : Service} (h : c.Around m id s) : Step m id c { c with service := s }

theorem around_setNamespace (c : Course) {m : ManagerId} {id : JobId} {ns : Namespace}
    (reached : ns.Reached) : c.Around m id (c.service.setNamespace ns) where
  job _ _ _ has := .inl ⟨has.led, has.job⟩
  tree := reached
  nodes _ n node := ⟨n, node, rfl, rfl⟩
  files _ _ _ _ _ := ⟨rfl, rfl⟩

theorem around_self (c : Course) {m : ManagerId} {id : JobId}
    (reached : c.service.world.namespace_.Reached) : c.Around m id c.service where
  job _ _ _ has := .inl has
  tree := reached
  nodes _ n node := ⟨n, node, rfl, rfl⟩
  files _ _ _ _ _ := ⟨rfl, rfl⟩

theorem around_manage (c : Course) {m m' : ManagerId} {id id' : JobId} (other : id' ≠ id)
    (keys : ∀ manager runner, c.service.managers[m]? = some (manager, runner) →
      (manager.jobs.map (·.1)).Nodup)
    (reached : c.service.world.namespace_.Reached) (e : ManagerEvent) :
    c.Around m id (c.service.manage m' id' e) := by
  cases led : c.service.managers[m']? with
  | none =>
    rw [Service.manage, led]
    exact c.around_self reached
  | some x =>
    obtain ⟨manager, runner⟩ := x
    cases job : c.service.jobs[id']? with
    | none =>
      rw [Service.manage, led, job]
      exact c.around_self reached
    | some j =>
      obtain ⟨ts, eq⟩ := Service.manage_eq led job e
      rw [eq]
      refine ⟨?_, Manager.reached_react reached manager id' j _ e, ?_, ?_⟩
      · intro runner' j' p has
        obtain ⟨manager', led', phase⟩ := has.led
        have job' : ∀ x, (c.service.jobs.set id' x)[id]? = some j' := by
          intro x
          rw [List.getElem?_set_ne other, has.job]
        by_cases same : m' = m
        · subst same
          have both := Option.some.inj (led.symm.trans led')
          cases both
          have bound : m' < c.service.managers.length := (List.getElem?_eq_some_iff.1 led).1
          have step := Manager.phase?_react_other other.symm (keys _ _ led) j
            (c.service.nodeOf j) c.service.world.namespace_ e
          rw [phase] at step
          rcases step with stays | ⟨waits, admitted⟩
          · exact .inl ⟨⟨_, List.getElem?_set_self bound, stays⟩, job' _⟩
          · exact .inr ⟨Option.some.inj waits, ⟨_, List.getElem?_set_self bound, admitted⟩, job' _⟩
        · exact .inl ⟨⟨_, (List.getElem?_set_ne same).trans led', phase⟩, job' _⟩
      · intro i n node
        exact ⟨n, node, rfl, rfl⟩
      · intro j' a b _ _
        exact ⟨rfl, rfl⟩

def Untouched (changes : List (Namespace × Namespace)) : Prop := ∀ x ∈ changes, x.2 = x.1

/-- One of the changes lists a node for the file of a path, if it was not listed, and the others
change nothing. -/
def Listed (changes : List (Namespace × Namespace)) (path node : String) : Prop :=
  ∃ before ns after, changes =
      before ++ (ns, ns.mapFiles (Namespace.withHolder (Dir.ofText path).text node)) :: after ∧
    (ns.file? path).isSome = true ∧ Untouched before ∧ Untouched after

/-- A node is the destination of a job and has at the job's path the bytes of the source. -/
structure Copied (c : Course) (j : Job) (n : Node) : Prop where
  node : c.service.world.fleet.node? j.destination = some n
  bytes : ∃ a b content, c.ends = some (a, b) ∧ a ≠ b ∧ n.address = some a ∧
    c.service.site.file? b j.file.path = some content ∧
    c.service.site.file? a j.file.path = some content

theorem Untouched.concat {changes : List (Namespace × Namespace)} (h : Untouched changes)
    (ns : Namespace) : Untouched (changes ++ [(ns, ns)]) := by
  intro x mem
  rcases List.mem_append.1 mem with old | new
  · exact h x old
  · rw [List.mem_singleton.1 new]

theorem Listed.concat {changes : List (Namespace × Namespace)} {path node : String}
    (h : Listed changes path node) (ns : Namespace) :
    Listed (changes ++ [(ns, ns)]) path node := by
  obtain ⟨before, tree, after, eq, there, clean, clean'⟩ := h
  refine ⟨before, tree, after ++ [(ns, ns)], ?_, there, clean, clean'.concat ns⟩
  rw [eq, List.append_assoc, List.cons_append]

/-- What has come of a job, by the phase in which it stands; `copied` tells the nodes that have its
file. -/
def Sofar (copied : Node → Prop) (changes : List (Namespace × Namespace)) (j : Job) :
    Phase → Prop
  | .submitted | .waiting | .admitted => j.status = .queued ∧ Untouched changes
  | .running => j.status = .transferring ∧ Untouched changes
  | .ran r =>
    j.status = .transferring ∧ Untouched changes ∧ ∀ s, r = .moved s → ∃ n, copied n
  | .over =>
    (j.status = .done ∧ ∃ n, copied n ∧ Listed changes j.file.path n.name) ∨
      (∃ f, j.status = .failed f) ∧ Untouched changes

variable {copied : Node → Prop} {changes : List (Namespace × Namespace)} {j : Job} {p : Phase}

theorem Sofar.concat (h : Sofar copied changes j p) (ns : Namespace) :
    Sofar copied (changes ++ [(ns, ns)]) j p := by
  cases p with
  | submitted => exact ⟨h.1, h.2.concat ns⟩
  | waiting => exact ⟨h.1, h.2.concat ns⟩
  | admitted => exact ⟨h.1, h.2.concat ns⟩
  | running => exact ⟨h.1, h.2.concat ns⟩
  | ran r => exact ⟨h.1, h.2.1.concat ns, h.2.2⟩
  | _ =>
    rcases h with ⟨done, n, held, listed⟩ | ⟨failed, clean⟩
    · exact .inl ⟨done, n, held, listed.concat ns⟩
    · exact .inr ⟨failed, clean.concat ns⟩

theorem Untouched.last {ns ns' : Namespace} (h : Untouched (changes ++ [(ns, ns')])) : ns' = ns :=
  h (ns, ns') (by simp)

theorem Untouched.front {x : Namespace × Namespace} (h : Untouched (changes ++ [x])) :
    Untouched changes :=
  fun y mem => h y (List.mem_append_left _ mem)

/-- What a manager makes of a job keeps what has come of it, `start` being the tree before the
turn. -/
theorem Sofar.step {node : Node} {start ns ns' : Namespace} {j' : Job} {q : Phase}
    (reached : ns.Reached) (aim : ∀ n, copied n → n = node)
    (h : Sofar copied (changes ++ [(start, ns)]) j p)
    (step : Manager.JobStep node ns j p q j' ns') :
    ns'.Reached ∧ Sofar copied (changes ++ [(start, ns')]) j' q := by
  cases step with
  | idle p => exact ⟨reached, h⟩
  | admitted => exact ⟨reached, h⟩
  | linedUp => exact ⟨reached, h⟩
  | started _ =>
    have stands : j.status.isTerminal = false := by rw [h.1]; rfl
    exact ⟨reached, Job.transition_of_open stands _, h.2⟩
  | refused _ =>
    have stands : j.status.isTerminal = false := by rw [h.1]; rfl
    exact ⟨reached, .inr ⟨⟨_, Job.transition_of_open stands _⟩, h.2⟩⟩
  | settled r =>
    obtain ⟨status, clean, moved⟩ := h
    have stands : j.status.isTerminal = false := by rw [status]; rfl
    -- until it is settled a job has changed nothing, also not in this turn
    have same : ns = start := clean.last
    rcases Job.settle_cases stands node ns r with ⟨done, ⟨s, eq⟩, listed⟩ | ⟨failed, kept⟩
    · obtain ⟨n, held⟩ := moved s eq
      have entered := reached.wellFormed.addReplica_eq_ok listed
      have path : (j.settle node ns r).1.file.path = j.file.path := by
        rw [(j.settle_same node ns r).1]
      refine ⟨reached.addReplica listed, .inl ⟨done, n, held, changes, ns, [], ?_, ?_, clean.front,
        by simp [Untouched]⟩⟩
      · rw [path, aim n held, entered, same]
      · rw [path]
        exact Namespace.isSome_file?_of_addReplica listed
    · rw [kept]
      exact ⟨reached, .inr ⟨failed, clean⟩⟩

theorem Sofar.of_terminal (h : Sofar copied changes j p) (ended : j.status.isTerminal = true) :
    (j.status = .done ∧ ∃ n, copied n ∧ Listed changes j.file.path n.name) ∨
      (∃ f, j.status = .failed f) ∧ Untouched changes := by
  have stands : ∀ {status : JobStatus}, j.status = status → status.isTerminal = false → False := by
    intro status eq early
    rw [eq, early] at ended
    cases ended
  cases p with
  | submitted => exact (stands h.1 rfl).elim
  | waiting => exact (stands h.1 rfl).elim
  | admitted => exact (stands h.1 rfl).elim
  | running => exact (stands h.1 rfl).elim
  | ran r => exact (stands h.1 rfl).elim
  | _ => exact h

theorem Sofar.of_done (h : Sofar copied changes j p) (done : j.status = .done) :
    ∃ n, copied n ∧ Listed changes j.file.path n.name := by
  rcases h.of_terminal (by rw [done]; rfl) with ⟨-, listed⟩ | ⟨⟨f, failed⟩, -⟩
  · exact listed
  · rw [done] at failed
    cases failed

theorem Sofar.of_failed (h : Sofar copied changes j p) {f : JobFailure}
    (failed : j.status = .failed f) : Untouched changes := by
  rcases h.of_terminal (by rw [failed]; rfl) with ⟨done, -⟩ | ⟨-, clean⟩
  · rw [failed] at done
    cases done
  · exact clean

structure Sound (settings : TransferSettings) (m : ManagerId) (id : JobId) (file : FileEntry)
    (destination : NodeId) (c : Course) : Prop where
  tree : c.service.world.namespace_.Reached
  job : ∃ j p, c.service.Has m id (.remote settings) j p ∧ j.file = file ∧
    j.destination = destination ∧ Sofar (c.Copied j) c.changes j p

variable {settings : TransferSettings} {m : ManagerId} {id : JobId} {file : FileEntry}
  {destination : NodeId} {c c' : Course}

theorem Copied.congr {j' : Job} {n : Node} (h : c.Copied j n) (file : j'.file = j.file)
    (destination : j'.destination = j.destination)
    (fleet : c'.service.world.fleet = c.service.world.fleet)
    (site : c'.service.site = c.service.site) (ends : c'.ends = c.ends) : c'.Copied j' n := by
  refine ⟨?_, ?_⟩
  · rw [fleet, destination]
    exact h.node
  · rw [site, ends, file]
    exact h.bytes

theorem Sofar.imp {copied' : Node → Prop} (h : Sofar copied changes j p)
    (imp : ∀ n, copied n → ∃ n', copied' n' ∧ n'.name = n.name) : Sofar copied' changes j p := by
  cases p with
  | submitted => exact h
  | waiting => exact h
  | admitted => exact h
  | running => exact h
  | ran r =>
    refine ⟨h.1, h.2.1, ?_⟩
    intro s eq
    obtain ⟨n, held⟩ := h.2.2 s eq
    obtain ⟨n', held', -⟩ := imp n held
    exact ⟨n', held'⟩
  | _ =>
    rcases h with ⟨done, n, held, listed⟩ | failed
    · obtain ⟨n', held', name⟩ := imp n held
      rw [← name] at listed
      exact .inl ⟨done, n', held', listed⟩
    · exact .inr failed

theorem Sound.turn (h : c.Sound settings m id file destination) :
    (c.own (c.service.turn (.job m id))).Sound settings m id file destination := by
  obtain ⟨j, p, has, hfile, hdestination, sofar⟩ := h.job
  -- a turn is one change of the tree, counted from how the tree stood before the turn
  have kept : Service.Kept (c.service.nodeOf j) j.destination fun p j' ns => ns.Reached ∧
      Sofar (c.Copied j) (c.changes ++ [(c.service.world.namespace_, ns)]) j' p := by
    intro p q j₁ j₂ ns ns' _ now step
    refine now.2.step now.1 ?_ step
    intro n held
    rw [Service.nodeOf, held.node, Option.getD_some]
  have stands : Service.Stands c.service c.service m id (.remote settings) j fun p j' ns =>
      ns.Reached ∧ Sofar (c.Copied j) (c.changes ++ [(c.service.world.namespace_, ns)]) j' p :=
    ⟨⟨p, j, has, rfl, rfl, h.tree, sofar.concat _⟩, rfl, rfl⟩
  have turned := stands.turn kept
  obtain ⟨q, j', has', file', destination', reached, now⟩ := turned.has
  refine ⟨reached, j', q, has', file'.trans hfile, destination'.trans hdestination, ?_⟩
  apply now.imp
  intro n held
  exact ⟨n, held.congr file' destination' turned.fleet turned.site rfl, rfl⟩

theorem Sound.copy (h : c.Sound settings m id file destination) {j : Job}
    (job : c.service.jobs[id]? = some j) (running : c.service.phase? m id = some .running)
    (apart : RemoteCopy.Apart c.service.site c.service.world.fleet j) :
    Sound settings m id file destination { c.own (c.service.turn (.runner m id)) with
      ends := RemoteCopy.ends c.service.world.fleet j } := by
  obtain ⟨j', p, has, hfile, hdestination, sofar⟩ := h.job
  have same : j' = j := Option.some.inj (has.job.symm.trans job)
  have phase : p = .running := Option.some.inj (has.phase.symm.trans running)
  subst same phase
  obtain ⟨has', world, site⟩ := has.copied
  refine ⟨?_, j', _, has', hfile, hdestination, sofar.1, ?_, ?_⟩
  · change Namespace.Reached (c.service.turn _).world.namespace_
    rw [world]
    exact h.tree
  · change Untouched (c.changes ++ [(_, (c.service.turn _).world.namespace_)])
    rw [world]
    exact sofar.2.concat _
  · intro status eq
    cases ran : RemoteCopy.run c.service.site c.service.world.fleet settings j' with
    | mk left result =>
      rw [ran] at eq site
      cases result with
      | error e => cases eq
      | ok s =>
        -- only a copy reported as made is heard of as `moved`, and such a copy has moved all bytes
        obtain ⟨a, b, content, ends, source, source', stored⟩ := RemoteCopy.run_eq_ok apart ran
        obtain ⟨n, node, address⟩ := RemoteCopy.ends_eq_some ends
        refine ⟨n, ?_, a, b, content, ends, (apart a b ends).1, address, ?_, ?_⟩
        · change (c.service.turn _).world.fleet.node? _ = _
          rw [world, node]
        · change (c.service.turn _).site.file? _ _ = _
          rw [site, source']
        · change (c.service.turn _).site.file? _ _ = _
          rw [site, stored]

theorem Sound.around (h : c.Sound settings m id file destination) {s : Service}
    (around : c.Around m id s) : Sound settings m id file destination { c with service := s } := by
  obtain ⟨j, p, has, hfile, hdestination, sofar⟩ := h.job
  -- what was copied stays: both ends keep the file, and the node keeps its name and address
  have later : Sofar (Copied { c with service := s } j) c.changes j p := by
    apply sofar.imp
    intro n held
    obtain ⟨n', node, name, address⟩ := around.nodes _ n held.node
    obtain ⟨a, b, content, ends, ne, hget, source, stored⟩ := held.bytes
    obtain ⟨first, second⟩ := around.files j a b has.job ends
    refine ⟨n', ⟨node, a, b, content, ends, ne, address.trans hget, ?_, ?_⟩, name⟩
    · exact second.trans source
    · exact first.trans stored
  refine ⟨around.tree, j, ?_⟩
  rcases around.job _ j p has with stays | ⟨waiting, admitted⟩
  · exact ⟨p, stays, hfile, hdestination, later⟩
  · subst waiting
    exact ⟨.admitted, admitted, hfile, hdestination, later⟩

theorem Sound.step (h : c.Sound settings m id file destination) (step : Step m id c c') :
    c'.Sound settings m id file destination := by
  cases step with
  | turn => exact h.turn
  | copy job running apart => exact h.copy job running apart
  | around others => exact h.around others

theorem Sound.run (h : c.Sound settings m id file destination)
    (run : Relation.ReflTransGen (Step m id) c c') :
    c'.Sound settings m id file destination := by
  induction run with
  | refl => exact h
  | tail _ step ih => exact ih.step step

theorem Sound.start {s : Service} (submitted : s.Has m id (.remote settings) j .submitted)
    (queued : j.status = .queued) (tree : s.world.namespace_.Reached) :
    Sound settings m id j.file j.destination { service := s } := by
  refine ⟨tree, j, .submitted, submitted, rfl, rfl, queued, ?_⟩
  intro x mem
  cases mem

end Course

/-- Whatever happens around a job, if it ends as done its destination has the file of its source
byte for byte and the job has listed that destination for the file and done nothing else to the
tree; if it fails it has done nothing to the tree. -/
theorem course_copied (settings : TransferSettings) (m : ManagerId) (id : JobId)
    (s : Service) (j : Job) (submitted : s.Has m id (.remote settings) j .submitted)
    (queued : j.status = .queued) (tree : s.world.namespace_.Reached) (c : Course)
    (run : Relation.ReflTransGen (Course.Step m id) { service := s } c) :
    ∃ j', c.service.jobs[id]? = some j' ∧ j'.file = j.file ∧ j'.destination = j.destination ∧
      (j'.status = .done →
        ∃ n, c.Copied j' n ∧ Course.Listed c.changes j.file.path n.name) ∧
      ∀ f, j'.status = .failed f → Course.Untouched c.changes := by
  obtain ⟨-, j', p, has, file, destination, sofar⟩ :=
    (Course.Sound.start submitted queued tree).run run
  refine ⟨j', has.job, file, destination, ?_, ?_⟩
  · intro done
    obtain ⟨n, copied, listed⟩ := sofar.of_done done
    rw [file] at listed
    exact ⟨n, copied, listed⟩
  · intro f failed
    exact sofar.of_failed failed

def firstNode : SocketAddress := .v4 127 0 0 1 7100

def secondNode : SocketAddress := .v4 127 0 0 1 7101

def outdatedJob : Job := { file := ⟨"/rls/a", 3, ["n1"]⟩, destination := 1, priority := 0 }

def copyingJob : Job := { outdatedJob with status := .transferring }

def outdated : Service where
  world := {
    clock := default
    namespace_ := Namespace.empty.addFile 0 "/rls/a" 3 ["n1"]
    fleet := {
      joined := [{ name := "n1", free := 0, address := some firstNode },
        { name := "n2", free := 0, address := some secondNode }]
      members := [0, 1] } }
  site := {
    reach := .loopback
    hosts := [
      (firstNode, .node ⟨.localhost, .any, {}⟩ (Storage.empty.add "/rls/a" [1, 2, 3])),
      (secondNode, .node ⟨.localhost, .any, {}⟩ (Storage.empty.add "/rls/a" [9, 9, 9, 9, 9]))] }
  jobs := [outdatedJob]
  managers := [({ maxJobs := 1, jobs := [(0, .submitted)] }, .remote {})]

def letIn : Course := Course.own { service := outdated } (outdated.turn (.job 0 0))

def carried : Course :=
  { letIn.own (letIn.service.turn (.runner 0 0)) with ends := some (secondNode, firstNode) }

def grown : Course :=
  let ns := carried.service.world.namespace_.addFile 1 "/rls/b" 1 ["n1"]
  { carried with service := carried.service.setNamespace ns }

def updated : Course := grown.own (grown.service.turn (.job 0 0))

theorem outdated_has : outdated.Has 0 0 (.remote {}) outdatedJob .submitted := ⟨⟨_, rfl, rfl⟩, rfl⟩

theorem outdated_reached : outdated.world.namespace_.Reached := .addFile _ _ _ _ .empty

theorem updated_course :
    Relation.ReflTransGen (Course.Step 0 0) { service := outdated } updated := by
  have first : Course.Step 0 0 { service := outdated } letIn := .turn _
  have second : Course.Step 0 0 letIn carried := by
    have job : letIn.service.jobs[0]? = some copyingJob := rfl
    have ends : RemoteCopy.ends letIn.service.world.fleet copyingJob =
        some (secondNode, firstNode) := by decide +kernel
    have apart : RemoteCopy.Apart letIn.service.site letIn.service.world.fleet copyingJob := by
      intro a b both
      rw [ends] at both
      cases both
      decide +kernel
    have step := Course.Step.copy (m := 0) letIn job rfl apart
    rw [ends] at step
    exact step
  have halfway := (Relation.ReflTransGen.single first).tail second
  have third : Course.Step 0 0 carried grown := by
    have sound := (Course.Sound.start outdated_has rfl outdated_reached).run halfway
    exact .around carried (Course.around_setNamespace carried (.addFile _ _ _ _ sound.tree))
  have fourth : Course.Step 0 0 grown updated := .turn _
  exact (halfway.tail third).tail fourth

theorem course_copied_outdated :
    outdated.site.file? secondNode "/rls/a" = some [9, 9, 9, 9, 9] ∧
    updated.service.site.file? secondNode "/rls/a" = some [1, 2, 3] ∧
    ∃ j, updated.service.jobs[0]? = some j ∧ j.status = .done ∧
      Course.Listed updated.changes "/rls/a" "n2" := by
  obtain ⟨j, job, -, destination, done, -⟩ := course_copied {} 0 0 outdated outdatedJob
    outdated_has rfl outdated_reached updated updated_course
  have status : j.status = .done := by
    have ended : (updated.service.jobs[0]?).map (·.status) = some .done := by decide +kernel
    rw [job] at ended
    exact Option.some.inj ended
  obtain ⟨n, held, listed⟩ := done status
  have name : n.name = "n2" := by
    have node := held.node
    rw [destination] at node
    change updated.service.world.fleet.node? 1 = some n at node
    have second : (updated.service.world.fleet.node? 1).map (·.name) = some "n2" := by
      decide +kernel
    rw [node] at second
    exact Option.some.inj second
  rw [name] at listed
  exact ⟨by decide +kernel, by decide +kernel, j, job, status, listed⟩

end Archivist
