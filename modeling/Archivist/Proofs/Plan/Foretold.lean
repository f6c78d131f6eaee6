import Archivist.Proofs.Placement.Progress
import Archivist.Proofs.Plan.Handed
set_option autoImplicit false

/-!
# A plan foretells the run

A run asks its policy for the same things in the same order as a plan does.  Between the first two
it registers, and none of the answers depends on that.  So a run that starts from the world of the
plan ends as the plan says, or hands in what the plan says, whatever goes on later.
-/

namespace Archivist

namespace Snapshot

variable (snapshot : Snapshot) (clock : Clock)

theorem registry_addFiles (fs : List ListedFile) (w : World) :
    (fs.foldl addFile w).registry = w.registry := by
  induction fs generalizing w with
  | nil => rfl
  | cons f fs ih =>
    rw [List.foldl_cons, ih]
    rfl

theorem registry_build : (snapshot.build clock).registry.entries = [] := by
  unfold build
  dsimp only
  rw [registry_addFiles]

theorem reached_build : (snapshot.build clock).namespace_.Reached := by
  have directories : ∀ (now : Instant) (ds : List ListedDirectory) (ns : Namespace), ns.Reached →
      (ds.foldl (addDirectory now) ns).Reached := by
    intro now ds
    induction ds with
    | nil => exact fun ns reached => reached
    | cons d ds ih => exact fun ns reached => ih _ (.makeDirs _ _ reached)
  have files : ∀ (fs : List ListedFile) (w : World), w.namespace_.Reached →
      (fs.foldl addFile w).namespace_.Reached := by
    intro fs
    induction fs with
    | nil => exact fun w reached => reached
    | cons f fs ih => exact fun w reached => ih _ (.addFile _ _ _ _ reached)
  exact files _ _ (directories _ _ _ .empty)

theorem built_build : (snapshot.build clock).fleet.Built := by
  have joined : ∀ (ns : List Node) (f : Fleet), f.Built →
      (ns.foldl (fun f n => (f.add n).1) f).Built := by
    intro ns
    induction ns with
    | nil => exact fun f built => built
    | cons n ns ih => exact fun f built => ih _ (.add n built)
  exact joined snapshot.nodes {} .empty

end Snapshot

namespace Policy

theorem freeze_eq_ok {p q : Policy} {ids : List NodeId} (h : p.freeze ids = .ok q) :
    ids ≠ [] ∧ q = { p with destinations := some ids } := by
  unfold freeze at h
  split at h
  · cases h
  · rename_i some
    split at h
    · cases h
    · cases h
      exact ⟨by simpa using some, rfl⟩

end Policy

namespace Service

/-- A run that is new in `s` does in its first stages what a plan for a directory says: it registers
for the directory, fixes the nodes and then makes the copies its jobs, which its executor gets. -/
structure Follows (s : Service) (id : RunId) (x : Executor) (plan : SectionPlan) (d : Dir) :
    Prop where
  registered : (s.after id 2).world.registry.entries =
    [⟨.run id, plan.sectionName, d, s.world.clock.now⟩]
  frozen : ∃ run q nodes, (s.after id 3).runs[id]? = some run ∧
    (s.after id 3).policies[run.policy]? = some q ∧ q.directory = some d ∧
    q.destinations = some nodes ∧ nodes.map s.world.fleet.nameOf = plan.destinations
  handed : ∃ run js, js.map (fun j => (j.file.path, s.world.fleet.nameOf j.destination)) =
      plan.copies ∧ (∀ j ∈ js, j.status = .queued) ∧
    (s.after id 4).runs[id]? = some run ∧ run.jobs = s.numbers js ∧ s.Handed (s.after id 4) x js

/-- How a run stands to what a plan has told. -/
structure Foretold (answer : Except ArchiveError SectionPlan) (run : Run) : Prop where
  noDirectory : run.handler.outcome = some .noDirectory ↔
    ∃ plan, answer = .ok plan ∧ plan.directory = none
  noDestination : ∀ d, run.handler.outcome = some (.noDestination d) ↔
    ∃ plan, answer = .ok plan ∧ plan.directory = some d ∧ plan.destinations = []
  failed : ∀ fault, (∃ d, run.handler.outcome = some (.failed d fault)) ∧ run.jobs = [] ↔
    ∃ err, fault = .error err ∧ answer = .error err

variable {s : Service} {id : RunId} {run : Run} {p : Policy} {w : World}

theorem foretold_of_failed {d : Option Dir} {err : ArchiveError} (jobs : run.jobs = [])
    (out : Handler.Published (.failed d (.error err)) run.handler) :
    Foretold (.error err) run where
  noDirectory := by simp [out.outcome]
  noDestination := by simp [out.outcome]
  failed := by
    intro fault
    simp [out.outcome, jobs, eq_comm]

theorem foretold_of_idle {plan : SectionPlan} (none : plan.directory = none)
    (out : Handler.Published .noDirectory run.handler) : Foretold (.ok plan) run where
  noDirectory := by simp [out.outcome, none]
  noDestination := by simp [out.outcome, none]
  failed := by simp [out.outcome]

theorem foretold_of_alone {plan : SectionPlan} {d : Dir} (directory : plan.directory = some d)
    (alone : plan.destinations = []) (out : Handler.Published (.noDestination d) run.handler) :
    Foretold (.ok plan) run where
  noDirectory := by simp [out.outcome, directory]
  noDestination := by simp [out.outcome, directory, alone]
  failed := by simp [out.outcome]

theorem foretold_of_handed {plan : SectionPlan} {d : Dir} (directory : plan.directory = some d)
    (nodes : plan.destinations ≠ [])
    (worked : ∀ o, run.handler.outcome = some o → Handler.Worked o)
    (failed : ∀ d fault, run.handler.outcome = some (.failed d fault) → run.jobs ≠ []) :
    Foretold (.ok plan) run where
  noDirectory := by
    constructor
    · intro out
      exact (worked _ out).elim
    · rintro ⟨_, eq, none⟩
      cases eq
      rw [directory] at none
      cases none
  noDestination := by
    intro d
    constructor
    · intro out
      exact (worked _ out).elim
    · rintro ⟨_, eq, -, alone⟩
      cases eq
      exact absurd alone nodes
  failed := by
    intro fault
    constructor
    · rintro ⟨⟨d, out⟩, none⟩
      exact absurd none (failed d fault out)
    · rintro ⟨err, -, eq⟩
      cases eq

theorem handed_of_late (h : Handler) (late : h.Late) : h.stage ≠ .destinationsResolved := by
  rcases late.stage with eq | eq | eq | eq <;> simp [eq]

theorem turn_eq_after {name : String} {pid : PolicyId} {x : Executor}
    (h : s.At id (freshRun id name pid x) p w) : s.turn (.run id) = s.after id stages := by
  change s.goOn id = _
  unfold goOn
  rw [h.going]
  rfl

theorem later_of_keeps {js : List JobId} {I : Handler → Prop} {k : Nat} (within : k ≤ stages)
    (turned : s.turn (.run id) = s.after id stages)
    (kept : ∀ r h e, I h → I (h.react r e).2)
    (handed : ∀ h, I h → h.stage ≠ .destinationsResolved) (h : (s.after id k).Keeps id js I)
    (ts : List Task) : (ts.foldl turn (s.turn (.run id))).Keeps id js I := by
  obtain ⟨rest, eq⟩ := Nat.exists_eq_add_of_le within
  rw [turned, eq, after_add]
  exact Keeps.turns kept handed (h.after kept handed rest) ts

theorem later_of_published {js : List JobId} {o : Outcome} (k : Nat) (within : k ≤ stages)
    (turned : s.turn (.run id) = s.after id stages)
    (h : (s.after id k).Keeps id js (Handler.Published o)) (ts : List Task) :
    (ts.foldl turn (s.turn (.run id))).Keeps id js (Handler.Published o) :=
  later_of_keeps within turned (fun r _ e out => out.react r e) handed_of_published h ts

theorem At.fate {sec : Section} {pid : PolicyId} {x : Executor}
    (h : s.At id (freshRun id sec.name pid x) { section_ := sec } w)
    (empty : w.registry.entries = []) {answer : Except ArchiveError SectionPlan}
    (planned : Policy.Planned { section_ := sec } w answer) (ts : List Task) :
    ∃ run, (ts.foldl turn (s.turn (.run id))).runs[id]? = some run ∧ Foretold answer run := by
  have turned := turn_eq_after h
  obtain ⟨unselected, idle, selected⟩ := h.selected rfl
  cases planned with
  | unselected err next =>
    obtain ⟨run, going, jobs, out⟩ :=
      later_of_published 3 (by decide) turned (unselected err next) ts
    exact ⟨run, going, foretold_of_failed jobs out⟩
  | idle next =>
    obtain ⟨run, going, -, out⟩ := later_of_published 3 (by decide) turned (idle next) ts
    exact ⟨run, going, foretold_of_idle rfl out⟩
  | unresolved d err next find =>
    have registered := (selected d next).registered empty
    rw [← after_succ] at registered
    obtain ⟨unresolved, -, -⟩ := registered.resolved rfl
    obtain ⟨run, going, jobs, out⟩ :=
      later_of_published 5 (by decide) turned (unresolved err find) ts
    exact ⟨run, going, foretold_of_failed jobs out⟩
  | alone d next find =>
    have registered := (selected d next).registered empty
    rw [← after_succ] at registered
    obtain ⟨-, alone, -⟩ := registered.resolved rfl
    obtain ⟨run, going, -, out⟩ := later_of_published 5 (by decide) turned (alone find) ts
    exact ⟨run, going, foretold_of_alone rfl rfl out⟩
  | unfrozen d nodes err next find freeze =>
    have registered := (selected d next).registered empty
    rw [← after_succ] at registered
    obtain ⟨-, -, found⟩ := registered.resolved rfl
    obtain ⟨run, going, jobs, out⟩ :=
      later_of_published 5 (by decide) turned ((found nodes find).1 err freeze) ts
    exact ⟨run, going, foretold_of_failed jobs out⟩
  | unsent d nodes q err next find freeze send =>
    have registered := (selected d next).registered empty
    rw [← after_succ] at registered
    obtain ⟨-, -, found⟩ := registered.resolved rfl
    have failed := ((found nodes find).2 q freeze).sends.1 err send
    rw [← after_succ, ← after_add] at failed
    obtain ⟨run, going, jobs, out⟩ := later_of_published _ (by decide) turned failed ts
    exact ⟨run, going, foretold_of_failed jobs out⟩
  | sent d nodes q js next find freeze send =>
    have registered := (selected d next).registered empty
    rw [← after_succ] at registered
    obtain ⟨-, -, found⟩ := registered.resolved rfl
    have resolved := (found nodes find).2 q freeze
    have some : nodes.map (·.node.name) ≠ [] := by
      have ids := (Policy.freeze_eq_ok freeze).1
      simpa using ids
    cases js with
    | nil =>
      obtain ⟨report, completed⟩ := resolved.completed send
      rw [← after_succ, ← after_add] at completed
      obtain ⟨run, going, -, out⟩ := later_of_published _ (by decide) turned completed ts
      refine ⟨run, going, foretold_of_handed rfl some ?_ ?_⟩
      · intro o told
        rw [out.outcome] at told
        cases told
        trivial
      · intro d fault told
        rw [out.outcome] at told
        cases told
    | cons j js =>
      have late := late_of_handIn resolved.going (j :: js)
      rw [← resolved.sends.2 _ send, ← after_succ, ← after_succ] at late
      obtain ⟨run, going, jobs, late⟩ := later_of_keeps (by decide) turned
        (fun r _ e late => late.react r e) handed_of_late late ts
      refine ⟨run, going, foretold_of_handed rfl some late.outcome ?_⟩
      intro d fault _
      rw [jobs]
      simp [addJobs]

theorem At.follows {sec : Section} {pid : PolicyId} {x : Executor}
    (h : s.At id (freshRun id sec.name pid x) { section_ := sec } w)
    (empty : w.registry.entries = []) (built : w.fleet.Built) (wf : w.namespace_.WellFormed)
    (pos : 1 ≤ sec.copies) {plan : SectionPlan}
    (planned : Policy.Planned { section_ := sec } w (.ok plan)) {d : Dir}
    (directory : plan.directory = some d) (some : plan.destinations ≠ []) :
    s.Follows id x plan d := by
  obtain ⟨-, -, selected⟩ := h.selected rfl
  have world := h.world
  cases planned with
  | idle next => cases directory
  | alone d' next find => exact absurd rfl some
  | sent d' nodes q js next find freeze send =>
    cases directory
    have chosen := selected d next
    have registered := chosen.registered empty
    obtain ⟨-, -, found⟩ := registered.resolved rfl
    have resolved := (found nodes find).2 q freeze
    obtain ⟨-, -, -, -, -, choice⟩ := Policy.find_eq_some built pos find
    obtain ⟨-, fixed⟩ := Policy.freeze_eq_ok freeze
    have same : s.SameWork (s.after id 3) :=
      ((h.sameWork (by simp [freshRun]) (by simp [freshRun])).trans
        (chosen.sameWork (by simp [selectedFor]) (by simp [selectedFor]))).trans
          (registered.sameWork (by simp [registeredFor]) (by simp [registeredFor]))
    rw [← after_succ] at registered
    rw [← after_succ, ← after_succ] at resolved
    have handsIn : s.after id 4 = _ := (after_succ s id 3).trans (resolved.sends.2 js send)
    have going := going_tell (going_handIn resolved.going js) .submitted
    rw [← handsIn] at going
    refine ⟨?_, ⟨_, q, nodes.map (·.id), resolved.going, resolved.policy, ?_, ?_, ?_⟩,
      ⟨_, js, ?_, fun j hj => Policy.queued_of_send send hj, going, ?_, ?_⟩⟩
    · rw [registered.world, world]
      rfl
    · rw [fixed]
      rfl
    · rw [fixed]
    · rw [world, List.map_map]
      apply List.map_congr_left
      intro m mem
      exact (Policy.nameOf_of_choice choice mem).1
    · rw [world]
    · rw [snd_addJobs]
      exact congrArg (fun jobs => List.range' jobs.length js.length) same.jobs
    · have recorded := Policy.record_send (w := registeredIn w id sec.name d) wf send
      rw [← resolved.world] at recorded
      have handed := handed_handIn id (resolvedRun id sec.name pid x d) fun _ => recorded
      rw [handsIn]
      exact same.handed (handed.tell id .submitted)

end Service

/-- A section is planned and then run on the world of a snapshot, both with a policy that is new and
wants at least one node.  The plan leaves the world as it is.  Whatever goes on after the first turn
of the run: it ends without a directory exactly if the plan is without one; it ends without nodes for
a directory exactly if the plan has that directory and no nodes; and it fails without having handed
in a job exactly if the plan fails, with the same error.  If the plan has nodes, the run registers
for its directory, fixes its nodes and then its new jobs are the planned copies and its executor has
got them, in the same order. -/
theorem plan_foretold (snapshot : Snapshot) (clock : Clock) (sec : Section)
    (positive : 1 ≤ sec.copies) (s : Service) (pid : PolicyId) (x : Executor)
    (built : s.world = snapshot.build clock)
    (fresh : s.policies[pid]? = some { section_ := sec }) :
    let p : Policy := { section_ := sec }
    let answer := p.plan s.world
    let id := s.runs.length
    let t := (s.spawn pid x).1
    (s.plan pid p).2 = answer ∧ (s.plan pid p).1.world = s.world ∧
    t.turn (.run id) = t.after id Service.stages ∧
    (∀ plan d, answer = .ok plan → plan.directory = some d → plan.destinations ≠ [] →
      t.Follows id x plan d) ∧
    ∀ ts : List Task, ∃ run, (ts.foldl Service.turn (t.turn (.run id))).runs[id]? = some run ∧
      Service.Foretold answer run := by
  intro p answer id t
  have started := Service.at_spawn fresh x
  have planned : Policy.Planned p s.world answer := Policy.planned rfl s.world
  have empty : s.world.registry.entries = [] := by
    rw [built, Snapshot.registry_build]
  have joined : s.world.fleet.Built := by
    rw [built]
    exact Snapshot.built_build snapshot clock
  have reached : s.world.namespace_.Reached := by
    rw [built]
    exact Snapshot.reached_build snapshot clock
  obtain ⟨same, left⟩ := Service.plan_eq (s := s) (p := p) rfl pid
  refine ⟨same, left, Service.turn_eq_after started, ?_, started.fate empty planned⟩
  intro plan d told directory some
  rw [told] at planned
  exact started.follows empty joined reached.wellFormed positive planned directory some

def pictured : Snapshot where
  nodes := [{ name := "n1", free := 10 }, { name := "n2", free := 5 }]
  files := [{ path := "/rls/T/a", size := 1, holders := ["n1"] }]

def picturedSection : Section :=
  { name := "rls", path := Dir.ofText "/rls", placement := .mostFree, copies := 2 }

def picturedService : Service where
  world := pictured.build Clock.standard
  site := { reach := .loopback }
  policies := [{ section_ := picturedSection }]

theorem plan_foretold_pictured :
    let plan : SectionPlan :=
      { sectionName := "rls", directory := some (Dir.ofText "/rls/T"), destinations := ["n1", "n2"],
        copies := [("/rls/T/a", "n2")] }
    let s := (picturedService.spawn 0 .gated).1
    Policy.plan { section_ := picturedSection } picturedService.world = .ok plan ∧
      s.Follows 0 .gated plan (Dir.ofText "/rls/T") ∧
      (s.after 0 4).jobs.length = 1 ∧ (s.after 0 4).held = [0] := by
  intro plan s
  have told : Policy.plan { section_ := picturedSection } picturedService.world = .ok plan := by
    decide +kernel
  obtain ⟨-, -, -, follows, -⟩ := plan_foretold pictured Clock.standard picturedSection
    (by decide) picturedService 0 .gated rfl rfl
  have followed := follows plan _ told rfl (by simp [plan])
  obtain ⟨run, js, copies, -, -, -, handed⟩ := followed.handed
  have handed : s.Handed (s.after 0 4) .gated js := handed
  have one : js.length = 1 := by simpa [plan] using congrArg List.length copies
  refine ⟨told, followed, ?_, ?_⟩
  · have jobs : s.jobs = [] := rfl
    rw [handed.jobs, jobs, List.nil_append, List.length_map, one]
  · have held : s.held ++ List.range' s.jobs.length 1 = [0] := rfl
    rw [handed.held, if_pos rfl, Service.numbers, one, held]

end Archivist
