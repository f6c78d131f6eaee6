import Archivist.Proofs.Jobs.Marks
import Archivist.Proofs.Runs.Party
set_option autoImplicit false

namespace Archivist

namespace Policy

/-- Nothing is remembered from a run. -/
structure Idle (p : Policy) : Prop where
  directory : p.directory = none
  destinations : p.destinations = none

theorem destinations_setDirectory {p : Policy} (h : p.destinations = none) (d : Option Dir) :
    (p.setDirectory d).destinations = none := by
  unfold setDirectory
  dsimp only
  split
  · exact h
  · rfl

theorem idle_setDirectory {p : Policy} (h : p.directory ≠ none ∨ p.destinations = none) :
    (p.setDirectory none).Idle := by
  refine ⟨rfl, ?_⟩
  rcases h with held | unfixed
  · exact if_neg held
  · exact destinations_setDirectory unfixed none

/-- The search for nodes, where `look` tells which there are for a directory. -/
def findOn (p : Policy) (look : Dir → Search (Option (List Member))) :
    Search (Option (List Member)) :=
  match p.finder with
  | .broken => .panicked
  | .failing => .error (.namespace (.other "placement lookup failed"))
  | .placement =>
    match p.requireDirectory with
    | .error e => .error e
    | .ok d => look d

def lookIn (p : Policy) (w : World) (d : Dir) : Search (Option (List Member)) :=
  let nodes := p.eligible w
  match p.section_.placement with
  | .mostFree =>
    match p.files w.namespace_ d with
    | .error e => .error e
    | .ok fs => .answer (Destination.byFreeSpace p.section_ fs nodes nodes)
  | .affinity =>
    if nodes.length < p.section_.copies then .answer none
    else
      match p.files w.namespace_ d with
      | .error e => .error e
      | .ok fs => .answer (Destination.byAffinity p.section_ fs nodes nodes nodes)

theorem find_eq_findOn (p : Policy) (w : World) : p.find w = p.findOn (p.lookIn w) := by
  unfold find findOn
  cases p.finder with
  | broken => rfl
  | failing => rfl
  | placement => cases p.requireDirectory <;> rfl

def report (p : Policy) (d : Dir) (jobs : List Job) (archived : Bool) (movedTo : Option Dir) :
    Report where
  sectionName := p.section_.name
  directory := d
  done := (jobs.filter (·.status = .done)).length
  failed := (jobs.filter fun j => match j.status with
    | .failed _ => true
    | _ => false).length
  archived := archived
  movedTo := movedTo

/-- The judgement of a run, where it is told whether the directory is archived and whether it can be
moved. -/
def cleanupOn (p : Policy) (archived : Dir → Except ArchiveError Bool) (moves : Dir → Dir → Bool)
    (jobs : List Job) : Except ArchiveError (Policy × Report) := do
  let d ← p.requireDirectory
  let archived ← archived d
  let movedTo := match archived, p.section_.target with
    | true, some target => if moves d (target.join d.name) then some (target.join d.name) else none
    | _, _ => none
  return (p.clear, p.report d jobs archived movedTo)

def movesIn (w : World) (d new : Dir) : Bool := (w.namespace_.rename w.clock.now d new).toBool

theorem cleanup_eq_cleanupOn (p : Policy) (w : World) (jobs : List Job) :
    (p.cleanup w jobs).map (fun x => (x.1, x.2.2)) =
      p.cleanupOn (p.isArchived w) (movesIn w) jobs := by
  unfold cleanup cleanupOn
  cases p.requireDirectory with
  | error e => rfl
  | ok d =>
    dsimp only [bind, Except.bind]
    cases p.isArchived w d with
    | error e => rfl
    | ok archived =>
      dsimp only
      cases archived with
      | false => rfl
      | true =>
        cases p.section_.target with
        | none => rfl
        | some target =>
          dsimp only [Clock.read]
          split
          · rename_i ns moved
            have moves : movesIn w d (target.join d.name) = true := congrArg Except.toBool moved
            rw [moves]
            rfl
          · rename_i e stays
            have moves : movesIn w d (target.join d.name) = false := congrArg Except.toBool stays
            rw [moves]
            rfl

theorem done_add_failed {jobs : List Job} (ended : ∀ j ∈ jobs, j.isDone = true) (p : Policy)
    (d : Dir) (archived : Bool) (movedTo : Option Dir) :
    (p.report d jobs archived movedTo).done + (p.report d jobs archived movedTo).failed =
      jobs.length := by
  unfold report
  dsimp only
  induction jobs with
  | nil => rfl
  | cons j jobs ih =>
    have rest := ih fun x hx => ended x (List.mem_cons_of_mem _ hx)
    have closed := ended j List.mem_cons_self
    unfold Job.isDone JobStatus.isTerminal at closed
    cases status : j.status with
    | queued => simp [status] at closed
    | transferring => simp [status] at closed
    | done =>
      simp only [List.filter_cons, status, decide_true, if_true, Bool.false_eq_true, if_false,
        List.length_cons]
      omega
    | failed f =>
      simp only [List.filter_cons, status, reduceCtorEq, decide_false, Bool.false_eq_true, if_false,
        if_true, List.length_cons]
      omega

end Policy

namespace Handler

def selectOn (p : Policy) (next : Except ArchiveError (Option Dir)) : Policy × HandlerEvent :=
  match p.directory with
  | some d => (p, .selected d)
  | none =>
    match next with
    | .ok (some d) => (p.setDirectory (some d), .selected d)
    | .ok none => (p, .nothingToDo)
    | .error e => dropped p e

def settle (p : Policy) : Search (Option (List Member)) → Policy × HandlerEvent
  | .panicked => (p, .panicked)
  | .error e => dropped p e
  | .answer none => (p.setDirectory none, .noNodes)
  | .answer (some nodes) =>
    match p.freeze (nodes.map (·.id)) with
    | .ok p => (p, .resolved)
    | .error e => dropped p e

def resolveOn (p : Policy) (look : Dir → Search (Option (List Member))) : Policy × HandlerEvent :=
  if p.destinations.isSome then (p, .resolved) else settle p (p.findOn look)

def concludeOn (p : Policy) (archived : Dir → Except ArchiveError Bool) (moves : Dir → Dir → Bool)
    (jobs : List Job) : Policy × HandlerEvent :=
  match p.cleanupOn archived moves jobs with
  | .ok (p, report) => (p, .cleaned report)
  | .error e => dropped p e

theorem select_eq_selectOn (p : Policy) (w : World) :
    select p w = selectOn p (p.next w w.clock.now) := rfl

theorem resolve_eq_resolveOn (p : Policy) (w : World) :
    resolve p w = resolveOn p (p.lookIn w) := by
  unfold resolveOn
  rw [← Policy.find_eq_findOn]
  rfl

theorem conclude_eq_concludeOn (p : Policy) (w : World) (jobs : List Job) :
    ((conclude p w jobs).1, (conclude p w jobs).2.2) =
      concludeOn p (p.isArchived w) (Policy.movesIn w) jobs := by
  unfold conclude concludeOn
  rw [← Policy.cleanup_eq_cleanupOn]
  cases p.cleanup w jobs with
  | ok x => rfl
  | error e => rfl

/-- The run stands at a stage, and its end is not known yet. -/
structure IsAt (h : Handler) (s : Stage) : Prop where
  unended : h.ending = none
  stage : h.stage = s

instance (h : Handler) (s : Stage) : Decidable (h.IsAt s) :=
  decidable_of_iff (h.ending = none ∧ h.stage = s) ⟨fun x => ⟨x.1, x.2⟩, fun x => ⟨x.1, x.2⟩⟩

end Handler

structure Round where
  policy : Policy
  handler : Handler
  jobs : List Job := []

/-- What can happen in a run: its stages, the answers that they get, and what others do to its
jobs. -/
inductive Round.Move where
  | select (next : Except ArchiveError (Option Dir))
  | register (r : Registry) (since : Instant)
  | resolve (look : Dir → Search (Option (List Member)))
  | send (w : World)
  | mark (k : Nat) (m : Mark)
  | wait
  | jobsEnded
  | conclude (archived : Dir → Except ArchiveError Bool) (moves : Dir → Dir → Bool)
  | panic
  | cancel
  | letGo
  | publish

namespace Round

def Fits (a : Round) : Move → Prop
  | .select _ => a.handler.IsAt .start
  | .register _ _ => a.handler.IsAt .directorySelected
  | .resolve _ => a.handler.IsAt .registered
  | .send _ => a.handler.IsAt .destinationsResolved
  | .mark _ _ => True
  | .wait => a.handler.IsAt .jobsSubmitted
  | .jobsEnded => a.handler.IsAt .waiting ∧ ∀ j ∈ a.jobs, j.isDone = true
  | .conclude _ _ => a.handler.IsAt .cleanup
  | .panic | .cancel => a.handler.ending = none ∧ a.handler.stage ≠ .done
  | .letGo => a.handler.ending.isSome = true ∧ a.handler.slot.isSome = true
  | .publish => a.handler.ending.isSome = true ∧ a.handler.slot = none

instance (a : Round) : DecidablePred a.Fits := fun m =>
  match m with
  | .select _ => inferInstanceAs (Decidable (a.handler.IsAt .start))
  | .register _ _ => inferInstanceAs (Decidable (a.handler.IsAt .directorySelected))
  | .resolve _ => inferInstanceAs (Decidable (a.handler.IsAt .registered))
  | .send _ => inferInstanceAs (Decidable (a.handler.IsAt .destinationsResolved))
  | .mark _ _ => .isTrue trivial
  | .wait => inferInstanceAs (Decidable (a.handler.IsAt .jobsSubmitted))
  | .jobsEnded =>
    inferInstanceAs (Decidable (a.handler.IsAt .waiting ∧ ∀ j ∈ a.jobs, j.isDone = true))
  | .conclude _ _ => inferInstanceAs (Decidable (a.handler.IsAt .cleanup))
  | .panic | .cancel =>
    inferInstanceAs (Decidable (a.handler.ending = none ∧ a.handler.stage ≠ .done))
  | .letGo =>
    inferInstanceAs (Decidable (a.handler.ending.isSome = true ∧ a.handler.slot.isSome = true))
  | .publish =>
    inferInstanceAs (Decidable (a.handler.ending.isSome = true ∧ a.handler.slot = none))

def tell (a : Round) (r : Registry) (e : HandlerEvent) : Round :=
  { a with handler := (a.handler.react r e).2 }

def asked (a : Round) (answer : Policy × HandlerEvent) : Round :=
  { a with policy := answer.1 }.tell {} answer.2

def handIn (a : Round) : Policy × HandlerEvent × List Job → Round
  | (policy, .submitted, jobs) => { a.asked (policy, .submitted) with jobs }
  | (policy, event, _) => a.asked (policy, event)

def act (a : Round) : Move → Round
  | .select next => a.asked (Handler.selectOn a.policy next)
  | .register r since => a.tell r (.register since)
  | .resolve look => a.asked (Handler.resolveOn a.policy look)
  | .send w => a.handIn (Handler.jobs a.policy w)
  | .mark k m => { a with jobs := a.jobs.modify k m.on }
  | .wait => a.tell {} .wait
  | .jobsEnded => a.tell {} .jobsEnded
  | .conclude archived moves => a.asked (Handler.concludeOn a.policy archived moves a.jobs)
  | .panic => a.tell {} .panicked
  | .cancel => a.tell {} .cancelled
  | .letGo => a.tell {} .letGo
  | .publish => a.tell {} .publish

/-- A move that does not fit changes nothing. -/
def step (a : Round) (m : Move) : Round := if a.Fits m then a.act m else a

theorem step_of_fits {a : Round} {m : Move} (fits : a.Fits m) : a.step m = a.act m := if_pos fits

def run (a : Round) (ms : List Move) : Round := ms.foldl step a

theorem run_cons (a : Round) (m : Move) (ms : List Move) :
    a.run (m :: ms) = (a.step m).run ms := rfl

theorem run_append (a : Round) (ms ns : List Move) : a.run (ms ++ ns) = (a.run ms).run ns :=
  List.foldl_append

theorem run_concat (a : Round) (ms : List Move) (m : Move) :
    a.run (ms ++ [m]) = (a.run ms).step m := a.run_append ms [m]

end Round
end Archivist
