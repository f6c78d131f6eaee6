import Archivist.Proofs.Plan.Stages
import Archivist.Proofs.Runs.Standing
set_option autoImplicit false

/-!
# A policy in one run after another

The policy of a section is there for all its runs, and what one run leaves in it the next one finds.
A run that returns leaves no nodes, so by induction over the runs none starts with nodes; and within
a run the jobs are made once.
-/

namespace Archivist

namespace Round

variable {a : Round} {ms : List Move} {m : Move}

theorem late_of_sends {js : List Job} (sound : a.handler.Sound) (h : Sends js a m) :
    (a.step m).handler.Late := by
  obtain ⟨here, w, rfl, made⟩ := h
  have unpublished : a.handler.outcome = none := by
    by_contra out
    exact absurd ((sound.published out).symm.trans here.stage) (by decide)
  have answer : Handler.jobs a.policy w = ((Handler.jobs a.policy w).1, .submitted, js) :=
    Prod.ext rfl made
  rw [step_of_fits (m := .send w) here, act, answer, handIn]
  unfold asked tell
  rw [here.react_eq (by decide), Handler.advance, if_pos here.stage]
  exact ⟨.inl rfl, by simp [here.unended], by simp [unpublished]⟩

theorem late_run (h : a.handler.Late) (ms : List Move) : (a.run ms).handler.Late := by
  induction ms generalizing a with
  | nil => exact h
  | cons m ms ih =>
    refine ih ?_
    rcases a.handler_step m with same | ⟨r, e, eq⟩
    · rwa [same]
    · rw [eq]
      exact h.react r e

theorem not_sends_later {js js' : List Job} {m' : Move} {before between : List Move}
    (sound : a.handler.Sound) (h : Sends js (a.run before) m) :
    ¬ Sends js' (a.run (before ++ m :: between)) m' := by
  rintro ⟨here, -⟩
  have late := late_run (late_of_sends (sound_run sound before) h) between
  rw [← run_cons, ← run_append] at late
  have stage := late.stage
  simp [here.stage] at stage

theorem sends_same {js js' : List Job} (h : Sends js a m) (h' : Sends js' a m) : js = js' := by
  obtain ⟨-, w, rfl, made⟩ := h
  obtain ⟨-, w', same, made'⟩ := h'
  cases same
  exact (Prod.mk.inj (made.symm.trans made')).2

theorem sends_once_from {js js' : List Job} {m' : Move} {before between after after' : List Move}
    (sound : a.handler.Sound) (h : Sends js (a.run before) m)
    (h' : Sends js' (a.run (before ++ between)) m') (rest : m :: after = between ++ m' :: after') :
    js = js' := by
  cases between with
  | nil =>
    rw [List.append_nil] at h'
    obtain ⟨rfl, -⟩ := List.cons.inj rest
    exact sends_same h h'
  | cons x between =>
    obtain ⟨rfl, -⟩ := List.cons.inj rest
    exact absurd h' (not_sends_later sound h)

theorem sends_once {js js' : List Job} (sound : a.handler.Sound) (h : a.Met ms (Sends js))
    (h' : a.Met ms (Sends js')) : js = js' := by
  obtain ⟨before, m, after, rfl, sends⟩ := h
  obtain ⟨before', m', after', same, sends'⟩ := h'
  rcases List.append_eq_append_iff.1 same with ⟨between, rfl, rest⟩ | ⟨between, rfl, rest⟩
  · exact sends_once_from sound sends sends' rest
  · exact (sends_once_from sound sends' sends rest).symm

def Returns (a : Round) : Prop := ∃ o, a.handler.outcome = some o ∧ o.IsReturned

end Round

/-- A run of a policy, with what the policy was given to archive before it. -/
structure Errand where
  owner : Owner
  assigned : List (Option Dir) := []
  moves : List Round.Move

namespace Errand

def opened (s : Errand) (p : Policy) : Round where
  policy := s.assigned.foldl Policy.setDirectory p
  handler := { owner := s.owner, sectionName := p.section_.name }

def ran (s : Errand) (p : Policy) : Round := (s.opened p).run s.moves

variable {p : Policy}

theorem destinations_opened (s : Errand) (unfixed : p.destinations = none) :
    (s.opened p).policy.destinations = none := by
  unfold opened
  dsimp only
  induction s.assigned generalizing p with
  | nil => exact unfixed
  | cons d ds ih => exact ih (Policy.destinations_setDirectory unfixed d)

theorem sound_opened (s : Errand) (p : Policy) : (s.opened p).handler.Sound :=
  Handler.IsFresh.sound ⟨rfl, rfl, rfl, rfl⟩

theorem stands (s : Errand) (unfixed : p.destinations = none) (ms : List Round.Move) :
    Round.Stands (s.opened p) ms ((s.opened p).run ms) :=
  Round.stands_run (Round.stands_at (s := .start) rfl rfl (s.destinations_opened unfixed)) ms

theorem left (s : Errand) (unfixed : p.destinations = none) {o : Outcome}
    (out : (s.ran p).handler.outcome = some o) :
    Round.Left (s.opened p) s.moves o (s.ran p).policy :=
  Round.left_of_outcome (Round.sound_run (s.sound_opened p) s.moves) (s.stands unfixed s.moves)
    out

end Errand

namespace Policy

def after (p : Policy) (ss : List Errand) : Policy := ss.foldl (fun p s => (s.ran p).policy) p

/-- Each of these runs has returned before the next one started. -/
def AllReturn (p : Policy) : List Errand → Prop
  | [] => True
  | s :: ss => (s.ran p).Returns ∧ (s.ran p).policy.AllReturn ss

theorem destinations_after {p : Policy} (unfixed : p.destinations = none) {ss : List Errand}
    (returned : p.AllReturn ss) : (p.after ss).destinations = none := by
  induction ss generalizing p with
  | nil => exact unfixed
  | cons s ss ih =>
    obtain ⟨⟨o, out, ended⟩, rest⟩ := returned
    exact ih ((s.left unfixed out).destinations ended) rest

end Policy

open Round

/-- A new policy is used for one run after the other, each of which returns, and given directories
in between.  Whatever the tree, the fleet and the registry answer meanwhile, the next run that
returns leaves no nodes in the policy, and a directory exactly if another handler works on it.  The
nodes to which a run sends were found in this run, for the directory for which it has registered; and
a report counts the jobs that it has made. -/
theorem opened_run_destinations (p : Policy) (fresh : p.Idle) (earlier : List Errand)
    (returned : p.AllReturn earlier) (s : Errand) :
    let start := s.opened (p.after earlier)
    let run := start.run s.moves
    (∀ o, run.handler.outcome = some o → o.IsReturned → run.policy.destinations = none ∧
      ∀ d, run.policy.directory = some d ↔ o = .duplicate d) ∧
    (∀ d, run.handler.outcome = some (.duplicate d) → start.Met s.moves (Contested d)) ∧
    (∀ before m after js, s.moves = before ++ m :: after → Sends js (start.run before) m →
      ∃ d nodes, start.Met before (Finds d nodes) ∧
        (start.run before).policy.directory = some d ∧
        (start.run before).policy.destinations = some (nodes.map (·.id)) ∧
        ∀ j ∈ js, j.destination ∈ nodes.map (·.id)) ∧
    ∀ report, run.handler.outcome = some (.completed report) →
      (∃ js, start.Met s.moves (Sends js)) ∧
        ∀ js, start.Met s.moves (Sends js) → report.done + report.failed = js.length := by
  intro start run
  have unfixed : (p.after earlier).destinations = none :=
    Policy.destinations_after fresh.destinations returned
  have left : ∀ o, run.handler.outcome = some o → Left start s.moves o run.policy :=
    fun o out => s.left unfixed out
  refine ⟨?_, ?_, ?_, ?_⟩
  · exact fun o out ended => ⟨(left o out).destinations ended, (left o out).directory ended⟩
  · exact fun d out => (left _ out).contested d rfl
  · rintro before m after js - ⟨here, w, -, sent⟩
    obtain ⟨d, nodes, found, directory, fixed⟩ :=
      (stands_iff_holds here).1 (s.stands unfixed before)
    refine ⟨d, nodes, found, directory, fixed, ?_⟩
    rcases Handler.jobs_cases directory w with
      ⟨ids, js', fixed', chosen, answer⟩ | ⟨q, e, -, answer⟩
    · rw [answer] at sent
      obtain rfl := Option.some.inj (fixed'.symm.trans fixed)
      rw [← (Prod.mk.inj sent).2]
      exact chosen
    · rw [answer] at sent
      cases sent
  · intro report out
    obtain ⟨js, made, count⟩ := (left _ out).counted report rfl
    refine ⟨⟨js, made⟩, fun js' made' => ?_⟩
    rw [← sends_once (s.sound_opened _) made made']
    exact count

def leftOver : Dir := Dir.ofText "/rls/T"

def oneCopy : World where
  clock := .standard
  namespace_ := Namespace.empty.addFile 0 "/rls/T/a" 1 ["n1"]
  fleet := ((Fleet.add {} ⟨"n1", 1, true, none⟩).1.add ⟨"n2", 2, true, none⟩).1

def releasePolicy : Policy where
  section_ := { name := "rls", path := Dir.ofText "/rls", placement := .mostFree, copies := 2 }

def beaten : Errand where
  owner := .run 0
  assigned := [some leftOver]
  moves := [.select (.ok none), .register ⟨[⟨.external 7, "rls", leftOver, 0⟩]⟩ 0, .publish]

def retried : Errand where
  owner := .run 1
  moves := [.select (.ok none), .register {} 1, .resolve (releasePolicy.lookIn oneCopy),
    .send oneCopy, .wait, .mark 0 .transferring, .mark 0 (.done ⟨1, 1, 0, true⟩), .jobsEnded,
    .conclude (fun _ => .ok true) (fun _ _ => false), .letGo, .publish]

theorem opened_run_retried :
    ((beaten.ran releasePolicy).handler.outcome = some (.duplicate leftOver) ∧
      (beaten.ran releasePolicy).policy.directory = some leftOver) ∧
    (releasePolicy.AllReturn [beaten] ∧
      (retried.ran (releasePolicy.after [beaten])).handler.outcome =
        some (.completed ⟨"rls", leftOver, 1, 0, true, none⟩)) ∧
    (retried.ran (releasePolicy.after [beaten])).policy.destinations = none ∧
    (retried.ran (releasePolicy.after [beaten])).policy.directory ≠ some leftOver := by
  have lost : (beaten.ran releasePolicy).handler.outcome = some (.duplicate leftOver) := by
    decide +kernel
  have done : (retried.ran (releasePolicy.after [beaten])).handler.outcome =
      some (.completed ⟨"rls", leftOver, 1, 0, true, none⟩) := by decide +kernel
  have returned : releasePolicy.AllReturn [beaten] := ⟨⟨_, lost, trivial⟩, trivial⟩
  obtain ⟨first, -⟩ :=
    opened_run_destinations releasePolicy ⟨rfl, rfl⟩ [] trivial beaten
  obtain ⟨second, -⟩ :=
    opened_run_destinations releasePolicy ⟨rfl, rfl⟩ [beaten] returned retried
  obtain ⟨-, kept⟩ := first _ lost trivial
  obtain ⟨unfixed, cleared⟩ := second _ done trivial
  refine ⟨⟨lost, (kept leftOver).2 rfl⟩, ⟨returned, done⟩, unfixed, ?_⟩
  intro still
  have same := (cleared leftOver).1 still
  cases same

end Archivist
