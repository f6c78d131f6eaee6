import Archivist.Archive.Handler
import Archivist.Proofs.Tree.Listing
set_option autoImplicit false

/-!
# How a directory is looked for

A policy does not see tree, fleet and registry at one glance.  It lists the directories of its
section, then asks of each whether it may be taken and how old it is, and then of those that are
left, the oldest first, whether they are archived.  `Quest.step` puts one of these questions; others
may act before the next one.

In a world that stands still the answers amount to what `Handler.select` makes of that world
(`answers_select`).  In any case only directories of the section are found that its settings do not
pass over (`Quest.Within`).
-/

namespace Archivist

/-- A subdirectory of the section that its settings do not pass over. -/
def Section.Offers (s : Section) (d : Dir) : Prop :=
  d.parent? = some s.path ∧ s.ignored.contains d.name = false

/-- How far a policy has come in its search. -/
inductive Quest where
  | unasked
  /-- Some directories are still to be looked at, others have been kept with their age. -/
  | sifting (now : Instant) (todo : List Dir) (kept : List (Instant × Dir))
  | judging (todo : List Dir)
  | ended

namespace Quest

def isOldEnough (p : Policy) (now created : Instant) : Bool :=
  decide ((p.section_.minAge : Int) * Instant.second ≤ max 0 (now - created))

/-- One question, and what the handler is told if that ends the search. -/
def step (p : Policy) (w : World) : Quest → Quest × Option HandlerEvent
  | unasked =>
    match w.namespace_.subdirectories p.section_.path with
    | .error e => (ended, some (.failed e))
    | .ok ds => (sifting w.clock.now ds [], none)
  | sifting now (d :: ds) kept =>
    if p.section_.ignored.contains d.name || w.registry.isArchiving d then
      (sifting now ds kept, none)
    else
      match w.namespace_.createdAt d with
      | .error e => (ended, some (.failed e))
      | .ok created =>
        if isOldEnough p now created then (sifting now ds (kept ++ [(created, d)]), none)
        else (sifting now ds kept, none)
  | sifting _ [] kept => (judging ((kept.mergeSort Policy.earlier).map (·.2)), none)
  | judging (d :: ds) =>
    match p.isArchived w d with
    | .error e => (ended, some (.failed e))
    | .ok true => (judging ds, none)
    | .ok false => (ended, some (.selected d))
  | judging [] => (ended, some .nothingToDo)
  | ended => (ended, none)

/-- The questions that are left end with this word to the handler. -/
inductive Answers (p : Policy) (w : World) : Quest → HandlerEvent → Prop where
  | last {q : Quest} {e : HandlerEvent} (done : q.step p w = (ended, some e)) : Answers p w q e
  | more {q q' : Quest} {e : HandlerEvent} (next : q.step p w = (q', none))
      (rest : Answers p w q' e) : Answers p w q e

def event : Except ArchiveError (Option Dir) → HandlerEvent
  | .ok (some d) => .selected d
  | .ok none => .nothingToDo
  | .error e => .failed e

variable {p : Policy} {w : World}

theorem answers_judging (ds : List Dir) :
    Answers p w (judging ds) (event (Policy.next.firstOpen p w ds)) := by
  induction ds with
  | nil => exact .last rfl
  | cons d ds ih =>
    rw [Policy.next.firstOpen]
    cases judged : p.isArchived w d with
    | error e => exact .last (by rw [step, judged]; rfl)
    | ok archived =>
      cases archived with
      | true => exact .more (by rw [step, judged]) ih
      | false => exact .last (by rw [step, judged]; rfl)

/-- The directories that a listing of this world finds have their ages in it. -/
def Dated (w : World) (age : Dir → Instant) (ds : List Dir) : Prop :=
  ∀ d ∈ ds, w.namespace_.createdAt d = .ok (age d)

theorem answers_sifting {age : Dir → Instant} {ds : List Dir} (dated : Dated w age ds)
    (kept : List (Instant × Dir)) (now : Instant) {e : HandlerEvent}
    (rest : Answers p w (sifting now [] (kept ++ (ds.map fun d => (age d, d)).filter fun x =>
      p.isCandidate w now x.1 x.2)) e) :
    Answers p w (sifting now ds kept) e := by
  induction ds generalizing kept with
  | nil =>
    rw [List.map_nil, List.filter_nil, List.append_nil] at rest
    exact rest
  | cons d ds ih =>
    have later : Dated w age ds := fun d' h => dated d' (List.mem_cons_of_mem _ h)
    rw [List.map_cons, List.filter_cons] at rest
    by_cases passed : (p.section_.ignored.contains d.name || w.registry.isArchiving d) = true
    · have out : p.isCandidate w now (age d) d = false := by
        rw [Policy.isCandidate]
        rcases Bool.or_eq_true_iff.1 passed with ignored | taken
        · rw [ignored]
          rfl
        · rw [taken, Bool.not_true, Bool.and_false, Bool.false_and]
      rw [if_neg (by rw [out]; exact Bool.false_ne_true)] at rest
      exact .more (by rw [step, if_pos passed]) (ih later kept rest)
    · have clear : p.isCandidate w now (age d) d = isOldEnough p now (age d) := by
        rw [Bool.not_eq_true, Bool.or_eq_false_iff] at passed
        rw [Policy.isCandidate, passed.1, passed.2]
        rfl
      have asked := dated d List.mem_cons_self
      rw [clear] at rest
      cases old : isOldEnough p now (age d) with
      | true =>
        rw [if_pos old, List.append_cons] at rest
        exact .more (by rw [step, if_neg passed, asked]; dsimp only; rw [if_pos old])
          (ih later _ rest)
      | false =>
        rw [if_neg (by rw [old]; exact Bool.false_ne_true)] at rest
        refine .more ?_ (ih later kept rest)
        rw [step, if_neg passed, asked]
        dsimp only
        rw [if_neg (by rw [old]; exact Bool.false_ne_true)]

theorem createdAt_of_listed {ns : Namespace} {d : Dir} {ds : List Dir}
    (listed : ns.subdirectories d = .ok ds) {c : Dir} (hc : c ∈ ds) :
    ∃ created, ns.createdAt c = .ok created := by
  unfold Namespace.subdirectories at listed
  split at listed
  · rw [← Except.ok.inj listed, Namespace.mem_children, Namespace.exists?_iff] at hc
    obtain ⟨⟨info, found⟩, -⟩ := hc
    exact ⟨info.created, by rw [Namespace.createdAt, found]⟩
  · cases listed

theorem candidates_of_dated {age : Dir → Instant} {ds : List Dir}
    (listed : w.namespace_.subdirectories p.section_.path = .ok ds) (dated : Dated w age ds)
    (now : Instant) : p.candidates w now =
      .ok ((((ds.map fun d => (age d, d)).filter fun x =>
        p.isCandidate w now x.1 x.2).mergeSort Policy.earlier).map (·.2)) := by
  have ages : (ds.mapM fun d => do return (← w.namespace_.createdAt d, d) :
      Except ArchiveError (List (Instant × Dir))) = .ok (ds.map fun d => (age d, d)) := by
    clear listed
    induction ds with
    | nil => rfl
    | cons d ds ih =>
      rw [List.mapM_cons, dated d List.mem_cons_self,
        ih fun d' h => dated d' (List.mem_cons_of_mem _ h)]
      rfl
  unfold Policy.candidates
  rw [listed]
  exact congrArg (Except.bind · fun dated => .ok (((dated.filter fun x =>
    p.isCandidate w now x.1 x.2).mergeSort Policy.earlier).map (·.2))) ages

/-- Question by question a handler is told what it would be told at once. -/
theorem answers_select (choosing : p.directory = none) (w : World) :
    Answers p w unasked (Handler.select p w).2 := by
  have told : (Handler.select p w).2 = event (p.next w w.clock.now) := by
    unfold Handler.select
    rw [choosing]
    dsimp only
    cases p.next w w.clock.now with
    | error e => rfl
    | ok found => cases found <;> rfl
  rw [told]
  cases listed : w.namespace_.subdirectories p.section_.path with
  | error e =>
    refine .last ?_
    rw [step, listed, Policy.next, Policy.candidates, listed]
    rfl
  | ok ds =>
    have ages : ∀ d, ∃ created, d ∈ ds → w.namespace_.createdAt d = .ok created := by
      intro d
      by_cases hd : d ∈ ds
      · obtain ⟨created, found⟩ := createdAt_of_listed listed hd
        exact ⟨created, fun _ => found⟩
      · exact ⟨0, fun h => absurd h hd⟩
    choose age dated using ages
    have first : unasked.step p w = (sifting w.clock.now ds [], none) := by rw [step, listed]
    refine .more first (answers_sifting dated [] w.clock.now (.more rfl ?_))
    rw [List.nil_append, Policy.next, candidates_of_dated listed dated]
    exact answers_judging _

/-- All that the search still deals with is offered by the section, or is one of its
subdirectories at least. -/
def Within (s : Section) : Quest → Prop
  | sifting _ todo kept => (∀ d ∈ todo, d.parent? = some s.path) ∧ ∀ x ∈ kept, s.Offers x.2
  | judging todo => ∀ d ∈ todo, s.Offers d
  | unasked | ended => True

theorem parent_of_listed {ns : Namespace} {d c : Dir} {ds : List Dir}
    (listed : ns.subdirectories d = .ok ds) (hc : c ∈ ds) : c.parent? = some d := by
  unfold Namespace.subdirectories at listed
  split at listed
  · rw [← Except.ok.inj listed] at hc
    exact (Namespace.mem_children.1 hc).2
  · cases listed

theorem Within.step {q : Quest} (h : q.Within p.section_) (w : World) :
    (q.step p w).1.Within p.section_ ∧
      ∀ d, (q.step p w).2 = some (.selected d) → p.section_.Offers d := by
  cases q with
  | unasked =>
    rw [Quest.step]
    cases listed : w.namespace_.subdirectories p.section_.path with
    | error e => exact ⟨trivial, fun d told => by cases told⟩
    | ok ds =>
      refine ⟨⟨fun d hd => parent_of_listed listed hd, ?_⟩, fun d told => by cases told⟩
      intro x hx
      cases hx
  | sifting now todo kept =>
    obtain ⟨children, offered⟩ := h
    cases todo with
    | nil =>
      refine ⟨?_, fun d told => by cases told⟩
      intro d hd
      obtain ⟨x, hx, rfl⟩ := List.mem_map.1 hd
      exact offered x (List.mem_mergeSort.1 hx)
    | cons d ds =>
      have others : ∀ d' ∈ ds, d'.parent? = some p.section_.path :=
        fun d' h => children d' (List.mem_cons_of_mem _ h)
      rw [Quest.step]
      split
      · exact ⟨⟨others, offered⟩, fun d told => by cases told⟩
      · rename_i clear
        rw [Bool.not_eq_true, Bool.or_eq_false_iff] at clear
        split
        · exact ⟨trivial, fun d told => by cases told⟩
        · split
          · refine ⟨⟨others, ?_⟩, fun d told => by cases told⟩
            intro x hx
            rcases List.mem_append.1 hx with old | new
            · exact offered x old
            · rw [List.mem_singleton.1 new]
              exact ⟨children d List.mem_cons_self, clear.1⟩
          · exact ⟨⟨others, offered⟩, fun d told => by cases told⟩
  | judging todo =>
    cases todo with
    | nil => exact ⟨trivial, fun d told => by cases told⟩
    | cons d ds =>
      rw [Quest.step]
      split
      · exact ⟨trivial, fun d told => by cases told⟩
      · exact ⟨fun d' h' => h d' (List.mem_cons_of_mem _ h'), fun d told => by cases told⟩
      · refine ⟨trivial, ?_⟩
        intro d' told
        cases told
        exact h d List.mem_cons_self
  | ended => exact ⟨trivial, fun d told => by cases told⟩

end Quest
end Archivist
