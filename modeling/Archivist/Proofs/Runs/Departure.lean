import Archivist.Proofs.Runs.Oldest
import Archivist.Proofs.Tree.Order
set_option autoImplicit false

namespace Archivist

namespace Settings

theorem target_outside {x : Settings} (accepted : x.check = .ok ()) {s : Section}
    (hs : s ∈ x.sections) {target : Dir} (here : s.target = some target) :
    s.path.contains target = false := by
  obtain ⟨-, rest⟩ := ok_of_guard (checkSection_of_check accepted s hs)
  rw [here] at rest
  rw [← Bool.not_eq_true]
  intro inside
  simp only [inside, if_true] at rest
  cases rest

end Settings

namespace Namespace

variable {ns ns' : Namespace} {source target p above : Dir} {now : Instant}

theorem WellFormed.apart_of_outside (wf : ns.WellFormed) (here : ns.exists? p = true)
    (free : ns.exists? target = false) (place : target.parent? = some above)
    (outside : p.contains above = false) {c : Dir} (hc : c.parent? = some p) :
    target.contains c = false ∧ c.contains target = false := by
  rw [← Bool.not_eq_true, ← Bool.not_eq_true]
  constructor
  · intro inside
    by_cases eq : target = c
    · rw [eq, hc] at place
      rw [← Option.some.inj place, Dir.contains_self] at outside
      cases outside
    · rw [wf.exists_above here (Dir.contains_parent_of_ne inside eq hc)] at free
      cases free
  · intro inside
    have below := Dir.contains_trans (Dir.contains_parent hc) inside
    by_cases eq : p = target
    · rw [← eq, here] at free
      cases free
    · rw [Dir.contains_parent_of_ne below eq place] at outside
      cases outside

/-- If a subdirectory goes to a place outside, it is missing afterwards and nothing else has
changed. -/
theorem WellFormed.mem_children_rename (wf : ns.WellFormed) (parent : source.parent? = some p)
    (place : target.parent? = some above) (outside : p.contains above = false)
    (moved : ns.rename now source target = .ok ns') (c : Dir) :
    c ∈ ns'.children p ↔ c ∈ ns.children p ∧ c ≠ source := by
  have hs : source ≠ .root := by
    rintro rfl
    cases parent
  obtain ⟨hexists, free, -⟩ := rename_eq_ok moved
  have here : ns.exists? p = true := wf.parents source p hexists parent
  rw [mem_children, mem_children, and_right_comm]
  refine and_congr_left fun hc => ?_
  obtain ⟨notAbove, notBelow⟩ := wf.apart_of_outside here free place outside hc
  have other : source.contains c = false ↔ c ≠ source := by
    rw [← Bool.not_eq_true]
    refine not_congr ⟨fun inside => ?_, fun eq => by rw [eq]; exact Dir.contains_self source⟩
    have same := (Dir.length_parent parent).trans (Dir.length_parent hc).symm
    exact (Dir.ext ((Dir.contains_iff.1 inside).eq_of_length same)).symm
  rw [wf.exists?_rename hs moved, notAbove, notBelow, other]
  simp only [Bool.false_eq_true, if_false, or_false]
  exact and_comm

theorem Reached.subdirectories_rename (reached : ns.Reached) (parent : source.parent? = some p)
    (place : target.parent? = some above) (outside : p.contains above = false)
    (moved : ns.rename now source target = .ok ns') :
    ∃ ds, ns.subdirectories p = .ok ds ∧ ns'.subdirectories p = .ok (ds.filter (· ≠ source)) := by
  have wf := reached.wellFormed
  have hs : source ≠ .root := by
    rintro rfl
    cases parent
  have here : ns.exists? p = true := wf.parents source p (rename_eq_ok moved).1 parent
  have still : ns'.exists? p = true := by
    rw [wf.exists?_rename hs moved, if_neg]
    · refine .inl ⟨?_, here⟩
      rw [← Bool.not_eq_true]
      intro inside
      have longer := Dir.length_le_of_contains inside
      have step := Dir.length_parent parent
      omega
    · intro inside
      have free := (rename_eq_ok moved).2.1
      rw [wf.exists_above here inside] at free
      cases free
  refine ⟨ns.children p, if_pos here, (if_pos still).trans (congrArg Except.ok ?_)⟩
  refine eq_of_ordered ((reached.rename hs moved).ordered.children p)
    ((reached.ordered.children p).filter _) fun c => ?_
  rw [wf.mem_children_rename parent place outside moved, List.mem_filter, decide_eq_true_iff]

theorem rename_of_exists (now : Instant) (there : ns.exists? source = true)
    (free : ns.exists? target = false) : ∃ ns', ns.rename now source target = .ok ns' := by
  unfold rename
  rw [there, free]
  exact ⟨_, rfl⟩

theorem rename_of_taken (there : ns.exists? source = true) (taken : ns.exists? target = true) :
    ns.rename now source target = .error (.namespace (.alreadyExists target)) := by
  unfold rename
  rw [there, taken]
  rfl

end Namespace

namespace Policy

variable {p : Policy} {w : World} {d : Dir}

theorem mem_of_candidates {now : Instant} {ds cs : List Dir}
    (listed : w.namespace_.subdirectories p.section_.path = .ok ds)
    (found : p.candidates w now = .ok cs) {c : Dir} (hc : c ∈ cs) : c ∈ ds := by
  unfold Namespace.subdirectories at listed
  split at listed
  · rename_i there
    obtain ⟨cs', found', mem, -⟩ := candidates_eq_ok (p := p) now there
    obtain rfl := Except.ok.inj (found'.symm.trans found)
    obtain ⟨hexists, parent, -⟩ := (mem c).1 hc
    rw [← Except.ok.inj listed]
    exact Namespace.mem_children.2 ⟨hexists, parent⟩
  · cases listed

theorem cleanup_cases (dir : p.directory = some d) (there : w.namespace_.exists? d = true)
    (jobs : List Job) : ∃ q w' report, p.cleanup w jobs = .ok (q, w', report) ∧
      ((∃ target, p.section_.target = some target ∧ p.isArchived w d = .ok true ∧
          w.namespace_.exists? (target.join d.name) = false ∧
          w.namespace_.rename w.clock.now d (target.join d.name) = .ok w'.namespace_ ∧
          report.movedTo = some (target.join d.name)) ∨
        (∀ target, p.section_.target = some target → p.isArchived w d = .ok true →
          w.namespace_.exists? (target.join d.name) = true) ∧
        w'.namespace_ = w.namespace_ ∧ report.movedTo = none) := by
  obtain ⟨archived, judged⟩ := exists_isArchived (p := p) there
  unfold cleanup requireDirectory
  rw [dir]
  dsimp only [bind, Except.bind]
  rw [judged]
  dsimp only
  cases archived with
  | false =>
    refine ⟨_, _, _, rfl, .inr ⟨fun target _ archived => ?_, rfl, rfl⟩⟩
    cases archived
  | true =>
    cases goal : p.section_.target with
    | none =>
      refine ⟨_, _, _, rfl, .inr ⟨fun target here => ?_, rfl, rfl⟩⟩
      cases here
    | some target =>
      dsimp only [Clock.read]
      cases free : w.namespace_.exists? (target.join d.name) with
      | false =>
        obtain ⟨ns, moved⟩ := Namespace.rename_of_exists w.clock.now there free
        rw [moved]
        exact ⟨_, _, _, rfl, .inl ⟨target, rfl, rfl, free, moved, rfl⟩⟩
      | true =>
        rw [Namespace.rename_of_taken there free]
        refine ⟨_, _, _, rfl, .inr ⟨fun target' here _ => ?_, rfl, rfl⟩⟩
        rw [← Option.some.inj here]
        exact free

end Policy

theorem Dir.isName_name {d p : Dir} (parent : d.parent? = some p) : IsName d.name := by
  obtain ⟨n, parts⟩ := parent?_eq_some.1 parent
  have proper : IsName n := d.proper n (by rw [parts]; simp)
  rwa [name, parts, List.getLastD_concat]

/-- In every tree that is reached, for a section of settings that are accepted and a run on one of
its subdirectories.  The end of the run moves the directory exactly if it is archived and its new
place is free.  Then the subdirectories of the section are those from before without this one, in
their order, so the section never finds the directory again, nor anything in it or around it.  If
the place is taken, or the directory is not moved for another reason, the tree stays as it is. -/
theorem cleanup_movedTo (x : Settings) (p : Policy) (w : World) (d : Dir)
    (jobs : List Job) (accepted : x.check = .ok ()) (hs : p.section_ ∈ x.sections)
    (reached : w.namespace_.Reached) (dir : p.directory = some d)
    (there : w.namespace_.exists? d = true) (parent : d.parent? = some p.section_.path) :
    ∃ q w' report, p.cleanup w jobs = .ok (q, w', report) ∧
      (∀ new, report.movedTo = some new ↔ p.isArchived w d = .ok true ∧
        w.namespace_.exists? new = false ∧
        ∃ target, p.section_.target = some target ∧ new = target.join d.name) ∧
      (∀ target, p.section_.target = some target →
        w.namespace_.exists? (target.join d.name) = true →
        report.movedTo = none ∧ w'.namespace_ = w.namespace_) ∧
      (report.movedTo = none → w'.namespace_ = w.namespace_) ∧
      ∀ new, report.movedTo = some new →
        (∃ ds, w.namespace_.subdirectories p.section_.path = .ok ds ∧
          w'.namespace_.subdirectories p.section_.path = .ok (ds.filter (· ≠ d))) ∧
        ∀ (r : Policy) (v : World) (now : Instant) (cs : List Dir), r.section_ = p.section_ →
          v.namespace_ = w'.namespace_ → r.candidates v now = .ok cs →
          ∀ c ∈ cs, c ≠ d ∧ new.contains c = false ∧ c.contains new = false := by
  obtain ⟨q, w', report, ended, ⟨target, goal, archived, free, moved, new⟩ |
    ⟨stays, same, hnone⟩⟩ := Policy.cleanup_cases dir there jobs
  · have place := target.parent?_join_name (Dir.isName_name parent)
    have outside := Settings.target_outside accepted hs goal
    refine ⟨q, w', report, ended, fun new' => ?_, ?_, ?_, ?_⟩
    · rw [new, Option.some.injEq]
      constructor
      · rintro rfl
        exact ⟨archived, free, target, goal, rfl⟩
      · rintro ⟨-, -, target', goal', rfl⟩
        rw [Option.some.inj (goal.symm.trans goal')]
    · intro target' goal' taken
      rw [Option.some.inj (goal'.symm.trans goal), free] at taken
      cases taken
    · intro hnone
      rw [new] at hnone
      cases hnone
    · intro new' here
      obtain rfl := Option.some.inj (new.symm.trans here)
      obtain ⟨ds, before, after⟩ := reached.subdirectories_rename parent place outside moved
      refine ⟨⟨ds, before, after⟩, ?_⟩
      intro r v now cs section_ tree found c hc
      have listed : v.namespace_.subdirectories r.section_.path = .ok (ds.filter (· ≠ d)) := by
        rw [tree, section_]
        exact after
      have mem := Policy.mem_of_candidates listed found hc
      rw [List.mem_filter, decide_eq_true_iff] at mem
      have here := reached.wellFormed.parents d _ there parent
      exact ⟨mem.2, reached.wellFormed.apart_of_outside here free place outside
        (Quest.parent_of_listed before mem.1)⟩
  · refine ⟨q, w', report, ended, fun new' => ?_, fun _ _ _ => ⟨hnone, same⟩, fun _ => same, ?_⟩
    · rw [hnone]
      constructor
      · intro here
        cases here
      · rintro ⟨archived, free, target, goal, rfl⟩
        rw [stays target goal archived] at free
        cases free
    · intro new' here
      rw [hnone] at here
      cases here

def inward : Settings where
  sections :=
    [{ name := "new", path := .ofText "/a/new", placement := .mostFree,
       target := some (.ofText "/a") }]

def inwardRun : Policy where
  section_ := inward.sections[0]
  directory := some (.ofText "/a/new/T")

def inwardWorld : World where
  clock := default
  namespace_ :=
    (Namespace.empty.addFile 0 "/a/new/T/f" 1 ["n1"]).makeDirs (.ofText "/a/new/U") 0
  fleet := (Fleet.add {} { name := "n1", free := 10 }).1

theorem cleanup_movedTo_inward :
    ∃ q w' report, inwardRun.cleanup inwardWorld [] = .ok (q, w', report) ∧
      report.movedTo = some (.ofText "/a/T") ∧
      w'.namespace_.subdirectories (.ofText "/a/new") = .ok [.ofText "/a/new/U"] := by
  have accepted : inward.check = .ok () := by decide +kernel
  obtain ⟨q, w', report, ended, moves, -, -, leaves⟩ :=
    cleanup_movedTo inward inwardRun inwardWorld (.ofText "/a/new/T") []
      accepted (List.getElem_mem _) (.makeDirs _ _ (.addFile _ _ _ _ .empty)) rfl
      (by decide +kernel) (by decide +kernel)
  have moved : report.movedTo = some (.ofText "/a/T") :=
    (moves _).2 ⟨by decide +kernel, by decide +kernel, .ofText "/a", rfl, by decide +kernel⟩
  obtain ⟨⟨ds, before, after⟩, -⟩ := leaves _ moved
  have all : inwardWorld.namespace_.subdirectories (.ofText "/a/new") =
      .ok [.ofText "/a/new/T", .ofText "/a/new/U"] := by
    decide +kernel
  obtain rfl := Except.ok.inj (all.symm.trans before)
  refine ⟨q, w', report, ended, moved, after.trans (congrArg Except.ok ?_)⟩
  decide +kernel

end Archivist
