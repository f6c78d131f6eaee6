import Archivist.Proofs.Runs.Nesting
import Mathlib.Data.String.Basic
set_option autoImplicit false

namespace Archivist

/-- A directory was made before another, or at the same time and its text is less. -/
def Namespace.Older (ns : Namespace) (d e : Dir) : Prop :=
  ∃ t u, ns.createdAt d = .ok t ∧ ns.createdAt e = .ok u ∧ (t < u ∨ t = u ∧ d.text < e.text)

/-- The directory is to be archived now.  It cannot be younger than of this moment. -/
structure Policy.Due (p : Policy) (w : World) (now : Instant) (d : Dir) : Prop where
  offered : p.section_.Offers d
  there : w.namespace_.exists? d = true
  free : ∀ r ∈ w.registry.entries, r.directory.contains d = false
  old : ∃ created, w.namespace_.createdAt d = .ok created ∧
    p.section_.minAge * Instant.second ≤ max 0 (now - created)
  filled : ∃ f, w.namespace_.Shown d p.section_.deep f
  unarchived : p.isArchived w d = .ok false

theorem Namespace.Older.asymm {ns : Namespace} {d e : Dir} (h : ns.Older d e) : ¬ ns.Older e d := by
  rintro ⟨u, t, he, hd, later⟩
  obtain ⟨t', u', hd', he', first⟩ := h
  obtain rfl : t' = t := Except.ok.inj (hd'.symm.trans hd)
  obtain rfl : u' = u := Except.ok.inj (he'.symm.trans he)
  rcases first with first | ⟨same, first⟩ <;> rcases later with later | ⟨same', later⟩
  · exact lt_asymm first later
  · exact first.ne same'.symm
  · exact later.ne same.symm
  · exact lt_asymm first later

namespace Policy

theorem earlier_iff {a b : Instant × Dir} :
    earlier a b = true ↔ a.1 < b.1 ∨ a.1 = b.1 ∧ a.2.text ≤ b.2.text := by
  unfold earlier Dir.le
  split
  · rename_i same
    simp [same]
  · rename_i other
    simp [other]

theorem earlier_trans (a b c : Instant × Dir) (ab : earlier a b = true) (bc : earlier b c = true) :
    earlier a c = true := by
  rw [earlier_iff] at ab bc ⊢
  rcases ab with ab | ⟨ab, text⟩ <;> rcases bc with bc | ⟨bc, text'⟩
  · exact .inl (lt_trans ab bc)
  · exact .inl (bc ▸ ab)
  · exact .inl (ab ▸ bc)
  · exact .inr ⟨ab.trans bc, le_trans text text'⟩

theorem earlier_total (a b : Instant × Dir) : (earlier a b || earlier b a) = true := by
  rw [Bool.or_eq_true, earlier_iff, earlier_iff]
  rcases lt_trichotomy a.1 b.1 with less | same | more
  · exact .inl (.inl less)
  · rcases le_total a.2.text b.2.text with text | text
    · exact .inl (.inr ⟨same, text⟩)
    · exact .inr (.inr ⟨same.symm, text⟩)
  · exact .inr (.inl more)

variable {p : Policy} {w : World} {now : Instant} {d : Dir} {ds : List Dir}

theorem older_of_earlier {t u : Instant} {d e : Dir} (hd : w.namespace_.createdAt d = .ok t)
    (he : w.namespace_.createdAt e = .ok u) (first : earlier (t, d) (u, e) = true) (ne : e ≠ d) :
    w.namespace_.Older d e := by
  refine ⟨t, u, hd, he, ?_⟩
  rcases earlier_iff.1 first with less | ⟨same, text⟩
  · exact .inl less
  · exact .inr ⟨same, lt_of_le_of_ne text fun eq => ne (Dir.text_inj.1 eq).symm⟩

theorem candidates_eq_ok (now : Instant) (there : w.namespace_.exists? p.section_.path = true) :
    ∃ ds, p.candidates w now = .ok ds ∧
      (∀ d, d ∈ ds ↔ w.namespace_.exists? d = true ∧ d.parent? = some p.section_.path ∧
        ∃ created, w.namespace_.createdAt d = .ok created ∧ p.isCandidate w now created d = true) ∧
      ds.Pairwise fun d e => e ≠ d → w.namespace_.Older d e := by
  let all := w.namespace_.children p.section_.path
  have listed : w.namespace_.subdirectories p.section_.path = .ok all := if_pos there
  have ages : ∀ d, ∃ created, d ∈ all → w.namespace_.createdAt d = .ok created := by
    intro d
    by_cases hd : d ∈ all
    · obtain ⟨created, found⟩ := Quest.createdAt_of_listed listed hd
      exact ⟨created, fun _ => found⟩
    · exact ⟨0, fun h => absurd h hd⟩
  choose age dated using ages
  let kept := ((all.map fun d => (age d, d)).filter fun x => p.isCandidate w now x.1 x.2)
  have aged : ∀ x ∈ kept.mergeSort earlier, w.namespace_.createdAt x.2 = .ok x.1 := by
    intro x hx
    obtain ⟨d, hd, rfl⟩ := List.mem_map.1 (List.mem_filter.1 (List.mem_mergeSort.1 hx)).1
    exact dated d hd
  refine ⟨(kept.mergeSort earlier).map (·.2), Quest.candidates_of_dated listed dated now, ?_, ?_⟩
  · intro d
    rw [List.mem_map]
    constructor
    · rintro ⟨x, hx, rfl⟩
      obtain ⟨listed', takes⟩ := List.mem_filter.1 (List.mem_mergeSort.1 hx)
      obtain ⟨d, hd, rfl⟩ := List.mem_map.1 listed'
      obtain ⟨hexists, parent⟩ := Namespace.mem_children.1 hd
      exact ⟨hexists, parent, age d, dated d hd, takes⟩
    · rintro ⟨hexists, parent, created, found, takes⟩
      have hd : d ∈ all := Namespace.mem_children.2 ⟨hexists, parent⟩
      obtain rfl : created = age d := Except.ok.inj (found.symm.trans (dated d hd))
      exact ⟨(age d, d), List.mem_mergeSort.2
        (List.mem_filter.2 ⟨List.mem_map.2 ⟨d, hd, rfl⟩, takes⟩), rfl⟩
  · have sorted := List.pairwise_mergeSort earlier_trans earlier_total kept
    refine List.pairwise_map.2 (sorted.imp_of_mem ?_)
    intro x y hx hy first ne
    exact older_of_earlier (aged x hx) (aged y hy) first ne

theorem isArchived_of_no_files (listed : p.files w.namespace_ d = .ok []) :
    p.isArchived w d = .ok true := by
  unfold isArchived
  rw [listed]
  rfl

theorem exists_isArchived (there : w.namespace_.exists? d = true) :
    ∃ archived, p.isArchived w d = .ok archived := by
  have listed : p.files w.namespace_ d = .ok _ := if_pos there
  by_cases empty : w.namespace_.collect p.section_.deep (w.namespace_.dirs.length + 1) d = []
  · rw [empty] at listed
    exact ⟨true, isArchived_of_no_files listed⟩
  · exact ⟨_, isArchived_eq listed empty⟩

theorem exists_shown (there : w.namespace_.exists? d = true)
    (unarchived : p.isArchived w d = .ok false) :
    ∃ f, w.namespace_.Shown d p.section_.deep f := by
  have listed : p.files w.namespace_ d = .ok _ := if_pos there
  cases found : w.namespace_.collect p.section_.deep (w.namespace_.dirs.length + 1) d with
  | nil =>
    rw [found] at listed
    rw [isArchived_of_no_files listed] at unarchived
    cases unarchived
  | cons f fs =>
    exact ⟨f, (Namespace.mem_files_iff_shown listed f).1 (found ▸ List.mem_cons_self)⟩

theorem due_iff : p.Due w now d ↔
    (w.namespace_.exists? d = true ∧ d.parent? = some p.section_.path ∧
      ∃ created, w.namespace_.createdAt d = .ok created ∧
        p.isCandidate w now created d = true) ∧ p.isArchived w d = .ok false := by
  constructor
  · intro due
    obtain ⟨created, found, old⟩ := due.old
    have free := Registry.isArchiving_eq_false.2 due.free
    exact ⟨⟨due.there, due.offered.1, created, found, isCandidate_of due.offered free old⟩,
      due.unarchived⟩
  · rintro ⟨⟨there, parent, created, found, takes⟩, unarchived⟩
    simp only [isCandidate, Bool.and_eq_true, Bool.not_eq_true', decide_eq_true_eq] at takes
    obtain ⟨⟨wanted, free⟩, old⟩ := takes
    exact ⟨⟨parent, wanted⟩, there, Registry.isArchiving_eq_false.1 free, ⟨created, found, old⟩,
      exists_shown there unarchived, unarchived⟩

theorem firstOpen_eq_find? {judged : Dir → Bool}
    (judges : ∀ d ∈ ds, p.isArchived w d = .ok (judged d)) :
    next.firstOpen p w ds = .ok (ds.find? fun d => !judged d) := by
  induction ds with
  | nil => rfl
  | cons d ds ih =>
    have others := ih fun e he => judges e (List.mem_cons_of_mem _ he)
    rw [next.firstOpen, judges d List.mem_cons_self, List.find?_cons]
    cases judged d with
    | true => exact others
    | false => rfl

/-- The search ends with the first of the directories that are due. -/
theorem next_eq_ok (now : Instant) (there : w.namespace_.exists? p.section_.path = true) :
    ∃ ds : List Dir, p.next w now = .ok ds.head? ∧ (∀ d, d ∈ ds ↔ p.Due w now d) ∧
      ds.Pairwise fun d e => e ≠ d → w.namespace_.Older d e := by
  obtain ⟨ds, candidates, mem, sorted⟩ := candidates_eq_ok now there
  have verdicts : ∀ d, ∃ archived, d ∈ ds → p.isArchived w d = .ok archived := by
    intro d
    by_cases hd : d ∈ ds
    · obtain ⟨archived, judged⟩ := exists_isArchived (p := p) ((mem d).1 hd).1
      exact ⟨archived, fun _ => judged⟩
    · exact ⟨true, fun h => absurd h hd⟩
  choose judged judges using verdicts
  refine ⟨ds.filter fun d => !judged d, ?_, ?_, sorted.filter _⟩
  · rw [next, candidates, List.head?_filter]
    exact firstOpen_eq_find? judges
  · intro d
    rw [List.mem_filter, due_iff, ← mem d]
    refine and_congr_right fun hd => ?_
    rw [judges d hd, Except.ok.injEq, Bool.not_eq_true']

end Policy

/-- In every world, with every registry and at every time: if the directory of its section is there,
a policy's search does not fail, it finds a directory exactly if this one is due and older than all
others that are due, and it finds none exactly if none is due. -/
theorem next_eq_some_iff_due (p : Policy) (w : World) (now : Instant)
    (there : w.namespace_.exists? p.section_.path = true) :
    (∃ found, p.next w now = .ok found) ∧
      (∀ d, p.next w now = .ok (some d) ↔
        p.Due w now d ∧ ∀ e, p.Due w now e → e ≠ d → w.namespace_.Older d e) ∧
      (p.next w now = .ok none ↔ ∀ d, ¬ p.Due w now d) := by
  obtain ⟨ds, search, mem, sorted⟩ := Policy.next_eq_ok now there
  simp only [search, Except.ok.injEq, ← mem]
  refine ⟨⟨_, rfl⟩, fun d => ?_, ?_⟩
  · cases ds with
    | nil => simp
    | cons c cs =>
      have first := (List.pairwise_cons.1 sorted).1
      rw [List.head?_cons, Option.some.injEq]
      constructor
      · rintro rfl
        refine ⟨List.mem_cons_self, fun e he ne => ?_⟩
        exact first e ((List.mem_cons.1 he).resolve_left ne) ne
      · rintro ⟨hd, least⟩
        by_contra other
        have after := first d ((List.mem_cons.1 hd).resolve_left (Ne.symm other)) (Ne.symm other)
        exact after.asymm (least c List.mem_cons_self other)
  · rw [List.head?_eq_none_iff, List.eq_nil_iff_forall_not_mem]

def assorted : World where
  clock := default
  namespace_ :=
    let made := ["/r/a-skip", "/r/b-busy", "/r/c-void/in", "/r/d-full", "/r/f", "/r/e"].foldl
      (fun ns d => ns.makeDirs (Dir.ofText d) 0) Namespace.empty
    let filed := ["/r/a-skip/x", "/r/b-busy/x", "/r/f/x", "/r/e/in/x", "/r/0-young/x"].foldl
      (fun ns f => ns.addFile (100 * Instant.second) f 1 []) made
    filed.addFile 0 "/r/d-full/x" 1 ["n1"]
  fleet := (Fleet.add {} { name := "n1", free := 10 }).1
  registry := ⟨[{ owner := .run 0, sectionName := "s", directory := Dir.ofText "/r/b-busy" }]⟩

def assortedPolicy : Policy where
  section_ :=
    { name := "s", path := Dir.ofText "/r", placement := .mostFree, minAge := 60,
      ignored := ["a-skip"] }

theorem next_assorted :
    assortedPolicy.next assorted (130 * Instant.second) = .ok (some (Dir.ofText "/r/e")) ∧
      assortedPolicy.Due assorted (130 * Instant.second) (Dir.ofText "/r/f") ∧
      assorted.namespace_.Older (Dir.ofText "/r/e") (Dir.ofText "/r/f") := by
  obtain ⟨-, finds, -⟩ := next_eq_some_iff_due assortedPolicy assorted
    (130 * Instant.second) (by decide +kernel)
  have due : ∀ d ∈ [Dir.ofText "/r/e", Dir.ofText "/r/f"],
      assortedPolicy.Due assorted (130 * Instant.second) d := by
    intro d hd
    rw [Policy.due_iff]
    have made : ∀ d ∈ [Dir.ofText "/r/e", Dir.ofText "/r/f"],
        (assorted.namespace_.exists? d = true ∧ d.parent? = some assortedPolicy.section_.path) ∧
        (assorted.namespace_.createdAt d = .ok 0 ∧
          assortedPolicy.isCandidate assorted (130 * Instant.second) 0 d = true) ∧
        assortedPolicy.isArchived assorted d = .ok false := by
      decide +kernel
    obtain ⟨⟨there, parent⟩, age, unarchived⟩ := made d hd
    exact ⟨⟨there, parent, 0, age⟩, unarchived⟩
  have only : ∀ d, assortedPolicy.Due assorted (130 * Instant.second) d →
      d = Dir.ofText "/r/e" ∨ d = Dir.ofText "/r/f" := by
    intro d h
    have hcases : ∀ d ∈ assorted.namespace_.children (Dir.ofText "/r"),
        assortedPolicy.isArchived assorted d = .ok true ∨
        (∃ t ∈ [0, 100 * Instant.second], assorted.namespace_.createdAt d = .ok t ∧
          assortedPolicy.isCandidate assorted (130 * Instant.second) t d = false) ∨
        d = Dir.ofText "/r/e" ∨ d = Dir.ofText "/r/f" := by
      decide +kernel
    rcases hcases d (Namespace.mem_children.2 ⟨h.there, h.offered.1⟩) with
      archived | ⟨t, -, made, passed⟩ | left
    · rw [h.unarchived] at archived
      cases archived
    · obtain ⟨⟨-, -, t', made', takes⟩, -⟩ := Policy.due_iff.1 h
      obtain rfl : t' = t := Except.ok.inj (made'.symm.trans made)
      rw [takes] at passed
      cases passed
    · exact left
  have first : assorted.namespace_.Older (Dir.ofText "/r/e") (Dir.ofText "/r/f") :=
    ⟨0, 0, by decide +kernel, by decide +kernel, .inr ⟨rfl, by decide +kernel⟩⟩
  refine ⟨(finds _).2 ⟨due _ (by simp), fun d h ne => ?_⟩, due _ (by simp), first⟩
  rw [(only d h).resolve_left ne]
  exact first

end Archivist
