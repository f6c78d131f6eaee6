import Archivist.Proofs.Tree.Shape
set_option autoImplicit false

namespace Archivist

def DirInfo.relocated (info : DirInfo) (new : Dir) : DirInfo :=
  { info with files := info.files.map fun f => { f with path := new.text ++ "/" ++ f.name } }

namespace Namespace

variable {source target : Dir}

theorem get?_moveOne {ns : Namespace} {d : Dir} {info : DirInfo} (h : ns.get? d = some info)
    (e : Dir) :
    (moveOne source target ns d).get? e =
      if e = movedTo source target d then some (info.relocated e)
      else if e = d then none else ns.get? e := by
  unfold moveOne
  rw [h]
  dsimp only
  rw [get?_insert, get?_erase]
  by_cases eq : e = movedTo source target d
  · rw [if_pos eq, if_pos eq, eq]
    rfl
  · rw [if_neg eq, if_neg eq]

/-- Entries below the source that exist, of which none is below the target. -/
structure Movable (ns : Namespace) (source target : Dir) (ds : List Dir) : Prop where
  nodup : ds.Nodup
  below : ∀ d ∈ ds, source.contains d = true
  there : ∀ d ∈ ds, ns.exists? d = true
  apart : ∀ d ∈ ds, target.contains d = false

theorem Movable.tail {ns : Namespace} {d : Dir} {ds : List Dir} (hs : source ≠ .root)
    (m : ns.Movable source target (d :: ds)) :
    (moveOne source target ns d).Movable source target ds ∧
      ∀ x ∈ ds, (moveOne source target ns d).get? x = ns.get? x := by
  obtain ⟨info, found⟩ := exists?_iff.1 (m.there d List.mem_cons_self)
  obtain ⟨new, nodup⟩ := List.nodup_cons.1 m.nodup
  have same : ∀ x ∈ ds, (moveOne source target ns d).get? x = ns.get? x := by
    intro x hx
    have elsewhere : x ≠ movedTo source target d := by
      rintro rfl
      have inside := Dir.contains_movedTo target hs (m.below d List.mem_cons_self)
      rw [m.apart _ (List.mem_cons_of_mem _ hx)] at inside
      cases inside
    have other : x ≠ d := by
      rintro rfl
      exact new hx
    rw [get?_moveOne found, if_neg elsewhere, if_neg other]
  refine ⟨⟨nodup, fun x hx => m.below x (List.mem_cons_of_mem _ hx), ?_,
    fun x hx => m.apart x (List.mem_cons_of_mem _ hx)⟩, same⟩
  intro x hx
  rw [exists?, same x hx]
  exact m.there x (List.mem_cons_of_mem _ hx)

/-- After some entries have been moved, each is found at its new place and not at its old one. -/
theorem get?_foldl_moveOne (hs : source ≠ .root) (ht : target ≠ .root) {ds : List Dir}
    {ns : Namespace} (m : ns.Movable source target ds) (e : Dir) :
    (ds.foldl (moveOne source target) ns).get? e =
      if target.contains e = true ∧ movedTo target source e ∈ ds then
        (ns.get? (movedTo target source e)).map (·.relocated e)
      else if e ∈ ds then none else ns.get? e := by
  induction ds generalizing ns with
  | nil => simp
  | cons d ds ih =>
    obtain ⟨rest, same⟩ := m.tail hs
    obtain ⟨info, found⟩ := exists?_iff.1 (m.there d List.mem_cons_self)
    have new : d ∉ ds := (List.nodup_cons.1 m.nodup).1
    rw [List.foldl_cons, ih rest]
    by_cases later : target.contains e = true ∧ movedTo target source e ∈ ds
    · rw [if_pos later, if_pos ⟨later.1, List.mem_cons_of_mem _ later.2⟩, same _ later.2]
    · rw [if_neg later, get?_moveOne found]
      by_cases here : e = movedTo source target d
      · -- the entry that has just been moved, which is not moved again
        have inside := Dir.contains_movedTo target hs (m.below d List.mem_cons_self)
        have back : movedTo target source e = d := by
          rw [here, Dir.movedTo_movedTo hs ht (m.below d List.mem_cons_self)]
        have outside : e ∉ ds := by
          intro he
          rw [← here, m.apart e (List.mem_cons_of_mem _ he)] at inside
          cases inside
        rw [if_neg outside, if_pos here, back, found, if_pos ⟨here ▸ inside, List.mem_cons_self⟩]
        rfl
      · have notBack : ¬ (target.contains e = true ∧ movedTo target source e ∈ d :: ds) := by
          rintro ⟨inside, back⟩
          rcases List.mem_cons.1 back with eq | back
          · exact here (by rw [← eq, Dir.movedTo_movedTo ht hs inside])
          · exact later ⟨inside, back⟩
        rw [if_neg here, if_neg notBack]
        by_cases eq : e = d
        · simp [eq]
        · simp [eq]

theorem nodup_moveOne {ns : Namespace} {d : Dir} {info : DirInfo} (keys : ns.keys.Nodup)
    (found : ns.get? d = some info) (free : ns.get? (movedTo source target d) = none) :
    (moveOne source target ns d).keys.Nodup := by
  unfold moveOne
  rw [found]
  refine nodup_insert _ (nodup_erase d keys) ?_
  rw [get?_erase, free]
  split <;> rfl

theorem foldl_moveOne_keeps (hs : source ≠ .root) (ht : target ≠ .root) {ds : List Dir}
    {ns : Namespace} (m : ns.Movable source target ds) (keys : ns.keys.Nodup)
    (free : ∀ d ∈ ds, ns.get? (movedTo source target d) = none) (I : Namespace → Prop)
    (kept : ∀ (ns : Namespace) (d : Dir) (info : DirInfo), ns.keys.Nodup → ns.get? d = some info →
      ns.get? (movedTo source target d) = none → I ns → I (moveOne source target ns d))
    (h : I ns) :
    (ds.foldl (moveOne source target) ns).keys.Nodup ∧ I (ds.foldl (moveOne source target) ns) := by
  induction ds generalizing ns with
  | nil => exact ⟨keys, h⟩
  | cons d ds ih =>
    obtain ⟨rest, -⟩ := m.tail hs
    obtain ⟨info, found⟩ := exists?_iff.1 (m.there d List.mem_cons_self)
    have new : d ∉ ds := (List.nodup_cons.1 m.nodup).1
    have here := free d List.mem_cons_self
    refine ih rest (nodup_moveOne keys found here) ?_ (kept ns d info keys found here h)
    intro x hx
    have other : movedTo source target x ≠ movedTo source target d := by
      intro eq
      have eq := Dir.movedTo_inj hs ht (m.below x (List.mem_cons_of_mem _ hx))
        (m.below d List.mem_cons_self) eq
      exact new (eq ▸ hx)
    rw [get?_moveOne found, if_neg other, free x (List.mem_cons_of_mem _ hx)]
    split <;> rfl

theorem rename_eq_ok {ns ns' : Namespace} {now : Instant}
    (h : ns.rename now source target = .ok ns') :
    ns.exists? source = true ∧ ns.exists? target = false ∧
      ns' = match target.parent? with
        | some p => ((ns.keys.filter source.contains).foldl (moveOne source target) ns).makeDirs p now
        | none => (ns.keys.filter source.contains).foldl (moveOne source target) ns := by
  unfold rename at h
  split at h
  · cases h
  · rename_i there
    split at h
    · cases h
    · rename_i free
      refine ⟨by simpa using there, by simpa using free, ?_⟩
      exact (Except.ok.inj h).symm

namespace WellFormed

variable {ns ns' : Namespace} {now : Instant}

theorem movable (wf : ns.WellFormed) (source : Dir) (free : ns.exists? target = false) :
    ns.Movable source target (ns.keys.filter source.contains) where
  nodup := wf.keys.filter _
  below d hd := (List.mem_filter.1 hd).2
  there d hd := exists?_iff_mem.2 (List.mem_filter.1 hd).1
  apart d hd := by
    by_contra inside
    have gone := wf.get?_below free (by simpa using inside)
    have there : ns.exists? d = true := exists?_iff_mem.2 (List.mem_filter.1 hd).1
    rw [exists?, gone] at there
    cases there

theorem free (wf : ns.WellFormed) (hs : source ≠ .root) (free : ns.exists? target = false) :
    ∀ d ∈ ns.keys.filter source.contains, ns.get? (movedTo source target d) = none :=
  fun _ hd => wf.get?_below free (Dir.contains_movedTo target hs (List.mem_filter.1 hd).2)

/-- What a moved tree answers: below the target what stood below the source, and elsewhere what
stood there, apart from what is below the source and with empty directories above the target. -/
theorem get?_rename (wf : ns.WellFormed) (hs : source ≠ .root)
    (h : ns.rename now source target = .ok ns') (e : Dir) :
    ns'.get? e =
      if target.contains e = true then (ns.get? (movedTo target source e)).map (·.relocated e)
      else (if source.contains e = true then none else ns.get? e).or
        (if e.contains target = true then some ⟨now, []⟩ else none) := by
  obtain ⟨-, free, rfl⟩ := rename_eq_ok h
  have ht : target ≠ .root := by
    rintro rfl
    rw [wf.root] at free
    cases free
  obtain ⟨p, hp⟩ := Option.ne_none_iff_exists'.1 (mt Dir.parent?_eq_none.1 ht)
  have m := wf.movable source free
  rw [hp]
  dsimp only
  rw [get?_makeDirs, get?_foldl_moveOne hs ht m]
  have inMoved : ∀ x, x ∈ ns.keys.filter source.contains ↔
      ns.exists? x = true ∧ source.contains x = true := by
    intro x
    rw [List.mem_filter, exists?_iff_mem]
  -- nothing stood below the target, so what is there now has come from the source
  by_cases inside : target.contains e = true
  · have notAbove : e.contains p = false := by
      by_contra above
      have longer := Dir.length_le_of_contains inside
      have shorter := Dir.length_le_of_contains (by simpa using above : e.contains p = true)
      have step := Dir.length_parent hp
      omega
    have back := Dir.contains_movedTo source ht inside
    rw [if_pos inside, notAbove]
    simp only [inside, true_and, Bool.false_eq_true, if_false, Option.or_none, inMoved, back,
      and_true]
    by_cases there : ns.exists? (movedTo target source e) = true
    · rw [if_pos there]
    · have none : ns.get? (movedTo target source e) = none := by simpa [exists?] using there
      rw [if_neg there, none, wf.get?_below free inside]
      split <;> rfl
  · have above : e.contains p = e.contains target := by
      rw [Bool.eq_iff_iff]
      constructor
      · intro h
        exact Dir.contains_trans h (Dir.contains_parent hp)
      · intro h
        refine Dir.contains_parent_of_ne h ?_ hp
        rintro rfl
        exact inside (Dir.contains_self _)
    rw [if_neg (fun h => inside h.1), if_neg inside, above]
    congr 1
    by_cases moved : source.contains e = true
    · rw [if_pos moved]
      split
      · rfl
      · rename_i missing
        rw [inMoved, not_and_or] at missing
        rcases missing with missing | other
        · simpa [exists?] using missing
        · exact absurd moved other
    · rw [if_neg moved, if_neg (fun h => moved ((inMoved e).1 h).2)]

theorem exists?_rename (wf : ns.WellFormed) (hs : source ≠ .root)
    (h : ns.rename now source target = .ok ns') (e : Dir) :
    ns'.exists? e = true ↔
      if target.contains e = true then ns.exists? (movedTo target source e) = true
      else (source.contains e = false ∧ ns.exists? e = true) ∨ e.contains target = true := by
  unfold exists?
  rw [wf.get?_rename hs h]
  by_cases inside : target.contains e = true
  · simp [inside]
  · by_cases moved : source.contains e = true
    · simp [inside, moved]
    · simp [inside, moved]

theorem get?_rename_cases (wf : ns.WellFormed) (hs : source ≠ .root)
    (h : ns.rename now source target = .ok ns') {e : Dir} {info : DirInfo}
    (found : ns'.get? e = some info) :
    (∃ old, target.contains e = true ∧ ns.get? (movedTo target source e) = some old ∧
      info = old.relocated e) ∨ ns.get? e = some info ∨ info.files = [] := by
  rw [wf.get?_rename hs h] at found
  split at found
  · rename_i inside
    obtain ⟨old, there, rfl⟩ := Option.map_eq_some_iff.1 found
    exact Or.inl ⟨old, inside, there, rfl⟩
  · rw [Option.or_eq_some_iff] at found
    rcases found with stayed | ⟨-, made⟩
    · split at stayed
      · cases stayed
      · exact Or.inr (Or.inl stayed)
    · split at made
      · rw [← Option.some.inj made]
        exact Or.inr (Or.inr rfl)
      · cases made

theorem target_ne_root (wf : ns.WellFormed) (free : ns.exists? target = false) :
    target ≠ .root := by
  rintro rfl
  rw [wf.root] at free
  cases free

theorem parents_rename (wf : ns.WellFormed) (hs : source ≠ .root)
    (h : ns.rename now source target = .ok ns') (e p : Dir) (he : ns'.exists? e = true)
    (hp : e.parent? = some p) : ns'.exists? p = true := by
  have ht := wf.target_ne_root (rename_eq_ok h).2.1
  rw [wf.exists?_rename hs h] at he ⊢
  have step := Dir.length_parent hp
  by_cases inside : target.contains e = true
  · rw [if_pos inside] at he
    by_cases eq : target = e
    · have shorter : ¬ target.contains p = true := by
        intro hc
        have longer := Dir.length_le_of_contains hc
        rw [eq] at longer
        omega
      rw [if_neg shorter, eq]
      exact Or.inr (Dir.contains_parent hp)
    · have insideParent := Dir.contains_parent_of_ne inside eq hp
      rw [if_pos insideParent]
      exact wf.parents _ _ he (Dir.parent?_movedTo ht insideParent hp)
  · have outside : ¬ target.contains p = true := fun hc =>
      inside (Dir.contains_trans hc (Dir.contains_parent hp))
    rw [if_neg inside] at he
    rw [if_neg outside]
    rcases he with ⟨stays, there⟩ | above
    · refine Or.inl ⟨?_, wf.parents e p there hp⟩
      by_contra moved
      have moved := Dir.contains_trans (by simpa using moved) (Dir.contains_parent hp)
      rw [stays] at moved
      cases moved
    · exact Or.inr (Dir.contains_trans (Dir.contains_parent hp) above)

theorem relocated (wf : ns.WellFormed) {d e : Dir} {info : DirInfo} (hd : d ≠ .root)
    (he : e ≠ .root) (found : ns.get? d = some info) :
    (∀ f ∈ (info.relocated e).files, f.FiledIn e) ∧
      ((info.relocated e).files.map (·.path)).Nodup := by
  constructor
  · intro f hf
    obtain ⟨g, hg, rfl⟩ := List.mem_map.1 hf
    have name := ((wf.filed d info found g hg).parts hd).1
    exact (FileEntry.filedIn_of_path name he rfl).1
  · have paths := wf.paths d info found
    unfold DirInfo.relocated
    dsimp only
    rw [List.map_map]
    unfold List.Nodup at paths ⊢
    rw [List.pairwise_map] at paths ⊢
    refine paths.imp_of_mem ?_
    intro a b ha hb ne eq
    apply ne
    have names : a.name = b.name := by
      have chars := congrArg String.toList eq
      apply String.toList_inj.1
      simpa using chars
    have fa := wf.filed d info found a ha
    have fb := wf.filed d info found b hb
    have parts : Dir.ofText a.path = Dir.ofText b.path := by
      apply Dir.ext
      rw [(fa.parts hd).2, (fb.parts hd).2, names]
    rw [← fa.normal, ← fb.normal, parts]

protected theorem rename (wf : ns.WellFormed) (hs : source ≠ .root)
    (h : ns.rename now source target = .ok ns') : ns'.WellFormed := by
  have free := (rename_eq_ok h).2.1
  have ht := wf.target_ne_root free
  have below : ∀ {e}, target.contains e = true →
      movedTo target source e ≠ .root ∧ e ≠ .root := by
    intro e inside
    refine ⟨?_, ?_⟩
    · intro eq
      have back := Dir.contains_movedTo source ht inside
      rw [eq, Dir.contains_root_iff] at back
      exact hs back
    · rintro rfl
      exact ht (Dir.contains_root_iff.1 inside)
  refine ⟨?_, ?_, wf.parents_rename hs h, ?_, ?_⟩
  · have moved : ((ns.keys.filter source.contains).foldl (moveOne source target) ns).keys.Nodup :=
      (foldl_moveOne_keeps hs ht (wf.movable source free) wf.keys (wf.free hs free) (fun _ => True)
        (fun _ _ _ _ _ _ _ => trivial) trivial).1
    rw [(rename_eq_ok h).2.2]
    split
    · exact nodup_makeDirs _ _ moved
    · exact moved
  · rw [wf.exists?_rename hs h, if_neg (fun hc => ht (Dir.contains_root_iff.1 hc))]
    refine Or.inl ⟨?_, wf.root⟩
    by_contra hc
    exact hs (Dir.contains_root_iff.1 (by simpa using hc))
  · intro e info found f hf
    rcases wf.get?_rename_cases hs h found with ⟨old, inside, there, rfl⟩ | stayed | empty
    · exact (wf.relocated (below inside).1 (below inside).2 there).1 f hf
    · exact wf.filed e info stayed f hf
    · rw [empty] at hf
      cases hf
  · intro e info found
    rcases wf.get?_rename_cases hs h found with ⟨old, inside, there, rfl⟩ | stayed | empty
    · exact (wf.relocated (below inside).1 (below inside).2 there).2
    · exact wf.paths e info stayed
    · rw [empty]
      exact List.nodup_nil

end WellFormed
end Namespace
end Archivist
