import Archivist.Proofs.Tree.Reached
set_option autoImplicit false

/-!
# What a move brings along

A directory that is moved takes all below it with it: what stood somewhere below the source stands
at the same place below the target, and nothing else changes but for empty directories above the
target.  `MovedWhole` says so without looking at how the new places are computed, which is by
cutting texts.  The cut goes wrong in one case: the text of the root ends in a slash, so what is
right below the root has its name glued to that of the target.
-/

namespace Archivist

namespace Dir

def under (d r : Dir) : Dir :=
  ⟨d.parts ++ r.parts, fun p hp => (List.mem_append.1 hp).elim (d.proper p) (r.proper p)⟩

@[simp] theorem parts_under (d r : Dir) : (d.under r).parts = d.parts ++ r.parts := rfl

theorem root_under (r : Dir) : root.under r = r := Dir.ext (List.nil_append _)

theorem under_root (d : Dir) : d.under root = d := Dir.ext (List.append_nil _)

theorem contains_under (d r : Dir) : d.contains (d.under r) = true :=
  contains_iff.2 (List.prefix_append _ _)

theorem exists_under {d e : Dir} (h : d.contains e = true) : ∃ r, e = d.under r := by
  obtain ⟨rest, eq⟩ := contains_iff.1 h
  have proper : ∀ p ∈ rest, IsName p := fun p hp =>
    e.proper p (eq ▸ List.mem_append_right _ hp)
  exact ⟨⟨rest, proper⟩, Dir.ext eq.symm⟩

theorem movedTo_under {source : Dir} (target : Dir) (ne : source ≠ root) (r : Dir) :
    Namespace.movedTo source target (source.under r) = target.under r := by
  apply Dir.ext
  rw [parts_movedTo ne (contains_under source r), parts_under, List.drop_left, parts_under]

theorem movedTo_root_root (target : Dir) : Namespace.movedTo root target root = target := by
  have cut : String.ofList (root.text.toList.drop root.text.length) = "" := by decide
  rw [Namespace.movedTo, cut, String.append_empty, ofText_text]

/-- Behind the text of a root there is no slash, so two names become one. -/
theorem parts_movedTo_root {target d : Dir} {above rest : List String} {t n : String}
    (target_parts : target.parts = above ++ [t]) (parts : d.parts = n :: rest) :
    (Namespace.movedTo root target d).parts = above ++ (t ++ n) :: rest := by
  have nonroot : target ≠ root := by
    rintro rfl
    simp at target_parts
  have below : d ≠ root := by
    rintro rfl
    simp at parts
  have isT : IsName t := target.proper t (by simp [target_parts])
  have isN : IsName n := d.proper n (by simp [parts])
  have glued : IsName (t ++ n) := by
    refine ⟨?_, ?_⟩
    · intro eq
      have none := congrArg String.toList eq
      simp only [String.toList_append, String.toList_empty, List.append_eq_nil_iff] at none
      exact isN.1 (String.toList_eq_nil_iff.1 none.2)
    · rw [String.toList_append, List.mem_append, not_or]
      exact ⟨isT.2, isN.2⟩
  have proper : ∀ p ∈ above ++ (t ++ n) :: rest, IsName p := by
    intro p hp
    rcases List.mem_append.1 hp with old | new
    · exact target.proper p (by simp [target_parts, old])
    · rcases List.mem_cons.1 new with rfl | new
      · exact glued
      · exact d.proper p (by simp [parts, new])
  have chars : target.text.toList ++ d.text.toList.drop root.text.length =
      [] ++ spelled (above ++ (t ++ n) :: rest) := by
    have slash : root.text.length = 1 := by decide
    rw [toList_text nonroot, toList_text below, target_parts, parts, slash]
    simp [spelled]
  have read := namesIn_append_spelled [] proper
  rw [← chars] at read
  have same : (Namespace.movedTo root target d).parts =
      namesIn (target.text.toList ++ d.text.toList.drop root.text.length) := by
    simp only [Namespace.movedTo, ofText, names_eq, String.toList_append, String.toList_ofList]
  rw [same, read]
  rfl

theorem contains_movedTo_root {target d : Dir} (ht : target ≠ root) (hd : d ≠ root) :
    target.contains (Namespace.movedTo root target d) = false := by
  obtain ⟨p, hp⟩ := Option.ne_none_iff_exists'.1 (mt parent?_eq_none.1 ht)
  obtain ⟨t, ht⟩ := parent?_eq_some.1 hp
  cases parts : d.parts with
  | nil => exact absurd (Dir.ext parts) hd
  | cons n rest =>
    by_contra inside
    have pre := contains_iff.1 (by simpa using inside : target.contains _ = true)
    rw [parts_movedTo_root ht parts, ht, List.prefix_append_right_inj, List.cons_prefix_cons] at pre
    have chars := congrArg String.toList pre.1
    rw [String.toList_append, List.self_eq_append_right] at chars
    have name := (d.proper n (by simp [parts])).1
    exact name (String.toList_eq_nil_iff.1 chars)

end Dir

namespace FileEntry

def content (f : FileEntry) : String × Nat × List String := (f.name, f.size, f.holders)

theorem slash_notMem_name (f : FileEntry) : '/' ∉ f.name.toList := by
  unfold name
  rw [String.toList_ofList, List.getLastD_eq_getLast?]
  cases last : (Text.pieces '/' f.path.toList).getLast? with
  | none => simp
  | some p => exact Text.not_mem_of_mem_pieces (List.mem_of_getLast? last)

theorem content_of_path {f : FileEntry} (d : Dir) :
    content { f with path := d.text ++ "/" ++ f.name } = f.content := by
  have name : FileEntry.name { f with path := d.text ++ "/" ++ f.name } = f.name := by
    have chars : (d.text ++ "/" ++ f.name).toList = d.text.toList ++ '/' :: f.name.toList := by
      simp
    rw [FileEntry.name, chars, Text.pieces_append, Text.pieces_of_not_mem f.slash_notMem_name,
      List.getLastD_concat, String.ofList_toList]
  rw [content, content, name]

end FileEntry

/-- What is known of a directory, in another place: made at the same time, with the same files in
the same order. -/
structure DirInfo.ArrivedIn (d : Dir) (info info' : DirInfo) : Prop where
  created : info'.created = info.created
  contents : info'.files.map (·.content) = info.files.map (·.content)
  paths : ∀ f ∈ info'.files, f.path = d.text ++ "/" ++ f.name

theorem DirInfo.contents_relocated (info : DirInfo) (d : Dir) :
    (info.relocated d).files.map (·.content) = info.files.map (·.content) := by
  unfold DirInfo.relocated
  rw [List.map_map]
  exact List.map_congr_left fun f _ => FileEntry.content_of_path d

theorem DirInfo.arrivedIn_relocated (info : DirInfo) (d : Dir) :
    info.ArrivedIn d (info.relocated d) where
  created := rfl
  contents := info.contents_relocated d
  paths f hf := by
    obtain ⟨g, -, rfl⟩ := List.mem_map.1 hf
    have same := congrArg Prod.fst (FileEntry.content_of_path (f := g) d)
    exact congrArg (d.text ++ "/" ++ ·) same.symm

namespace Namespace

/-- A tree after a move: what stood below the source stands below the target, what did not is as it
was, and the rest are directories above the target that have been made for it.  No file has come or
gone. -/
structure MovedWhole (ns ns' : Namespace) (now : Instant) (source target : Dir) : Prop where
  arrived : ∀ (r : Dir) (info : DirInfo), ns.get? (source.under r) = some info →
    ∃ info', ns'.get? (target.under r) = some info' ∧ info.ArrivedIn (target.under r) info'
  stayed : ∀ (d : Dir) (info : DirInfo), source.contains d = false → ns.get? d = some info →
    ns'.get? d = some info
  others : ∀ (d : Dir) (info : DirInfo), ns'.get? d = some info →
    (∃ r, d = target.under r ∧ ns.exists? (source.under r) = true) ∨
    (source.contains d = false ∧ ns.get? d = some info) ∨
    (d.contains target = true ∧ d ≠ target ∧ info = ⟨now, []⟩)
  contents : (ns'.allFiles.map (·.content)).Perm (ns.allFiles.map (·.content))

variable {ns ns' : Namespace} {source target : Dir} {now : Instant}

/-! ## No file comes or goes -/

theorem allFiles_perm (ns ns' : Namespace) (h : ns.dirs.Perm ns'.dirs) :
    ns.allFiles.Perm ns'.allFiles :=
  h.flatMap_right _

theorem perm_erase (keys : ns.keys.Nodup) {d : Dir} {info : DirInfo}
    (found : ns.get? d = some info) : ns.dirs.Perm ((d, info) :: (ns.erase d).dirs) := by
  have entries : ns.dirs.Nodup := keys.of_map
  have gone : (d, info) ∉ (ns.erase d).dirs := by simp [erase]
  refine (List.perm_ext_iff_of_nodup entries
    (List.nodup_cons.2 ⟨gone, entries.filter _⟩)).2 ?_
  rintro ⟨e, i⟩
  rw [List.mem_cons, erase, List.mem_filter]
  constructor
  · intro listed
    by_cases here : e = d
    · subst here
      rw [(get?_eq_some_of_mem keys).2 listed] at found
      exact .inl (by rw [Option.some.inj found])
    · exact .inr ⟨listed, by simpa using here⟩
  · rintro (eq | ⟨listed, -⟩)
    · rw [eq]
      exact (get?_eq_some_of_mem keys).1 found
    · exact listed

theorem allFiles_insert {d : Dir} (info : DirInfo) (fresh : ns.get? d = none) :
    (ns.insert d info).allFiles.Perm (info.files ++ ns.allFiles) :=
  allFiles_perm _ ⟨(d, info) :: ns.dirs⟩ (insertSorted_perm info (get?_eq_none_iff.1 fresh))

theorem allFiles_make (created : Instant) (d : Dir) (ns : Namespace) :
    (ns.make created d).allFiles.Perm ns.allFiles := by
  unfold make
  split
  · exact List.Perm.refl _
  · rename_i missing
    exact allFiles_insert ⟨created, []⟩ (by simpa [exists?] using missing)

theorem allFiles_makeDirs (d : Dir) (created : Instant) (ns : Namespace) :
    (ns.makeDirs d created).allFiles.Perm ns.allFiles := by
  unfold makeDirs
  generalize Dir.root :: d.chain = ds
  induction ds generalizing ns with
  | nil => exact List.Perm.refl _
  | cons x ds ih => exact (ih _).trans (allFiles_make created x ns)

/-- An entry that goes to a free place brings all its files along. -/
theorem contents_moveOne (keys : ns.keys.Nodup) {d : Dir} {info : DirInfo}
    (found : ns.get? d = some info) (free : ns.get? (movedTo source target d) = none) :
    ((moveOne source target ns d).allFiles.map (·.content)).Perm
      (ns.allFiles.map (·.content)) := by
  have fresh : (ns.erase d).get? (movedTo source target d) = none := by
    rw [get?_erase, free]
    split <;> rfl
  have put := allFiles_insert (info.relocated (movedTo source target d)) fresh
  have taken : ns.allFiles.Perm (info.files ++ (ns.erase d).allFiles) :=
    allFiles_perm _ ⟨(d, info) :: (ns.erase d).dirs⟩ (perm_erase keys found)
  have moved : moveOne source target ns d =
      (ns.erase d).insert (movedTo source target d)
        (info.relocated (movedTo source target d)) := by
    unfold moveOne
    rw [found]
    rfl
  rw [moved]
  refine (put.map _).trans (List.Perm.trans ?_ (taken.map _).symm)
  rw [List.map_append, List.map_append, info.contents_relocated]

namespace WellFormed

theorem contents_rename (wf : ns.WellFormed) (hs : source ≠ .root)
    (h : ns.rename now source target = .ok ns') :
    (ns'.allFiles.map (·.content)).Perm (ns.allFiles.map (·.content)) := by
  have free := (rename_eq_ok h).2.1
  have ht := wf.target_ne_root free
  have moved := (foldl_moveOne_keeps hs ht (wf.movable source free) wf.keys (wf.free hs free)
    (fun t => (t.allFiles.map (·.content)).Perm (ns.allFiles.map (·.content)))
    (fun t d info keys found free same => (contents_moveOne keys found free).trans same)
    (List.Perm.refl _)).2
  rw [(rename_eq_ok h).2.2]
  split
  · exact ((allFiles_makeDirs _ now _).map _).trans moved
  · exact moved

/-! ## Any directory but the root is moved whole -/

theorem movedWhole (wf : ns.WellFormed) (hs : source ≠ .root)
    (h : ns.rename now source target = .ok ns') : ns.MovedWhole ns' now source target := by
  have free := (rename_eq_ok h).2.1
  have ht := wf.target_ne_root free
  refine ⟨?_, ?_, ?_, wf.contents_rename hs h⟩
  · intro r info found
    refine ⟨info.relocated (target.under r), ?_, info.arrivedIn_relocated _⟩
    rw [wf.get?_rename hs h, if_pos (Dir.contains_under target r), Dir.movedTo_under source ht,
      found]
    rfl
  · intro d info outside found
    have elsewhere : ¬ target.contains d = true := by
      intro inside
      rw [wf.get?_below free inside] at found
      cases found
    rw [wf.get?_rename hs h, if_neg elsewhere, if_neg (by simp [outside]), found]
    rfl
  · intro d info found
    rw [wf.get?_rename hs h] at found
    split at found
    · rename_i inside
      obtain ⟨r, rfl⟩ := Dir.exists_under inside
      rw [Dir.movedTo_under source ht] at found
      obtain ⟨old, there, -⟩ := Option.map_eq_some_iff.1 found
      exact .inl ⟨r, rfl, exists?_iff.2 ⟨old, there⟩⟩
    · rename_i elsewhere
      rw [Option.or_eq_some_iff] at found
      rcases found with kept | ⟨-, made⟩
      · split at kept
        · cases kept
        · rename_i outside
          exact .inr (.inl ⟨by simpa using outside, kept⟩)
      · split at made
        · rename_i above
          refine .inr (.inr ⟨above, ?_, (Option.some.inj made).symm⟩)
          rintro rfl
          exact elsewhere (Dir.contains_self d)
        · cases made

/-! ## The root -/

theorem exists?_foldl_moveOne {ds : List Dir} {e : Dir}
    (h : (ds.foldl (moveOne source target) ns).exists? e = true) :
    ns.exists? e = true ∨ ∃ d ∈ ds, e = movedTo source target d := by
  induction ds generalizing ns with
  | nil => exact .inl h
  | cons d ds ih =>
    rw [List.foldl_cons] at h
    rcases ih h with there | ⟨x, hx, eq⟩
    · cases found : ns.get? d with
      | none =>
        rw [moveOne, found] at there
        exact .inl there
      | some info =>
        rw [exists?, get?_moveOne found] at there
        split at there
        · rename_i new
          exact .inr ⟨d, List.mem_cons_self, new⟩
        · split at there
          · cases there
          · exact .inl there
    · exact .inr ⟨x, List.mem_cons_of_mem _ hx, eq⟩

theorem eq_target_of_contains (wf : ns.WellFormed) (h : ns.rename now .root target = .ok ns')
    {e : Dir} (below : target.contains e = true) (there : ns'.exists? e = true) : e = target := by
  obtain ⟨-, free, eq⟩ := rename_eq_ok h
  have ht := wf.target_ne_root free
  obtain ⟨p, hp⟩ := Option.ne_none_iff_exists'.1 (mt Dir.parent?_eq_none.1 ht)
  rw [hp] at eq
  rw [eq, exists?_makeDirs, Bool.or_eq_true] at there
  rcases there with moved | above
  · rcases exists?_foldl_moveOne moved with old | ⟨d, -, rfl⟩
    · rw [exists?, wf.get?_below free below] at old
      cases old
    · by_cases root : d = .root
      · rw [root, Dir.movedTo_root_root]
      · rw [Dir.contains_movedTo_root ht root] at below
        cases below
  · have longer := Dir.length_le_of_contains below
    have shorter := Dir.length_le_of_contains above
    have step := Dir.length_parent hp
    omega

theorem alone_of_movedWhole (wf : ns.WellFormed) (h : ns.rename now .root target = .ok ns')
    (whole : ns.MovedWhole ns' now .root target) (d : Dir) (there : ns.exists? d = true) :
    d = .root := by
  obtain ⟨info, found⟩ := exists?_iff.1 there
  rw [← Dir.root_under d] at found
  obtain ⟨info', arrived, -⟩ := whole.arrived d info found
  have same := wf.eq_target_of_contains h (Dir.contains_under target d)
    (exists?_iff.2 ⟨info', arrived⟩)
  have parts := congrArg Dir.parts same
  rw [Dir.parts_under, List.append_right_eq_self] at parts
  exact Dir.ext parts

theorem keys_of_alone (wf : ns.WellFormed) (alone : ∀ d, ns.exists? d = true → d = .root) :
    ns.keys = [.root] := by
  have only : ∀ d ∈ ns.keys, d = .root := fun d hd => alone d (exists?_iff_mem.2 hd)
  have once := List.eq_replicate_iff.2 ⟨rfl, only⟩
  have nodup := wf.keys
  have some := exists?_iff_mem.1 wf.root
  rw [once] at nodup some ⊢
  have most := List.nodup_replicate.1 nodup
  cases len : ns.keys.length with
  | zero =>
    rw [len] at some
    cases some
  | succ n =>
    have zero : n = 0 := by omega
    rw [zero]
    rfl

theorem movedWhole_of_alone (wf : ns.WellFormed) (h : ns.rename now .root target = .ok ns')
    (alone : ∀ d, ns.exists? d = true → d = .root) : ns.MovedWhole ns' now .root target := by
  obtain ⟨-, free, eq⟩ := rename_eq_ok h
  have ht := wf.target_ne_root free
  obtain ⟨p, hp⟩ := Option.ne_none_iff_exists'.1 (mt Dir.parent?_eq_none.1 ht)
  obtain ⟨info, found⟩ := exists?_iff.1 wf.root
  have self := Dir.movedTo_root_root target
  have empty : ns.get? (movedTo .root target .root) = none := by
    rw [self]
    exact wf.get?_below free (Dir.contains_self target)
  have only : [Dir.root].filter (Dir.contains .root) = [.root] := rfl
  rw [hp, wf.keys_of_alone alone, only, List.foldl_cons, List.foldl_nil] at eq
  have looks : ∀ e, ns'.get? e = (if e = target then some (info.relocated e) else none).or
      (if e.contains p = true then some ⟨now, []⟩ else none) := by
    intro e
    rw [eq, get?_makeDirs, get?_moveOne found, self]
    congr 2
    split
    · rfl
    · rename_i other
      cases there : ns.get? e with
      | none => rfl
      | some i => exact absurd (alone e (exists?_iff.2 ⟨i, there⟩)) other
  refine ⟨?_, ?_, ?_, ?_⟩
  · intro r i there
    rw [Dir.root_under] at there
    have root := alone r (exists?_iff.2 ⟨i, there⟩)
    subst root
    rw [there] at found
    rw [Dir.under_root, looks, if_pos rfl, Option.some.inj found]
    exact ⟨_, rfl, info.arrivedIn_relocated target⟩
  · intro d i outside
    rw [Dir.contains_root] at outside
    cases outside
  · intro d i there
    rw [looks, Option.or_eq_some_iff] at there
    rcases there with moved | ⟨none, made⟩
    · split at moved
      · rename_i here
        refine .inl ⟨.root, ?_, wf.root⟩
        rw [Dir.under_root]
        exact here
      · cases moved
    · split at none
      · cases none
      · rename_i other
        split at made
        · rename_i above
          exact .inr (.inr ⟨Dir.contains_trans above (Dir.contains_parent hp), other,
            (Option.some.inj made).symm⟩)
        · cases made
  · rw [eq]
    exact ((allFiles_makeDirs p now _).map _).trans (contents_moveOne wf.keys found empty)

end WellFormed

theorem rename_succeeds_iff :
    (∃ ns', ns.rename now source target = .ok ns') ↔
      ns.exists? source = true ∧ ns.exists? target = false := by
  constructor
  · rintro ⟨ns', h⟩
    exact ⟨(rename_eq_ok h).1, (rename_eq_ok h).2.1⟩
  · rintro ⟨there, free⟩
    unfold rename
    rw [if_neg (by simp [there]), if_neg (by simp [free])]
    exact ⟨_, rfl⟩

end Namespace

/-- A move succeeds exactly if there is the source and is not yet the target.  It brings along the
whole tree below the source, and changes nothing else, unless the source is the root of a tree that
has other directories. -/
theorem rename_movedWhole_iff (ns : Namespace) (reached : ns.Reached) (now : Instant)
    (source target : Dir) :
    ((∃ ns', ns.rename now source target = .ok ns') ↔
      ns.exists? source = true ∧ ns.exists? target = false) ∧
    ∀ ns', ns.rename now source target = .ok ns' →
      (ns.MovedWhole ns' now source target ↔
        source ≠ .root ∨ ∀ d, ns.exists? d = true → d = .root) := by
  have wf := reached.wellFormed
  refine ⟨Namespace.rename_succeeds_iff, ?_⟩
  intro ns' h
  by_cases root : source = .root
  · subst root
    constructor
    · intro whole
      exact .inr (wf.alone_of_movedWhole h whole)
    · rintro (other | alone)
      · exact absurd rfl other
      · exact wf.movedWhole_of_alone h alone
  · exact ⟨fun _ => .inl root, fun _ => wf.movedWhole root h⟩

def neighbours : Namespace :=
  (Namespace.empty.addFile 1 "/a/f" 1 ["n1"]).addFile 2 "/xa/g" 1 ["n1"]

theorem rename_root_neighbours :
    ∃ ns', neighbours.rename 3 .root (Dir.ofText "/x") = .ok ns' ∧
      ¬ neighbours.MovedWhole ns' 3 .root (Dir.ofText "/x") ∧
      neighbours.allFiles.map (·.path) = ["/a/f", "/xa/g"] ∧
      ns'.allFiles.map (·.path) = ["/xxa/f"] := by
  have reached : neighbours.Reached := (Namespace.Reached.empty.addFile 1 _ _ _).addFile 2 _ _ _
  obtain ⟨succeeds, whole⟩ :=
    rename_movedWhole_iff neighbours reached 3 .root (Dir.ofText "/x")
  obtain ⟨ns', moved⟩ := succeeds.2 ⟨by decide +kernel, by decide +kernel⟩
  have left : (neighbours.rename 3 .root (Dir.ofText "/x")).toOption.map
      (fun t => t.allFiles.map (·.path)) = some ["/xxa/f"] := by decide +kernel
  rw [moved] at left
  refine ⟨ns', moved, ?_, by decide +kernel, Option.some.inj left⟩
  intro kept
  rcases (whole ns' moved).1 kept with other | alone
  · exact other rfl
  · have there : neighbours.exists? (Dir.ofText "/a") = true := by decide +kernel
    have root := congrArg Dir.parts (alone _ there)
    revert root
    decide +kernel

end Archivist
