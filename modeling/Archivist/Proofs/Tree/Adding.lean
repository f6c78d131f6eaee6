import Archivist.Proofs.Tree.Listing
set_option autoImplicit false

namespace Archivist

namespace Dir

theorem parts_join_name (d : Dir) {n : String} (h : IsName n) :
    (d.join n).parts = d.parts ++ [n] := by
  rw [parts_join, names_eq, namesIn_name h]

theorem parent?_join_name (d : Dir) {n : String} (h : IsName n) : (d.join n).parent? = some d :=
  parent?_eq_some.2 ⟨n, parts_join_name d h⟩

theorem name_join_name (d : Dir) {n : String} (h : IsName n) : (d.join n).name = n := by
  rw [name, parts_join_name d h, List.getLastD_concat]

theorem exists_name (others : List String) : ∃ n, IsName n ∧ others.contains n = false := by
  obtain ⟨k, bound⟩ : ∃ k, ∀ x ∈ others, x.toList.length ≤ k := by
    induction others with
    | nil => exact ⟨0, fun x hx => by cases hx⟩
    | cons y ys ih =>
      obtain ⟨k, bound⟩ := ih
      refine ⟨max k y.toList.length, fun x hx => ?_⟩
      rcases List.mem_cons.1 hx with rfl | hx
      · exact Nat.le_max_right _ _
      · exact Nat.le_trans (bound x hx) (Nat.le_max_left _ _)
  have letters : (String.ofList (List.replicate (k + 1) 'u')).toList = List.replicate (k + 1) 'u' :=
    String.toList_ofList
  refine ⟨String.ofList (List.replicate (k + 1) 'u'), ⟨?_, ?_⟩, ?_⟩
  · intro empty
    rw [empty] at letters
    cases letters
  · rw [letters]
    intro slash
    cases List.eq_of_mem_replicate slash
  · rw [← Bool.not_eq_true, List.contains_iff_mem]
    intro taken
    have short := bound _ taken
    rw [letters, List.length_replicate] at short
    omega

end Dir

namespace Namespace

variable {ns : Namespace} {x d e : Dir} {now : Instant} {size : Nat} {holders : List String}

theorem addFile_below (h : x.parent? = some d) (ns : Namespace) (now : Instant) (size : Nat)
    (holders : List String) : ns.addFile now x.text size holders =
      (ns.makeDirs d now).update d fun info =>
        { info with files := info.files.filter (·.path ≠ x.text) ++ [⟨x.text, size, holders⟩] } := by
  have here : FileEntry.directory ⟨x.text, size, holders⟩ = d := by
    rw [FileEntry.directory, Dir.ofText_text, h]
    rfl
  unfold addFile
  rw [Dir.ofText_text]
  dsimp only
  rw [here]

theorem exists?_addFile_below (h : x.parent? = some d) (e : Dir) :
    (ns.addFile now x.text size holders).exists? e = (ns.exists? e || e.contains d) := by
  have made : (ns.makeDirs d now).exists? e = _ := WellFormed.exists?_makeDirs d now e
  rw [addFile_below h, ← made, Bool.eq_iff_iff, exists?_iff_mem, exists?_iff_mem, keys_update]

def MadeAt (ns : Namespace) (now : Instant) : Prop :=
  ∀ e info, ns.get? e = some info → info.created = now

theorem MadeAt.makeDirs (made : ns.MadeAt now) (d : Dir) : (ns.makeDirs d now).MadeAt now := by
  intro e info found
  rw [get?_makeDirs, Option.or_eq_some_iff] at found
  rcases found with old | ⟨-, new⟩
  · exact made e info old
  · split at new
    · cases new
      rfl
    · cases new

theorem MadeAt.addFile_below (made : ns.MadeAt now) (h : x.parent? = some d) (size : Nat)
    (holders : List String) : (ns.addFile now x.text size holders).MadeAt now := by
  intro e info found
  rw [Namespace.addFile_below h, get?_update] at found
  split at found
  · obtain ⟨old, there, rfl⟩ := Option.map_eq_some_iff.1 found
    exact made.makeDirs d _ old there
  · exact made.makeDirs d e info found

theorem stored_addFile_below (h : x.parent? = some d) :
    (ns.addFile now x.text size holders).Stored d ⟨x.text, size, holders⟩ := by
  have there : (ns.makeDirs d now).exists? d = true := by
    rw [WellFormed.exists?_makeDirs, Dir.contains_self, Bool.or_true]
  obtain ⟨info, found⟩ := exists?_iff.1 there
  rw [Stored, addFile_below h, get?_update, if_pos rfl, found]
  exact ⟨_, rfl, List.mem_append_right _ (List.mem_singleton_self _)⟩

theorem Stored.addFile_below {f : FileEntry} (stored : ns.Stored e f) (h : x.parent? = some d)
    (other : f.path ≠ x.text) : (ns.addFile now x.text size holders).Stored e f := by
  obtain ⟨info, found, hf⟩ := stored
  have still : (ns.makeDirs d now).get? e = some info := by
    rw [get?_makeDirs, found, Option.some_or]
  rw [Stored, Namespace.addFile_below h, get?_update]
  split
  · rename_i here
    subst here
    rw [still]
    refine ⟨_, rfl, List.mem_append_left _ (List.mem_filter.2 ⟨hf, ?_⟩)⟩
    simpa using other
  · exact ⟨info, still, hf⟩

end Namespace

/-- A directory with all above it, and a file in it and in one of those. -/
def nestedTree (outer inner : Dir) (n : String) : Namespace :=
  (Namespace.empty.addFile Instant.epoch (inner.join n).text 1 []).addFile Instant.epoch
    (outer.join n).text 1 []

namespace Namespace

variable {outer inner : Dir} {n : String}

theorem reached_nestedTree (outer inner : Dir) (n : String) : (nestedTree outer inner n).Reached :=
  .addFile _ _ _ _ (.addFile _ _ _ _ .empty)

theorem exists?_nestedTree (name : IsName n) (above : outer.contains inner = true) (e : Dir) :
    (nestedTree outer inner n).exists? e = true ↔ e.contains inner = true := by
  rw [nestedTree, exists?_addFile_below (outer.parent?_join_name name),
    exists?_addFile_below (inner.parent?_join_name name), Namespace.empty,
    WellFormed.exists?_makeDirs, Bool.or_eq_true, Bool.or_eq_true, Bool.or_eq_true,
    Dir.contains_root_iff]
  constructor
  · rintro (((old | rfl) | inside) | inside)
    · cases old
    · exact Dir.contains_root inner
    · exact inside
    · exact Dir.contains_trans inside above
  · exact fun inside => .inl (.inr inside)

theorem createdAt_nestedTree (name : IsName n) (above : outer.contains inner = true) {e : Dir}
    (inside : e.contains inner = true) :
    (nestedTree outer inner n).createdAt e = .ok Instant.epoch := by
  have hbare : bare.MadeAt Instant.epoch := fun e info found => by cases found
  have made : (nestedTree outer inner n).MadeAt Instant.epoch :=
    ((hbare.makeDirs .root).addFile_below (inner.parent?_join_name name) 1 []).addFile_below
      (outer.parent?_join_name name) 1 []
  obtain ⟨info, found⟩ := exists?_iff.1 ((exists?_nestedTree name above e).2 inside)
  rw [createdAt, found, ← made e info found]

theorem stored_outer (name : IsName n) :
    (nestedTree outer inner n).Stored outer ⟨(outer.join n).text, 1, []⟩ :=
  stored_addFile_below (outer.parent?_join_name name)

theorem stored_inner (name : IsName n) (ne : outer ≠ inner) :
    (nestedTree outer inner n).Stored inner ⟨(inner.join n).text, 1, []⟩ := by
  refine (stored_addFile_below (inner.parent?_join_name name)).addFile_below
    (outer.parent?_join_name name) ?_
  intro same
  have joined := congrArg Dir.parent? (Dir.text_inj.1 same)
  rw [inner.parent?_join_name name, outer.parent?_join_name name] at joined
  exact ne (Option.some.inj joined).symm

theorem subdirectories_nestedTree (name : IsName n) (above : outer.contains inner = true) {p c : Dir}
    (parent : c.parent? = some p) (inside : c.contains inner = true) :
    (nestedTree outer inner n).subdirectories p = .ok [c] := by
  have wf := (reached_nestedTree outer inner n).wellFormed
  have there := (exists?_nestedTree name above c).2 inside
  have only : ∀ e, e ∈ (nestedTree outer inner n).children p ↔ e ∈ [c] := by
    intro e
    rw [mem_children, exists?_nestedTree name above, List.mem_singleton]
    constructor
    · rintro ⟨inside', parent'⟩
      have same : e.parts.length = c.parts.length :=
        (Dir.length_parent parent').trans (Dir.length_parent parent).symm
      rcases Dir.contains_total inside' inside with first | first
      · exact Dir.ext ((Dir.contains_iff.1 first).eq_of_length same)
      · exact Dir.ext ((Dir.contains_iff.1 first).eq_of_length same.symm).symm
    · rintro rfl
      exact ⟨inside, parent⟩
  have nodup : ((nestedTree outer inner n).children p).Nodup := List.filter_sublist.nodup wf.keys
  unfold subdirectories
  rw [if_pos (wf.parents c p there parent)]
  exact congrArg Except.ok (List.perm_singleton.1
    ((List.perm_ext_iff_of_nodup nodup (List.nodup_singleton c)).2 only))

end Namespace

end Archivist
