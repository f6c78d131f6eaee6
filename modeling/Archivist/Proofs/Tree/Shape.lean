import Archivist.Proofs.Tree.Entries
set_option autoImplicit false

namespace Archivist.Namespace

def allFiles (ns : Namespace) : List FileEntry := ns.dirs.flatMap fun e => e.2.files

structure WellFormed (ns : Namespace) : Prop where
  keys : ns.keys.Nodup
  root : ns.exists? .root = true
  parents : ∀ d p, ns.exists? d = true → d.parent? = some p → ns.exists? p = true
  filed : ∀ (d : Dir) (info : DirInfo), ns.get? d = some info → ∀ f ∈ info.files, f.FiledIn d
  paths : ∀ (d : Dir) (info : DirInfo), ns.get? d = some info → (info.files.map (·.path)).Nodup

namespace WellFormed

variable {ns : Namespace}

theorem exists_above (wf : ns.WellFormed) {d e : Dir} (he : ns.exists? e = true)
    (h : d.contains e = true) : ns.exists? d = true := by
  generalize len : e.parts.length = n
  induction n generalizing e with
  | zero =>
    have root : e = .root := Dir.ext (List.length_eq_zero_iff.1 len)
    rw [root, Dir.contains_root_iff] at h
    rw [h]
    exact wf.root
  | succ n ih =>
    by_cases eq : d = e
    · rw [eq]
      exact he
    · cases hp : e.parent? with
      | none =>
        rw [Dir.parent?_eq_none.1 hp] at len
        simp at len
      | some p =>
        have shorter := Dir.length_parent hp
        exact ih (wf.parents e p he hp) (Dir.contains_parent_of_ne h eq hp) (by omega)

theorem get?_below (wf : ns.WellFormed) {d e : Dir} (missing : ns.exists? d = false)
    (h : d.contains e = true) : ns.get? e = none := by
  cases found : ns.get? e with
  | none => rfl
  | some info =>
    have above := wf.exists_above (exists?_iff.2 ⟨info, found⟩) h
    rw [missing] at above
    cases above

theorem paths_allFiles (wf : ns.WellFormed) :
    (ns.allFiles.map (·.path)).Nodup := by
  have listed : ∀ e ∈ ns.dirs, ns.get? e.1 = some e.2 := fun e he =>
    (get?_eq_some_of_mem wf.keys).2 he
  have apart : ns.dirs.Pairwise fun a b => a.1 ≠ b.1 := List.pairwise_map.1 wf.keys
  unfold allFiles
  rw [List.map_flatMap, List.nodup_flatMap]
  refine ⟨fun e he => wf.paths e.1 e.2 (listed e he), apart.imp_of_mem ?_⟩
  -- a path names its directory, so two directories have none in common
  intro a b ha hb ne x hx hy
  obtain ⟨f, hf, rfl⟩ := List.mem_map.1 hx
  obtain ⟨g, hg, same⟩ := List.mem_map.1 hy
  have filed := wf.filed a.1 a.2 (listed a ha) f hf
  have filed' := (wf.filed b.1 b.2 (listed b hb) g hg).of_path same.symm
  exact ne (filed.unique filed')

theorem exists?_makeDirs (d : Dir) (created : Instant) (e : Dir) :
    (ns.makeDirs d created).exists? e = (ns.exists? e || e.contains d) := by
  unfold exists?
  rw [get?_makeDirs]
  cases ns.get? e with
  | none => by_cases h : e.contains d = true <;> simp [h]
  | some info => rfl

theorem get?_makeDirs_cases {d e : Dir} {created : Instant} {info : DirInfo}
    (h : (ns.makeDirs d created).get? e = some info) :
    ns.get? e = some info ∨ info.files = [] := by
  rw [get?_makeDirs] at h
  cases old : ns.get? e with
  | some i =>
    rw [old] at h
    exact Or.inl h
  | none =>
    rw [old, Option.none_or] at h
    split at h
    · rw [← Option.some.inj h]
      exact Or.inr rfl
    · cases h

theorem empty : Namespace.empty.WellFormed where
  keys := nodup_makeDirs _ _ List.nodup_nil
  root := by rw [Namespace.empty, exists?_makeDirs, Dir.contains_self, Bool.or_true]
  parents d p hd hp := by
    rw [Namespace.empty, exists?_makeDirs, Bool.or_eq_true, Dir.contains_root_iff] at hd
    rcases hd with old | isRoot
    · cases old
    · rw [Dir.parent?_eq_none.2 isRoot] at hp
      cases hp
  filed d info h f hf := by
    rcases get?_makeDirs_cases h with old | none
    · cases old
    · rw [none] at hf
      cases hf
  paths d info h := by
    rcases get?_makeDirs_cases h with old | none
    · cases old
    · rw [none]
      exact List.nodup_nil

protected theorem makeDirs (wf : ns.WellFormed) (d : Dir) (created : Instant) :
    (ns.makeDirs d created).WellFormed where
  keys := nodup_makeDirs d created wf.keys
  root := by rw [exists?_makeDirs, wf.root, Bool.true_or]
  parents e p he hp := by
    rw [exists?_makeDirs, Bool.or_eq_true] at he ⊢
    rcases he with old | new
    · exact Or.inl (wf.parents e p old hp)
    · exact Or.inr (Dir.contains_trans (Dir.contains_parent hp) new)
  filed e info h f hf := by
    rcases get?_makeDirs_cases h with old | empty
    · exact wf.filed e info old f hf
    · rw [empty] at hf
      cases hf
  paths e info h := by
    rcases get?_makeDirs_cases h with old | empty
    · exact wf.paths e info old
    · rw [empty]
      exact List.nodup_nil

protected theorem update (wf : ns.WellFormed) {d : Dir} {change : DirInfo → DirInfo}
    (filed : ∀ info : DirInfo, ns.get? d = some info → ∀ f ∈ (change info).files, f.FiledIn d)
    (paths : ∀ info : DirInfo, ns.get? d = some info →
      ((change info).files.map (·.path)).Nodup) : (ns.update d change).WellFormed := by
  have same : ∀ e, (ns.update d change).exists? e = ns.exists? e := by
    intro e
    rw [Bool.eq_iff_iff, exists?_iff_mem, exists?_iff_mem, keys_update]
  refine ⟨?_, ?_, ?_, ?_, ?_⟩
  · rw [keys_update]
    exact wf.keys
  · rw [same]
    exact wf.root
  · intro e p he hp
    rw [same] at he ⊢
    exact wf.parents e p he hp
  · intro e info h f hf
    rw [get?_update] at h
    split at h
    · rename_i here
      obtain ⟨old, found, rfl⟩ := Option.map_eq_some_iff.1 h
      rw [here]
      exact filed old found f hf
    · exact wf.filed e info h f hf
  · intro e info h
    rw [get?_update] at h
    split at h
    · obtain ⟨old, found, rfl⟩ := Option.map_eq_some_iff.1 h
      exact paths old found
    · exact wf.paths e info h

theorem putFile (wf : ns.WellFormed) {f : FileEntry} {d : Dir} (here : f.FiledIn d) :
    (ns.update d fun info =>
      { info with files := info.files.filter (·.path ≠ f.path) ++ [f] }).WellFormed := by
  refine wf.update ?_ ?_
  · intro info found g hg
    rcases List.mem_append.1 hg with old | new
    · exact wf.filed d info found g (List.mem_of_mem_filter old)
    · rw [List.mem_singleton.1 new]
      exact here
  · intro info found
    have others := (List.filter_sublist (p := fun g : FileEntry => decide (g.path ≠ f.path))).map
      FileEntry.path |>.nodup (wf.paths d info found)
    simp only [List.map_append, List.map_cons, List.map_nil]
    refine List.nodup_append.2 ⟨others, List.nodup_singleton _, ?_⟩
    intro x hx y hy eq
    obtain ⟨g, hg, rfl⟩ := List.mem_map.1 hx
    have other : g.path ≠ f.path := by simpa using (List.mem_filter.1 hg).2
    exact other (eq.trans (List.mem_singleton.1 hy))

protected theorem addFile (wf : ns.WellFormed) (now : Instant) (path : String) (size : Nat)
    (holders : List String) : (ns.addFile now path size holders).WellFormed :=
  (wf.makeDirs _ now).putFile ⟨congrArg Dir.text (Dir.ofText_text _), rfl⟩

protected theorem mapFiles (wf : ns.WellFormed) {g : FileEntry → FileEntry}
    (path : ∀ f, (g f).path = f.path) : (ns.mapFiles g).WellFormed := by
  have same : ∀ e, (ns.mapFiles g).exists? e = ns.exists? e := by
    intro e
    rw [Bool.eq_iff_iff, exists?_iff_mem, exists?_iff_mem, keys_mapFiles]
  refine ⟨?_, ?_, ?_, ?_, ?_⟩
  · rw [keys_mapFiles]
    exact wf.keys
  · rw [same]
    exact wf.root
  · intro e p he hp
    rw [same] at he ⊢
    exact wf.parents e p he hp
  · intro e info h f hf
    rw [get?_mapFiles] at h
    obtain ⟨old, found, rfl⟩ := Option.map_eq_some_iff.1 h
    obtain ⟨x, hx, rfl⟩ := List.mem_map.1 hf
    exact (wf.filed e old found x hx).of_path (path x)
  · intro e info h
    rw [get?_mapFiles] at h
    obtain ⟨old, found, rfl⟩ := Option.map_eq_some_iff.1 h
    have paths : (old.files.map g).map (·.path) = old.files.map (·.path) := by
      rw [List.map_map]
      exact List.map_congr_left fun f _ => path f
    rw [paths]
    exact wf.paths e old found

end WellFormed
end Archivist.Namespace
