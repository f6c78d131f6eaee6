import Archivist.Proofs.Tree.Reached
import Mathlib.Data.List.Range
import Mathlib.Data.List.Perm.Subperm
set_option autoImplicit false

namespace Archivist.Namespace

def Stored (ns : Namespace) (d : Dir) (f : FileEntry) : Prop :=
  ∃ info, ns.get? d = some info ∧ f ∈ info.files

/-- A file belongs to a directory, with those of its subdirectories or without. -/
def InScope (ns : Namespace) (d : Dir) (deep : Bool) (f : FileEntry) : Prop :=
  ∃ e, ns.Stored e f ∧ if deep then d.contains e = true else e = d

variable {ns : Namespace}

theorem Stored.exists {d : Dir} {f : FileEntry} (h : ns.Stored d f) : ns.exists? d = true := by
  obtain ⟨info, found, -⟩ := h
  exact exists?_iff.2 ⟨info, found⟩

theorem Stored.filedIn (wf : ns.WellFormed) {d : Dir} {f : FileEntry} (h : ns.Stored d f) :
    f.FiledIn d := by
  obtain ⟨info, found, hf⟩ := h
  exact wf.filed d info found f hf

theorem mem_children {c d : Dir} :
    c ∈ ns.children d ↔ ns.exists? c = true ∧ c.parent? = some d := by
  rw [exists?_iff_mem, children, List.mem_filter, decide_eq_true_iff]
  rfl

/-- All directories on the way from one down to another are there. -/
def Unbroken (ns : Namespace) (d e : Dir) : Prop :=
  ∀ a : Dir, d.contains a = true → a.contains e = true → ns.exists? a = true

/-- A file is found where it is looked for, on such a way if subdirectories are looked at. -/
def Shown (ns : Namespace) (d : Dir) (deep : Bool) (f : FileEntry) : Prop :=
  ∃ e, ns.Stored e f ∧ if deep then d.contains e = true ∧ ns.Unbroken d e else e = d

theorem WellFormed.unbroken (wf : ns.WellFormed) {e : Dir} (he : ns.exists? e = true) (d : Dir) :
    ns.Unbroken d e :=
  fun _ _ inside => wf.exists_above he inside

theorem Unbroken.of_child {c d e : Dir} (there : ns.exists? d = true) (parent : c.parent? = some d)
    (rest : ns.Unbroken c e) (inside : c.contains e = true) : ns.Unbroken d e := by
  intro a below above
  rcases Dir.contains_total above inside with outer | inner
  · by_cases eq : a = c
    · exact rest a (by rw [eq]; exact Dir.contains_self c) above
    · rw [Dir.contains_antisymm (Dir.contains_parent_of_ne outer eq parent) below]
      exact there
  · exact rest a inner above

/-- Whatever the tree is like, a listing shows what the ways from its directory lead to, as far as
its fuel goes. -/
theorem mem_collect_of_fuel (n : Nat) (d : Dir) (f : FileEntry) :
    f ∈ ns.collect true n d ↔
      ∃ e, d.contains e = true ∧ e.parts.length < d.parts.length + n ∧ ns.Unbroken d e ∧
        ns.Stored e f := by
  induction n generalizing d with
  | zero =>
    simp only [collect, List.not_mem_nil, false_iff]
    rintro ⟨e, below, shorter, -, -⟩
    have longer := Dir.length_le_of_contains below
    omega
  | succ n ih =>
    unfold collect
    cases found : ns.get? d with
    | none =>
      simp only [List.not_mem_nil, false_iff]
      rintro ⟨e, below, -, way, -⟩
      obtain ⟨info, there⟩ := exists?_iff.1 (way d (Dir.contains_self d) below)
      rw [found] at there
      cases there
    | some info =>
      have there : ns.exists? d = true := exists?_iff.2 ⟨info, found⟩
      simp only [if_true, List.mem_append, List.mem_flatMap, mem_children]
      constructor
      · rintro (here | ⟨c, ⟨-, parent⟩, deeper⟩)
        · refine ⟨d, Dir.contains_self d, by omega, ?_, info, found, here⟩
          intro a below above
          rw [Dir.contains_antisymm above below]
          exact there
        · obtain ⟨e, below, shorter, way, stored⟩ := (ih c).1 deeper
          have step := Dir.length_parent parent
          exact ⟨e, Dir.contains_trans (Dir.contains_parent parent) below, by omega,
            way.of_child there parent below, stored⟩
      · rintro ⟨e, below, shorter, way, stored⟩
        by_cases eq : e = d
        · obtain ⟨i, there, hf⟩ := stored
          rw [eq, found, Option.some.injEq] at there
          rw [there]
          exact Or.inl hf
        · obtain ⟨c, parent, inside⟩ := Dir.exists_child_of_contains below eq
          have step := Dir.length_parent parent
          have outer := Dir.contains_parent parent
          refine Or.inr ⟨c, ⟨way c outer inside, parent⟩, (ih c).2 ⟨e, inside, by omega, ?_, stored⟩⟩
          exact fun a between above => way a (Dir.contains_trans outer between) above

theorem Unbroken.length_lt {d e : Dir} (way : ns.Unbroken d e) (below : d.contains e = true) :
    e.parts.length < d.parts.length + ns.dirs.length := by
  -- the directories on the way have all numbers of names between those of its ends
  have longer := Dir.length_le_of_contains below
  have lengths : List.range' d.parts.length (e.parts.length - d.parts.length + 1) ⊆
      ns.keys.map fun a => a.parts.length := by
    intro i hi
    rw [List.mem_range'_1] at hi
    let a : Dir := ⟨e.parts.take i, fun p hp => e.proper p (List.mem_of_mem_take hp)⟩
    have above : a.contains e = true := Dir.contains_iff.2 (List.take_prefix _ _)
    have size : a.parts.length = i := by
      change (e.parts.take i).length = i
      rw [List.length_take]
      omega
    have between : d.contains a = true := by
      rcases Dir.contains_total below above with inner | outer
      · exact inner
      · have shorter := Dir.length_le_of_contains outer
        rw [Dir.ext ((Dir.contains_iff.1 outer).eq_of_length (by omega))]
        exact Dir.contains_self d
    exact List.mem_map.2 ⟨a, exists?_iff_mem.1 (way a between above), size⟩
  have bound := (List.Nodup.subperm List.nodup_range' lengths).length_le
  rw [List.length_range', List.length_map, Namespace.keys, List.length_map] at bound
  omega

theorem mem_collect (wf : ns.WellFormed) (n : Nat) (d : Dir) (f : FileEntry) :
    f ∈ ns.collect true n d ↔
      ∃ e, d.contains e = true ∧ e.parts.length < d.parts.length + n ∧ ns.Stored e f := by
  rw [mem_collect_of_fuel]
  constructor
  · rintro ⟨e, below, shorter, -, stored⟩
    exact ⟨e, below, shorter, stored⟩
  · rintro ⟨e, below, shorter, stored⟩
    exact ⟨e, below, shorter, wf.unbroken stored.exists d, stored⟩

theorem files_eq_ok {d : Dir} {deep : Bool} {fs : List FileEntry}
    (h : ns.files d deep = .ok fs) :
    ns.exists? d = true ∧ fs = ns.collect deep (ns.dirs.length + 1) d := by
  unfold files at h
  split at h
  · rename_i there
    exact ⟨there, (Except.ok.inj h).symm⟩
  · cases h

theorem collect_flat (n : Nat) (d : Dir) :
    ns.collect false (n + 1) d = ((ns.get? d).map (·.files)).getD [] := by
  unfold collect
  cases ns.get? d with
  | none => rfl
  | some info => exact List.append_nil _

theorem mem_collect_flat {info : DirInfo} {d : Dir} (found : ns.get? d = some info) (n : Nat)
    (f : FileEntry) : f ∈ ns.collect false (n + 1) d ↔ ns.Stored d f := by
  rw [collect_flat, found]
  constructor
  · exact fun hf => ⟨info, found, hf⟩
  · rintro ⟨i, he, hf⟩
    rw [found, Option.some.injEq] at he
    rw [he]
    exact hf

theorem mem_files_iff_shown {d : Dir} {deep : Bool} {fs : List FileEntry}
    (h : ns.files d deep = .ok fs) (f : FileEntry) : f ∈ fs ↔ ns.Shown d deep f := by
  obtain ⟨there, rfl⟩ := files_eq_ok h
  cases deep with
  | false =>
    obtain ⟨info, found⟩ := exists?_iff.1 there
    rw [mem_collect_flat found]
    constructor
    · exact fun stored => ⟨d, stored, rfl⟩
    · rintro ⟨e, stored, rfl⟩
      exact stored
  | true =>
    rw [mem_collect_of_fuel]
    constructor
    · rintro ⟨e, below, -, way, stored⟩
      exact ⟨e, stored, below, way⟩
    · rintro ⟨e, stored, below, way⟩
      have bound := way.length_lt below
      exact ⟨e, below, by omega, way, stored⟩

theorem WellFormed.shown_iff_inScope (wf : ns.WellFormed) {d : Dir} {deep : Bool} {f : FileEntry} :
    ns.Shown d deep f ↔ ns.InScope d deep f := by
  refine exists_congr fun e => and_congr_right fun stored => ?_
  cases deep with
  | false => exact Iff.rfl
  | true => exact and_iff_left (wf.unbroken stored.exists d)

theorem mem_files (wf : ns.WellFormed) {d : Dir} {deep : Bool} {fs : List FileEntry}
    (h : ns.files d deep = .ok fs) (f : FileEntry) : f ∈ fs ↔ ns.InScope d deep f :=
  (mem_files_iff_shown h f).trans wf.shown_iff_inScope

theorem paths_collect (wf : ns.WellFormed) (n : Nat) (d : Dir) :
    ((ns.collect true n d).map (·.path)).Nodup := by
  induction n generalizing d with
  | zero => exact List.nodup_nil
  | succ n ih =>
    unfold collect
    cases found : ns.get? d with
    | none => exact List.nodup_nil
    | some info =>
      simp only [if_true, List.map_append, List.map_flatMap]
      refine List.nodup_append.2 ⟨wf.paths d info found, ?_, ?_⟩
      · refine List.nodup_flatMap.2 ⟨fun c _ => ih c, ?_⟩
        have nodup : (ns.children d).Nodup := wf.keys.filter _
        refine nodup.imp_of_mem ?_
        intro a b ha hb ne x hx hy
        -- subdirectories of one directory have no file in common
        obtain ⟨f, hf, rfl⟩ := List.mem_map.1 hx
        obtain ⟨g, hg, eq⟩ := List.mem_map.1 hy
        obtain ⟨e, below, -, stored⟩ := (mem_collect wf n a f).1 hf
        obtain ⟨e', below', -, stored'⟩ := (mem_collect wf n b g).1 hg
        have same : e' = e :=
          (stored'.filedIn wf).unique ((stored.filedIn wf).of_path eq)
        rw [same] at below'
        have la := Dir.length_parent (mem_children.1 ha).2
        have lb := Dir.length_parent (mem_children.1 hb).2
        have len : a.parts.length = b.parts.length := by omega
        rcases Dir.contains_total below below' with hab | hba
        · exact ne (Dir.ext ((Dir.contains_iff.1 hab).eq_of_length len))
        · exact ne (Dir.ext ((Dir.contains_iff.1 hba).eq_of_length len.symm)).symm
      · intro x hx y hy eq
        obtain ⟨f, hf, rfl⟩ := List.mem_map.1 hx
        obtain ⟨c, hc, hy⟩ := List.mem_flatMap.1 hy
        obtain ⟨g, hg, rfl⟩ := List.mem_map.1 hy
        obtain ⟨e, below, -, stored⟩ := (mem_collect wf n c g).1 hg
        -- a file of the directory itself is not also one of a subdirectory
        have filed := (wf.filed d info found f hf).of_path eq.symm
        have same : e = d := (stored.filedIn wf).unique filed
        have longer := Dir.length_le_of_contains below
        have step := Dir.length_parent (mem_children.1 hc).2
        rw [same] at longer
        omega

theorem paths_files (wf : ns.WellFormed) {d : Dir} {deep : Bool} {fs : List FileEntry}
    (h : ns.files d deep = .ok fs) : (fs.map (·.path)).Nodup := by
  obtain ⟨there, rfl⟩ := files_eq_ok h
  cases deep with
  | false =>
    obtain ⟨info, found⟩ := exists?_iff.1 there
    rw [collect_flat, found]
    exact wf.paths d info found
  | true => exact paths_collect wf _ d

theorem children_mapFiles (g : FileEntry → FileEntry) (d : Dir) :
    (ns.mapFiles g).children d = ns.children d := by
  have same := keys_mapFiles ns g
  unfold keys at same
  rw [children, same, children]

theorem collect_mapFiles (g : FileEntry → FileEntry) (deep : Bool) (n : Nat) (d : Dir) :
    (ns.mapFiles g).collect deep n d = (ns.collect deep n d).map g := by
  induction n generalizing deep d with
  | zero => rfl
  | succ n ih =>
    unfold collect
    rw [get?_mapFiles, children_mapFiles]
    cases ns.get? d with
    | none => rfl
    | some info =>
      cases deep with
      | false => simp
      | true =>
        simp only [if_true, List.map_append, List.map_flatMap, Option.map_some]
        congr 1
        exact List.flatMap_congr fun c _ => ih true c

theorem files_mapFiles {g : FileEntry → FileEntry} {d : Dir} {deep : Bool} {fs : List FileEntry}
    (h : ns.files d deep = .ok fs) : (ns.mapFiles g).files d deep = .ok (fs.map g) := by
  obtain ⟨there, rfl⟩ := files_eq_ok h
  have still : (ns.mapFiles g).exists? d = true := by
    rw [exists?_iff_mem, keys_mapFiles, ← exists?_iff_mem]
    exact there
  rw [files, if_pos still, collect_mapFiles]
  simp only [mapFiles, List.length_map]

end Archivist.Namespace
