import Archivist.Proofs.Tree.Insertion
import Archivist.Proofs.Tree.Order
import Archivist.Proofs.Wire.ByteOrder
set_option autoImplicit false

/-!
# Listings go depth first

A listing puts out the files of a directory and then goes into each subdirectory.  That this ends is
not obvious, as subdirectories are found by looking through all directories; it does because each
step leads one name further (`collects_collect`).  What comes out is every file at or below the
directory, once, each directory before its subdirectories and these in the order of their bytes.
-/

namespace Archivist

namespace Namespace

mutual

/-- A listing that has ended, with what it put out. -/
inductive Collects (ns : Namespace) : Dir → List FileEntry → Prop where
  | missing {d : Dir} (gone : ns.get? d = none) : Collects ns d []
  | found {d : Dir} {info : DirInfo} {below : List FileEntry} (there : ns.get? d = some info)
      (rest : CollectsEach ns (ns.children d) below) : Collects ns d (info.files ++ below)

inductive CollectsEach (ns : Namespace) : List Dir → List FileEntry → Prop where
  | nil : CollectsEach ns [] []
  | cons {d : Dir} {ds : List Dir} {fs rest : List FileEntry} (first : Collects ns d fs)
      (others : CollectsEach ns ds rest) : CollectsEach ns (d :: ds) (fs ++ rest)

end

variable {ns : Namespace} {d : Dir}

theorem collectsEach_flatMap {list : Dir → List FileEntry} {ds : List Dir}
    (each : ∀ c ∈ ds, ns.Collects c (list c)) : ns.CollectsEach ds (ds.flatMap list) := by
  induction ds with
  | nil => exact .nil
  | cons c ds ih =>
    exact .cons (each c List.mem_cons_self) (ih fun e he => each e (List.mem_cons_of_mem _ he))

def Shallow (ns : Namespace) (n : Nat) (d : Dir) : Prop :=
  ∀ e, d.contains e = true → ns.Unbroken d e → e.parts.length < d.parts.length + n

theorem shallow_dirs (ns : Namespace) (d : Dir) : ns.Shallow ns.dirs.length d :=
  fun _ below way => way.length_lt below

theorem Shallow.there (h : ns.Shallow 0 d) : ns.get? d = none := by
  cases found : ns.get? d with
  | none => rfl
  | some info =>
    have way : ns.Unbroken d d := by
      intro a below above
      rw [Dir.contains_antisymm above below]
      exact exists?_iff.2 ⟨info, found⟩
    have less := h d (Dir.contains_self d) way
    omega

theorem Shallow.child {n : Nat} (h : ns.Shallow (n + 1) d) (there : ns.exists? d = true) {c : Dir}
    (hc : c ∈ ns.children d) : ns.Shallow n c := by
  intro e below way
  have parent := (mem_children.1 hc).2
  have step := Dir.length_parent parent
  have less := h e (Dir.contains_trans (Dir.contains_parent parent) below)
    (way.of_child there parent below)
  omega

theorem collects_collect {n : Nat} (enough : ns.Shallow n d) :
    ns.Collects d (ns.collect true n d) := by
  induction n generalizing d with
  | zero => exact .missing enough.there
  | succ n ih =>
    unfold collect
    cases found : ns.get? d with
    | none => exact .missing found
    | some info =>
      have there : ns.exists? d = true := exists?_iff.2 ⟨info, found⟩
      exact .found found (collectsEach_flatMap fun c hc => ih (enough.child there hc))

theorem collect_succ {n : Nat} (enough : ns.Shallow n d) :
    ns.collect true (n + 1) d = ns.collect true n d := by
  induction n generalizing d with
  | zero =>
    unfold collect
    rw [enough.there]
  | succ n ih =>
    conv_lhs => unfold collect
    conv_rhs => unfold collect
    cases found : ns.get? d with
    | none => rfl
    | some info =>
      have there : ns.exists? d = true := exists?_iff.2 ⟨info, found⟩
      simp only [if_true]
      congr 1
      exact List.flatMap_congr fun c hc => ih (enough.child there hc)

theorem files_of_exists (there : ns.exists? d = true) (deep : Bool) :
    ns.files d deep = .ok (ns.collect deep (ns.dirs.length + 1) d) :=
  if_pos there

theorem files_flat (there : ns.exists? d = true) : ns.files d false = .ok (ns.filesIn d) := by
  rw [files_of_exists there, collect_flat, filesIn]

/-- A listing is the files of the directory and then the listings of its subdirectories. -/
theorem files_deep (there : ns.exists? d = true) :
    ∃ below : List (List FileEntry),
      (ns.children d).map (ns.files · true) = below.map .ok ∧
      ns.files d true = .ok (ns.filesIn d ++ below.flatten) := by
  refine ⟨(ns.children d).map (ns.collect true (ns.dirs.length + 1)), ?_, ?_⟩
  · rw [List.map_map]
    exact List.map_congr_left fun c hc => files_of_exists (mem_children.1 hc).1 true
  · obtain ⟨info, found⟩ := exists?_iff.1 there
    rw [files_of_exists there, collect, found, filesIn, found, ← List.flatMap_def]
    simp only [if_true, Option.map_some, Option.getD_some]
    congr 2
    exact List.flatMap_congr fun c _ => (collect_succ (ns.shallow_dirs c)).symm

theorem directory_ne_of_subtrees (wf : ns.WellFormed) {below : List (List FileEntry)}
    (subtrees : (ns.children d).map (ns.files · true) = below.map .ok) {f : FileEntry}
    (hf : f ∈ below.flatten) : f.directory ≠ d := by
  intro same
  obtain ⟨fs, hfs, hf⟩ := List.mem_flatten.1 hf
  have ok : Except.ok fs ∈ (ns.children d).map (ns.files · true) :=
    subtrees ▸ List.mem_map_of_mem hfs
  obtain ⟨c, hc, sub⟩ := List.mem_map.1 ok
  obtain ⟨e, stored, below⟩ := (mem_files wf sub f).1 hf
  have inside : c.contains e = true := below
  rw [← (stored.filedIn wf).directory, same] at inside
  have longer := Dir.length_le_of_contains inside
  have step := Dir.length_parent (mem_children.1 hc).2
  omega

theorem files_deep_perm {log all : List FileEntry} (recorded : ns.Recorded log)
    (listed : ns.files d true = .ok all) :
    all.Perm (log.filter fun f => d.containsText f.directory.text) := by
  have wf := recorded.reached.wellFormed
  have once : all.Nodup := (paths_files wf listed).of_map
  have onceInLog : log.Nodup := recorded.nodup.of_map
  refine (List.perm_ext_iff_of_nodup once (onceInLog.filter _)).2 fun f => ?_
  rw [mem_files wf listed, List.mem_filter, recorded.mem_iff, Dir.containsText, Dir.ofText_text]
  constructor
  · rintro ⟨e, stored, inside⟩
    have home : f.directory = e := (stored.filedIn wf).directory
    rw [home]
    exact ⟨stored, inside⟩
  · rintro ⟨stored, inside⟩
    exact ⟨f.directory, stored, inside⟩

end Namespace

open Namespace in
/-- For every tree that is reached there is the list of its files in the order in which they were
added, and a listing of a directory puts out what this list has at or below it, each file once:
first the files of the directory itself as they stand in the list, which is also what the flat
listing puts out, and then the listings of its subdirectories in the order of their bytes. -/
theorem files_collects {ns : Namespace} {d : Dir} (h : ns.Reached)
    (there : ns.exists? d = true) :
    (∃ log, ns.Recorded log) ∧ ∀ log, ns.Recorded log →
      (∀ f, f ∈ log ↔ ∃ e, ns.Stored e f) ∧
      ∃ (all own : List FileEntry) (cs : List Dir) (below : List (List FileEntry)),
        ns.files d true = .ok all ∧ ns.Collects d all ∧
        all.Perm (log.filter fun f => d.containsText f.directory.text) ∧
        (all.map (·.path)).Nodup ∧
        ns.files d false = .ok own ∧
        own = log.filter (·.directory = d) ∧ own = all.filter (·.directory = d) ∧
        ns.subdirectories d = .ok cs ∧
        (∀ c, c ∈ cs ↔ ns.exists? c = true ∧ c.parent? = some d) ∧
        cs.Pairwise (fun a b => Wire.BytesLess (Wire.utf8 a.text) (Wire.utf8 b.text)) ∧
        cs.map (ns.files · true) = below.map .ok ∧
        all = own ++ below.flatten := by
  refine ⟨h.recorded, fun log recorded => ?_⟩
  have wf := h.wellFormed
  refine ⟨fun f => ?_, ?_⟩
  · rw [recorded.mem_iff]
    constructor
    · exact fun stored => ⟨f.directory, stored⟩
    · rintro ⟨e, stored⟩
      rwa [(stored.filedIn wf).directory]
  obtain ⟨below, subtrees, listed⟩ := files_deep there
  have perm := files_deep_perm recorded listed
  refine ⟨_, ns.filesIn d, ns.children d, below, listed, ?_, perm, paths_files wf listed,
    files_flat there, recorded.filesIn_eq d, ?_, if_pos there, fun _ => mem_children,
    (h.ordered.children d).imp fun less => Wire.utf8_lt less, subtrees, rfl⟩
  · have ends := collects_collect (ns.shallow_dirs d)
    rw [← collect_succ (ns.shallow_dirs d)] at ends
    rwa [(files_eq_ok listed).2]
  · have elsewhere : ∀ f ∈ below.flatten, f.directory ≠ d := fun f hf =>
      directory_ne_of_subtrees wf subtrees hf
    have here : ∀ f ∈ ns.filesIn d, f.directory = d := fun f hf =>
      ((mem_filesIn.1 hf).filedIn wf).directory
    rw [List.filter_append, List.filter_eq_self.2 fun f hf => decide_eq_true (here f hf),
      List.filter_eq_nil_iff.2 fun f hf => by simpa using elsewhere f hf, List.append_nil]

def discs : Namespace :=
  ((((Namespace.empty.addFile 1 "/rls/T/b.rar" 1 ["n1"]).addFile
    2 "/rls/T/CD2/d.rar" 1 ["n1"]).addFile 3 "/rls/T/CD1/c.rar" 1 ["n1"]).addFile
      4 "/rls/T/a.rar" 1 ["n2"]).addFile 5 "/rls/T/b.rar" 2 ["n2"]

theorem files_collects_discs :
    discs.Reached ∧ discs.exists? (Dir.ofText "/rls/T") = true ∧
      ∃ log all, discs.Recorded log ∧
        log.map (·.path) =
          ["/rls/T/CD2/d.rar", "/rls/T/CD1/c.rar", "/rls/T/a.rar", "/rls/T/b.rar"] ∧
        discs.files (Dir.ofText "/rls/T") true = .ok all ∧
        discs.Collects (Dir.ofText "/rls/T") all ∧ all.Perm log ∧
        all.map (·.path) =
          ["/rls/T/a.rar", "/rls/T/b.rar", "/rls/T/CD1/c.rar", "/rls/T/CD2/d.rar"] := by
  have recorded := ((((Namespace.Recorded.empty.addFile 1 "/rls/T/b.rar" 1 ["n1"]).addFile
    2 "/rls/T/CD2/d.rar" 1 ["n1"]).addFile 3 "/rls/T/CD1/c.rar" 1 ["n1"]).addFile
      4 "/rls/T/a.rar" 1 ["n2"]).addFile 5 "/rls/T/b.rar" 2 ["n2"]
  have reached : discs.Reached := recorded.reached
  have there : discs.exists? (Dir.ofText "/rls/T") = true := by decide +kernel
  obtain ⟨-, all, -, -, -, listed, ends, perm, -⟩ :=
    (files_collects reached there).2 _ recorded
  have shown : (discs.files (Dir.ofText "/rls/T") true).toOption.map (·.map (·.path)) =
      some ["/rls/T/a.rar", "/rls/T/b.rar", "/rls/T/CD1/c.rar", "/rls/T/CD2/d.rar"] := by
    decide +kernel
  rw [listed] at shown
  refine ⟨reached, there, _, all, recorded, by decide +kernel, listed, ends, ?_,
    Option.some.inj shown⟩
  refine perm.trans (.of_eq (List.filter_eq_self.2 ?_))
  decide +kernel

end Archivist
