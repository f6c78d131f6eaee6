import Archivist.Proofs.Lookup
import Archivist.Proofs.Tree.Directory
set_option autoImplicit false

namespace Archivist.Namespace

open Lookup

def keys (ns : Namespace) : List Dir := ns.dirs.map (·.1)

theorem get?_eq_some_of_mem {ns : Namespace} (nodup : ns.keys.Nodup) {d : Dir} {info : DirInfo} :
    ns.get? d = some info ↔ (d, info) ∈ ns.dirs :=
  ⟨mem_of_lookup, lookup_of_mem nodup⟩

theorem exists?_iff {ns : Namespace} {d : Dir} :
    ns.exists? d = true ↔ ∃ info, ns.get? d = some info :=
  Option.isSome_iff_exists

theorem get?_eq_none_iff {ns : Namespace} {d : Dir} : ns.get? d = none ↔ d ∉ ns.keys :=
  lookup_eq_none

theorem exists?_iff_mem {ns : Namespace} {d : Dir} : ns.exists? d = true ↔ d ∈ ns.keys := by
  rw [exists?, Option.isSome_iff_ne_none, ne_eq, get?_eq_none_iff, not_not]

theorem lookup_insertSorted (d e : Dir) (info : DirInfo) (es : List (Dir × DirInfo)) :
    (insertSorted d info es).lookup e = if e = d then some info else es.lookup e := by
  induction es with
  | nil => rw [insertSorted, lookup_cons_if]
  | cons x es ih =>
    unfold insertSorted
    split
    · rename_i here
      rw [lookup_cons_if, lookup_cons_if, here]
      split <;> rfl
    · rename_i other
      split
      · rw [lookup_cons_if]
      · rw [lookup_cons_if, ih, lookup_cons_if]
        by_cases eq : e = d
        · have ne : e ≠ x.1 := fun h => other (h.symm.trans eq)
          rw [if_neg ne, if_pos eq, if_pos eq]
        · rw [if_neg eq, if_neg eq]

theorem get?_insert (ns : Namespace) (d e : Dir) (info : DirInfo) :
    (ns.insert d info).get? e = if e = d then some info else ns.get? e :=
  lookup_insertSorted d e info ns.dirs

theorem insertSorted_perm {d : Dir} (info : DirInfo) {es : List (Dir × DirInfo)}
    (fresh : d ∉ es.map (·.1)) : (insertSorted d info es).Perm ((d, info) :: es) := by
  induction es with
  | nil => exact List.Perm.refl _
  | cons x es ih =>
    rw [List.map_cons, List.mem_cons, not_or] at fresh
    unfold insertSorted
    rw [if_neg fun h => fresh.1 h.symm]
    split
    · exact List.Perm.refl _
    · exact ((ih fresh.2).cons x).trans (List.Perm.swap _ _ _)

theorem nodup_insert {ns : Namespace} {d : Dir} (info : DirInfo) (nodup : ns.keys.Nodup)
    (fresh : ns.get? d = none) : (ns.insert d info).keys.Nodup := by
  have new : d ∉ ns.keys := get?_eq_none_iff.1 fresh
  have perm := (insertSorted_perm info new).map (·.1)
  exact perm.nodup_iff.2 (List.nodup_cons.2 ⟨new, nodup⟩)

theorem get?_make (ns : Namespace) (created : Instant) (d e : Dir) :
    (ns.make created d).get? e = (ns.get? e).or (if e = d then some ⟨created, []⟩ else none) := by
  unfold make
  by_cases there : ns.exists? d = true
  · rw [if_pos there]
    by_cases eq : e = d
    · obtain ⟨info, hinfo⟩ := exists?_iff.1 there
      rw [eq, hinfo]
      rfl
    · simp [eq]
  · rw [if_neg there, get?_insert]
    by_cases eq : e = d
    · have none : ns.get? d = none := by simpa [exists?] using there
      rw [eq, none]
      simp
    · simp [eq]

theorem nodup_make {ns : Namespace} (created : Instant) (d : Dir) (nodup : ns.keys.Nodup) :
    (ns.make created d).keys.Nodup := by
  unfold make
  split
  · exact nodup
  · rename_i missing
    exact nodup_insert _ nodup (by simpa [exists?] using missing)

theorem get?_foldl_make (created : Instant) (ds : List Dir) (ns : Namespace) (e : Dir) :
    (ds.foldl (make · created) ns).get? e =
      (ns.get? e).or (if e ∈ ds then some ⟨created, []⟩ else none) := by
  induction ds generalizing ns with
  | nil => simp
  | cons d ds ih =>
    rw [List.foldl_cons, ih, get?_make, Option.or_assoc]
    congr 1
    by_cases here : e = d
    · simp [here]
    · simp [here]

/-- Making a directory adds those above it that are missing, and nothing else. -/
theorem get?_makeDirs (ns : Namespace) (d : Dir) (created : Instant) (e : Dir) :
    (ns.makeDirs d created).get? e =
      (ns.get? e).or (if e.contains d then some ⟨created, []⟩ else none) := by
  rw [makeDirs, get?_foldl_make]
  simp only [Dir.mem_root_chain]

theorem nodup_makeDirs {ns : Namespace} (d : Dir) (created : Instant) (nodup : ns.keys.Nodup) :
    (ns.makeDirs d created).keys.Nodup := by
  unfold makeDirs
  generalize Dir.root :: d.chain = ds
  induction ds generalizing ns with
  | nil => exact nodup
  | cons x ds ih => exact ih (nodup_make created x nodup)

theorem get?_erase (ns : Namespace) (d e : Dir) :
    (ns.erase d).get? e = if e = d then none else ns.get? e :=
  lookup_filter_ne ns.dirs d e

theorem nodup_erase {ns : Namespace} (d : Dir) (nodup : ns.keys.Nodup) :
    (ns.erase d).keys.Nodup :=
  (List.filter_sublist.map _).nodup nodup

theorem get?_update (ns : Namespace) (d : Dir) (f : DirInfo → DirInfo) (e : Dir) :
    (ns.update d f).get? e = if e = d then (ns.get? d).map f else ns.get? e :=
  lookup_map_at f ns.dirs d e

theorem keys_update (ns : Namespace) (d : Dir) (f : DirInfo → DirInfo) :
    (ns.update d f).keys = ns.keys :=
  keys_map (fst_change f d) ns.dirs

def mapFiles (ns : Namespace) (g : FileEntry → FileEntry) : Namespace :=
  ⟨ns.dirs.map fun e => (e.1, { e.2 with files := e.2.files.map g })⟩

theorem get?_mapFiles (ns : Namespace) (g : FileEntry → FileEntry) (d : Dir) :
    (ns.mapFiles g).get? d = (ns.get? d).map fun i => { i with files := i.files.map g } :=
  lookup_map_snd (fun i : DirInfo => ({ i with files := i.files.map g } : DirInfo)) ns.dirs d

theorem keys_mapFiles (ns : Namespace) (g : FileEntry → FileEntry) :
    (ns.mapFiles g).keys = ns.keys := by
  unfold mapFiles keys
  rw [keys_map]
  intro e
  rfl

theorem removeNode_eq_mapFiles (ns : Namespace) (node : String) :
    ns.removeNode node = ns.mapFiles fun f =>
      { f with holders := f.holders.filter (· ≠ node) } := rfl

end Archivist.Namespace
