import Archivist.Plan.Snapshot
import Archivist.Proofs.Tree.Shape
set_option autoImplicit false

namespace Archivist

namespace Instant

/-- The instant some seconds before another is one that can be told. -/
def Tells (now : Instant) (seconds : Nat) : Prop :=
  -(Word.bound63 : Int) ≤ now / second - seconds

instance (now : Instant) (seconds : Nat) : Decidable (now.Tells seconds) :=
  inferInstanceAs (Decidable (_ ≤ _))

theorem before_of_tells {now : Instant} {seconds : Nat} (h : now.Tells seconds) :
    now.before seconds = now - seconds * second := if_neg (Int.not_lt.2 h)

theorem sub_seconds_inj {now : Instant} {a b : Nat} :
    now - a * second = now - b * second ↔ a = b := by
  have cancel : ∀ n : Int, n - a * 1000000000 = n - b * 1000000000 ↔ a = b := by
    intro n
    omega
  exact cancel now

end Instant

namespace Snapshot

/-- The first entry of a list that is at or below a directory. -/
def foremost? (ds : List ListedDirectory) (d : Dir) : Option ListedDirectory :=
  ds.find? fun e => d.contains e.path

theorem exists_foremost {ds : List ListedDirectory} {d : ListedDirectory} (h : d ∈ ds) :
    ∃ e, foremost? ds d.path = some e := by
  have found : (foremost? ds d.path).isSome = true :=
    List.find?_isSome.2 ⟨d, h, Dir.contains_self d.path⟩
  exact Option.isSome_iff_exists.1 found

variable {now : Instant}

theorem get?_foldl_addDirectory (ds : List ListedDirectory) (ns : Namespace) (d : Dir) :
    (ds.foldl (addDirectory now) ns).get? d =
      (ns.get? d).or ((foremost? ds d).map fun e => ⟨now.before e.ageSeconds, []⟩) := by
  induction ds generalizing ns with
  | nil => simp [foremost?]
  | cons e ds ih =>
    rw [List.foldl_cons, ih, addDirectory, Namespace.get?_makeDirs, Option.or_assoc]
    congr 1
    unfold foremost?
    rw [List.find?_cons]
    cases d.contains e.path with
    | true => rfl
    | false => rfl

end Snapshot

namespace Namespace

theorem createdAt_eq_ok {ns : Namespace} {d : Dir} {created : Instant} :
    ns.createdAt d = .ok created ↔ ∃ info, ns.get? d = some info ∧ info.created = created := by
  unfold createdAt
  cases ns.get? d with
  | none => simp
  | some info => simp

theorem createdAt_addFile {ns : Namespace} {d : Dir} {created : Instant}
    (h : ns.createdAt d = .ok created) (now : Instant) (path : String) (size : Nat)
    (holders : List String) : (ns.addFile now path size holders).createdAt d = .ok created := by
  obtain ⟨info, found, rfl⟩ := createdAt_eq_ok.1 h
  unfold addFile
  dsimp only
  generalize FileEntry.directory _ = dir
  have made : (ns.makeDirs dir now).get? d = some info := by
    rw [get?_makeDirs, found]
    rfl
  refine createdAt_eq_ok.2 ?_
  rw [get?_update]
  by_cases here : d = dir
  · subst here
    rw [if_pos rfl, made]
    exact ⟨_, rfl, rfl⟩
  · rw [if_neg here]
    exact ⟨info, made, rfl⟩

end Namespace

namespace Snapshot

theorem createdAt_addFiles (fs : List ListedFile) {w : World} {d : Dir} {created : Instant}
    (h : w.namespace_.createdAt d = .ok created) :
    (fs.foldl addFile w).namespace_.createdAt d = .ok created := by
  induction fs generalizing w with
  | nil => exact h
  | cons f fs ih =>
    refine ih ?_
    unfold addFile
    exact Namespace.createdAt_addFile h _ _ _ _

theorem get?_empty (d : Dir) :
    Namespace.empty.get? d = if d = .root then some ⟨.epoch, []⟩ else none := by
  rw [Namespace.empty, Namespace.get?_makeDirs]
  simp only [Dir.contains_root_iff]
  rfl

variable {snapshot : Snapshot} {clock : Clock}

/-- The age of a listed directory is that of the first entry at or below it; the root has none. -/
theorem createdAt_build {d e : ListedDirectory}
    (foremost : foremost? snapshot.directories d.path = some e) :
    (snapshot.build clock).namespace_.createdAt d.path =
      .ok (if d.path = .root then .epoch else clock.now.before e.ageSeconds) := by
  unfold build
  refine createdAt_addFiles snapshot.files (Namespace.createdAt_eq_ok.2 ?_)
  dsimp only [Clock.read]
  rw [get?_foldl_addDirectory, get?_empty, foremost]
  split
  · exact ⟨_, rfl, rfl⟩
  · exact ⟨_, rfl, rfl⟩

theorem foremost_of_pairwise {ds : List ListedDirectory} (once : (ds.map (·.path)).Nodup)
    (outward : ds.Pairwise fun d e => e.path.contains d.path = false) {d : ListedDirectory}
    (h : d ∈ ds) : foremost? ds d.path = some d := by
  unfold foremost?
  induction ds with
  | nil => cases h
  | cons e ds ih =>
    rw [List.map_cons, List.nodup_cons] at once
    rw [List.pairwise_cons] at outward
    rcases List.mem_cons.1 h with rfl | behind
    · rw [List.find?_cons, Dir.contains_self]
    · rw [List.find?_cons, outward.1 d behind]
      exact ih once.2 outward.2 behind

def madeAt (clock : Clock) (d : ListedDirectory) : Instant :=
  clock.now - d.ageSeconds * Instant.second

/-- Every listed directory is as old as its entry says. -/
def AgesHold (snapshot : Snapshot) (clock : Clock) : Prop :=
  ∀ d ∈ snapshot.directories,
    (snapshot.build clock).namespace_.createdAt d.path = .ok (madeAt clock d)

end Snapshot

open Snapshot

/-- In the world built from a snapshot each listed directory has the age of the first entry in the
list that is at or below it, and the root none.  So the listed ages hold exactly if each directory
is of the same age as that entry and the root, if it is listed, as old as time; which is so whenever
no directory stands behind one below it and the root is not listed. -/
theorem build_agesHold_iff (snapshot : Snapshot) (clock : Clock)
    (once : (snapshot.directories.map (·.path)).Nodup)
    (told : ∀ d ∈ snapshot.directories, clock.now.Tells d.ageSeconds) :
    (∀ d ∈ snapshot.directories, ∃ e ∈ snapshot.directories,
      foremost? snapshot.directories d.path = some e ∧
      (snapshot.build clock).namespace_.createdAt d.path =
        .ok (if d.path = .root then .epoch else madeAt clock e)) ∧
    (AgesHold snapshot clock ↔ ∀ d ∈ snapshot.directories,
      if d.path = .root then madeAt clock d = .epoch
      else (foremost? snapshot.directories d.path).map (·.ageSeconds) = some d.ageSeconds) ∧
    ((snapshot.directories.Pairwise fun d e => e.path.contains d.path = false) →
      (∀ d ∈ snapshot.directories, d.path ≠ .root) → AgesHold snapshot clock) := by
  have created : ∀ d ∈ snapshot.directories, ∃ e ∈ snapshot.directories,
      foremost? snapshot.directories d.path = some e ∧
      (snapshot.build clock).namespace_.createdAt d.path =
        .ok (if d.path = .root then .epoch else madeAt clock e) := by
    intro d hd
    obtain ⟨e, foremost⟩ := exists_foremost hd
    have he := List.mem_of_find?_eq_some foremost
    refine ⟨e, he, foremost, ?_⟩
    rw [createdAt_build foremost, Instant.before_of_tells (told e he)]
    rfl
  refine ⟨created, ?_, ?_⟩
  · refine forall₂_congr fun d hd => ?_
    obtain ⟨e, -, foremost, eq⟩ := created d hd
    rw [eq, Except.ok.injEq, foremost]
    split
    · exact eq_comm
    · rw [madeAt, madeAt, Instant.sub_seconds_inj, Option.map_some, Option.some.injEq]
  · intro outward inner d hd
    obtain ⟨e, -, foremost, eq⟩ := created d hd
    rw [foremost_of_pairwise once outward hd] at foremost
    rw [eq, if_neg (inner d hd), Option.some.inj foremost]

def releaseFirst : Snapshot where
  directories := [⟨Dir.ofText "/rls/T", 100⟩, ⟨Dir.ofText "/rls", 50⟩]

theorem build_releaseFirst :
    (releaseFirst.build .standard).namespace_.createdAt (Dir.ofText "/rls") =
        .ok (Clock.standard.now - 100 * Instant.second) ∧
      ¬ AgesHold releaseFirst .standard ∧
      AgesHold { releaseFirst with directories := releaseFirst.directories.reverse } .standard := by
  have told : ∀ d ∈ releaseFirst.directories, Clock.standard.now.Tells d.ageSeconds := by
    decide +kernel
  have once : (releaseFirst.directories.map (·.path)).Nodup := by decide +kernel
  obtain ⟨-, holds, -⟩ :=
    build_agesHold_iff releaseFirst .standard once told
  obtain ⟨-, -, outward⟩ := build_agesHold_iff
    { releaseFirst with directories := releaseFirst.directories.reverse } .standard
    (by decide +kernel) (by decide +kernel)
  refine ⟨by decide +kernel, ?_, outward (by decide +kernel) (by decide +kernel)⟩
  rw [holds]
  decide +kernel

end Archivist
