import Archivist.Proofs.Tree.Moving
set_option autoImplicit false

namespace Archivist.Namespace

def withHolder (path node : String) (f : FileEntry) : FileEntry :=
  if f.path = path then addHolder node f else f

theorem path_withHolder (path node : String) (f : FileEntry) :
    (withHolder path node f).path = f.path := by
  unfold withHolder addHolder
  split
  · split <;> rfl
  · rfl

theorem map_withHolder_of_ne {path node : String} {fs : List FileEntry}
    (other : ∀ f ∈ fs, f.path ≠ path) : fs.map (withHolder path node) = fs := by
  conv_rhs => rw [← List.map_id fs]
  apply List.map_congr_left
  intro f hf
  rw [withHolder, if_neg (other f hf), id]

theorem updateFirst_eq_map {fs : List FileEntry} (nodup : (fs.map (·.path)).Nodup)
    (path node : String) :
    updateFirst path (addHolder node) fs = fs.map (withHolder path node) := by
  induction fs with
  | nil => rfl
  | cons f fs ih =>
    rw [List.map_cons, List.nodup_cons] at nodup
    rw [updateFirst, List.map_cons]
    split
    · rename_i here
      have others : ∀ g ∈ fs, g.path ≠ path := by
        intro g hg eq
        exact nodup.1 (List.mem_map.2 ⟨g, hg, eq.trans here.symm⟩)
      rw [map_withHolder_of_ne others, withHolder, if_pos here]
    · rename_i other
      rw [ih nodup.2, withHolder, if_neg other]

variable {ns ns' : Namespace}

theorem WellFormed.update_eq_mapFiles (wf : ns.WellFormed) (t : Dir) (node : String) :
    ns.update (t.parent?.getD .root) (fun info =>
      { info with files := updateFirst t.text (addHolder node) info.files }) =
      ns.mapFiles (withHolder t.text node) := by
  unfold update mapFiles
  congr 1
  apply List.map_congr_left
  rintro ⟨d, info⟩ mem
  have found := (get?_eq_some_of_mem wf.keys).2 mem
  dsimp only
  by_cases here : d = t.parent?.getD .root
  · rw [if_pos here, ← here, updateFirst_eq_map (wf.paths d info found)]
  · have others : ∀ f ∈ info.files, f.path ≠ t.text := by
      intro f hf eq
      have dir := (wf.filed d info found f hf).directory
      rw [FileEntry.directory, eq, Dir.ofText_text] at dir
      exact here dir.symm
    rw [if_neg here, map_withHolder_of_ne others]

theorem WellFormed.addReplica_eq_ok (wf : ns.WellFormed) {path node : String}
    (h : ns.addReplica path node = .ok ns') :
    ns' = ns.mapFiles (withHolder (Dir.ofText path).text node) := by
  unfold addReplica at h
  dsimp only at h
  split at h
  · cases h
  · rw [wf.update_eq_mapFiles] at h
    exact (Except.ok.inj h).symm

theorem isSome_file?_of_addReplica {path node : String} (h : ns.addReplica path node = .ok ns') :
    (ns.file? path).isSome = true := by
  unfold addReplica at h
  dsimp only at h
  split at h
  · cases h
  · rename_i found
    rw [found]
    rfl

theorem WellFormed.addReplica_of_mem (wf : ns.WellFormed) {d : Dir} {info : DirInfo}
    (found : ns.get? d = some info) {f : FileEntry} (hf : f ∈ info.files) (node : String) :
    ns.addReplica f.path node = .ok (ns.mapFiles (withHolder f.path node)) := by
  have filed := wf.filed d info found f hf
  have dir : (Dir.ofText f.path).parent?.getD .root = d := filed.directory
  have listed : ∃ g, ns.file? f.path = some g := by
    unfold file?
    dsimp only
    rw [dir, found, Option.bind_some, filed.normal]
    cases here : info.files.find? (·.path = f.path) with
    | some g => exact ⟨g, rfl⟩
    | none =>
      have missing := List.find?_eq_none.1 here f hf
      simp at missing
  obtain ⟨g, hg⟩ := listed
  unfold addReplica
  rw [hg]
  dsimp only
  rw [wf.update_eq_mapFiles, filed.normal]

/-- The trees that come about from the empty one by making directories, listing files, recording
and forgetting copies, and moving directories other than the root. -/
inductive Reached : Namespace → Prop where
  | empty : Reached .empty
  | makeDirs {ns : Namespace} (d : Dir) (created : Instant) (h : Reached ns) :
      Reached (ns.makeDirs d created)
  | addFile {ns : Namespace} (now : Instant) (path : String) (size : Nat) (holders : List String)
      (h : Reached ns) : Reached (ns.addFile now path size holders)
  | addReplica {ns ns' : Namespace} {path node : String} (h : Reached ns)
      (ok : ns.addReplica path node = .ok ns') : Reached ns'
  | removeNode {ns : Namespace} (node : String) (h : Reached ns) : Reached (ns.removeNode node)
  | rename {ns ns' : Namespace} {now : Instant} {source target : Dir} (h : Reached ns)
      (other : source ≠ .root) (ok : ns.rename now source target = .ok ns') : Reached ns'

theorem Reached.wellFormed (h : Reached ns) : ns.WellFormed := by
  induction h with
  | empty => exact WellFormed.empty
  | makeDirs d created _ ih => exact ih.makeDirs d created
  | addFile now path size holders _ ih => exact ih.addFile now path size holders
  | addReplica _ ok ih =>
    rw [ih.addReplica_eq_ok ok]
    exact ih.mapFiles fun f => path_withHolder _ _ f
  | removeNode node _ ih =>
    rw [removeNode_eq_mapFiles]
    exact ih.mapFiles fun _ => rfl
  | rename _ other ok ih => exact ih.rename other ok

end Archivist.Namespace
