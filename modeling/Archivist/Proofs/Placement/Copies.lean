import Archivist.Archive.Policy
import Archivist.Proofs.Tree.Listing
set_option autoImplicit false

namespace Archivist

namespace Namespace

theorem isOn_addHolder (node name : String) (f : FileEntry) :
    (addHolder node f).isOn name = true ↔ f.isOn name = true ∨ name = node := by
  unfold addHolder
  by_cases there : f.isOn node = true
  · rw [if_pos there]
    constructor
    · exact Or.inl
    · rintro (h | rfl)
      · exact h
      · exact there
  · rw [if_neg there]
    simp only [FileEntry.isOn, List.contains_append, Bool.or_eq_true]
    simp

theorem nodup_addHolder {f : FileEntry} (h : f.holders.Nodup) (node : String) :
    (addHolder node f).holders.Nodup := by
  unfold addHolder
  split
  · exact h
  · rename_i missing
    refine List.nodup_append.2 ⟨h, List.nodup_singleton _, ?_⟩
    intro x hx y hy eq
    rw [eq, List.mem_singleton.1 hy] at hx
    exact missing (by simpa [FileEntry.isOn] using hx)

theorem isOn_withHolder {path node : String} {f : FileEntry} (here : f.path = path) :
    (withHolder path node f).isOn node = true := by
  rw [withHolder, if_pos here, isOn_addHolder]
  exact Or.inr rfl

theorem isOn_withHolder_of_isOn {name : String} {f : FileEntry} (h : f.isOn name = true)
    (path node : String) : (withHolder path node f).isOn name = true := by
  unfold withHolder
  split
  · rw [isOn_addHolder]
    exact Or.inl h
  · exact h

theorem nodup_withHolder {f : FileEntry} (h : f.holders.Nodup) (path node : String) :
    (withHolder path node f).holders.Nodup := by
  unfold withHolder
  split
  · exact nodup_addHolder h node
  · exact h

/-- Records the copies of some jobs one after another; the nodes' names are those of a fleet. -/
def record (fleet : Fleet) (ns : Namespace) (js : List Job) : Except ArchiveError Namespace :=
  js.foldlM (fun ns j => ns.addReplica j.file.path (fleet.nameOf j.destination)) ns

def copied (fleet : Fleet) (js : List Job) (f : FileEntry) : FileEntry :=
  js.foldl (fun f j => withHolder j.file.path (fleet.nameOf j.destination) f) f

section Copied

variable (fleet : Fleet) (js : List Job)

theorem nodup_copied {f : FileEntry} (h : f.holders.Nodup) :
    (copied fleet js f).holders.Nodup := by
  induction js generalizing f with
  | nil => exact h
  | cons j js ih => exact ih (nodup_withHolder h _ _)

theorem isOn_copied_of_isOn {f : FileEntry} {name : String} (h : f.isOn name = true) :
    (copied fleet js f).isOn name = true := by
  induction js generalizing f with
  | nil => exact h
  | cons j js ih => exact ih (isOn_withHolder_of_isOn h _ _)

theorem isOn_copied_of_mem {f : FileEntry} {j : Job} (hj : j ∈ js) (path : j.file.path = f.path) :
    (copied fleet js f).isOn (fleet.nameOf j.destination) = true := by
  induction js generalizing f with
  | nil => cases hj
  | cons x js ih =>
    rcases List.mem_cons.1 hj with rfl | later
    · exact isOn_copied_of_isOn fleet js (isOn_withHolder path.symm)
    · exact ih later (path.trans (path_withHolder _ _ f).symm)

end Copied

theorem mapFiles_mapFiles (ns : Namespace) (g h : FileEntry → FileEntry) :
    (ns.mapFiles g).mapFiles h = ns.mapFiles fun f => h (g f) := by
  unfold mapFiles
  simp only [List.map_map]
  congr 1
  apply List.map_congr_left
  intro e _
  simp only [Function.comp, List.map_map]
  rfl

theorem mapFiles_id (ns : Namespace) : (ns.mapFiles fun f => f) = ns := by
  unfold mapFiles
  simp

theorem Stored.mapFiles {ns : Namespace} {d : Dir} {f : FileEntry} (h : ns.Stored d f)
    (g : FileEntry → FileEntry) : (ns.mapFiles g).Stored d (g f) := by
  obtain ⟨info, found, hf⟩ := h
  refine ⟨{ info with files := info.files.map g }, ?_, List.mem_map_of_mem hf⟩
  rw [get?_mapFiles, found]
  rfl

theorem WellFormed.record_eq {ns : Namespace} (wf : ns.WellFormed) (fleet : Fleet)
    (js : List Job) (listed : ∀ j ∈ js, ∃ d f, ns.Stored d f ∧ f.path = j.file.path) :
    ns.record fleet js = .ok (ns.mapFiles (copied fleet js)) := by
  induction js generalizing ns with
  | nil => exact congrArg Except.ok (mapFiles_id ns).symm
  | cons j js ih =>
    obtain ⟨d, f, ⟨info, found, hf⟩, path⟩ := listed j List.mem_cons_self
    have first := wf.addReplica_of_mem found hf (fleet.nameOf j.destination)
    rw [path] at first
    have next := wf.mapFiles
      (path_withHolder j.file.path (fleet.nameOf j.destination))
    have still : ∀ x ∈ js, ∃ d f, (ns.mapFiles
        (withHolder j.file.path (fleet.nameOf j.destination))).Stored d f ∧
          f.path = x.file.path := by
      intro x hx
      obtain ⟨e, g, stored, same⟩ := listed x (List.mem_cons_of_mem _ hx)
      exact ⟨e, _, stored.mapFiles _, (path_withHolder _ _ g).trans same⟩
    have rest := ih next still
    rw [record, List.foldlM_cons, first]
    change record fleet _ js = _
    rw [rest, mapFiles_mapFiles]
    rfl

end Namespace

namespace Policy

/-- A job for each of some files and each of some nodes that does not hold it. -/
def jobsFor (p : Policy) (fleet : Fleet) (fs : List FileEntry) (ids : List NodeId) : List Job :=
  fs.flatMap fun f =>
    (ids.filter fun id => !f.isOn (fleet.nameOf id)).map fun id =>
      { file := f, destination := id, priority := p.section_.priority }

theorem send_eq {p : Policy} {w : World} {d : Dir} {ids : List NodeId} {fs : List FileEntry}
    (dir : p.directory = some d) (frozen : p.destinations = some ids)
    (listed : p.files w.namespace_ d = .ok fs) :
    p.send w = .ok (p.jobsFor w.fleet fs ids) := by
  unfold send requireDirectory
  rw [dir, frozen]
  simp only [bind, Except.bind, listed]
  rfl

theorem mem_jobsFor {p : Policy} {fleet : Fleet} {fs : List FileEntry} {ids : List NodeId}
    {j : Job} :
    j ∈ p.jobsFor fleet fs ids ↔
      ∃ f ∈ fs, ∃ id ∈ ids, f.isOn (fleet.nameOf id) = false ∧
        j = { file := f, destination := id, priority := p.section_.priority } := by
  simp only [jobsFor, List.mem_flatMap, List.mem_map, List.mem_filter, Bool.not_eq_true']
  constructor
  · rintro ⟨f, hf, id, ⟨hid, lacks⟩, rfl⟩
    exact ⟨f, hf, id, hid, lacks, rfl⟩
  · rintro ⟨f, hf, id, hid, lacks, rfl⟩
    exact ⟨f, hf, id, ⟨hid, lacks⟩, rfl⟩

theorem exists_job {p : Policy} {fleet : Fleet} {fs : List FileEntry} {ids : List NodeId}
    {f : FileEntry} {id : NodeId} (hf : f ∈ fs) (hid : id ∈ ids)
    (lacks : f.isOn (fleet.nameOf id) = false) :
    ∃ j ∈ p.jobsFor fleet fs ids, j.file = f ∧ j.destination = id :=
  ⟨_, mem_jobsFor.2 ⟨f, hf, id, hid, lacks, rfl⟩, rfl, rfl⟩

theorem pairs_jobsFor (p : Policy) (fleet : Fleet) {fs : List FileEntry} {ids : List NodeId}
    (paths : (fs.map (·.path)).Nodup) (nodup : ids.Nodup) :
    ((p.jobsFor fleet fs ids).map fun j => (j.file.path, j.destination)).Nodup := by
  unfold jobsFor
  rw [List.map_flatMap]
  refine List.nodup_flatMap.2 ⟨?_, ?_⟩
  · intro f _
    rw [List.map_map]
    refine (nodup.filter _).map ?_
    intro a b eq
    exact congrArg Prod.snd eq
  · unfold List.Nodup at paths
    rw [List.pairwise_map] at paths
    refine paths.imp ?_
    intro f g ne x hx hy
    simp only [List.map_map, List.mem_map] at hx hy
    obtain ⟨a, -, rfl⟩ := hx
    obtain ⟨b, -, eq⟩ := hy
    exact ne (congrArg Prod.fst eq).symm

end Policy
end Archivist
