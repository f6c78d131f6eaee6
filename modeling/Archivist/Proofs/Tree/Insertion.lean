import Archivist.Proofs.Tree.Listing
set_option autoImplicit false

/-!
# The files in the order in which they were added

A tree keeps its files by directories.  Apart from that there is one list of all its files: a file
that is added goes to the end of it, also one that was there before, and whatever else happens to a
file it keeps its place.  What a directory holds is what this list has of it, in the same order
(`Recorded.filesIn_eq`).
-/

namespace Archivist

/-- Where a directory comes to stand when one above it is moved. -/
def Dir.carried (source target d : Dir) : Dir :=
  ⟨target.parts ++ d.parts.drop source.parts.length, fun p hp =>
    (List.mem_append.1 hp).elim (target.proper p) fun h => d.proper p (List.mem_of_mem_drop h)⟩

def FileEntry.carried (source target : Dir) (f : FileEntry) : FileEntry :=
  if source.contains f.directory = true then
    { f with path := (Dir.carried source target f.directory).text ++ "/" ++ f.name }
  else f

namespace Namespace

def withoutHolder (node : String) (f : FileEntry) : FileEntry :=
  { f with holders := f.holders.filter (· ≠ node) }

/-- A tree that is reached, and its files in the order in which they were added last. -/
inductive Recorded : Namespace → List FileEntry → Prop where
  | empty : Recorded .empty []
  | makeDirs {ns : Namespace} {log : List FileEntry} (d : Dir) (created : Instant)
      (h : Recorded ns log) : Recorded (ns.makeDirs d created) log
  | addFile {ns : Namespace} {log : List FileEntry} (now : Instant) (path : String) (size : Nat)
      (holders : List String) (h : Recorded ns log) :
      Recorded (ns.addFile now path size holders)
        (log.filter (·.path ≠ (Dir.ofText path).text) ++ [⟨(Dir.ofText path).text, size, holders⟩])
  | addReplica {ns ns' : Namespace} {log : List FileEntry} {path node : String}
      (h : Recorded ns log) (ok : ns.addReplica path node = .ok ns') :
      Recorded ns' (log.map (withHolder (Dir.ofText path).text node))
  | removeNode {ns : Namespace} {log : List FileEntry} (node : String) (h : Recorded ns log) :
      Recorded (ns.removeNode node) (log.map (withoutHolder node))
  | rename {ns ns' : Namespace} {log : List FileEntry} {now : Instant} {source target : Dir}
      (h : Recorded ns log) (other : source ≠ .root)
      (ok : ns.rename now source target = .ok ns') :
      Recorded ns' (log.map (FileEntry.carried source target))

variable {ns ns' : Namespace} {log : List FileEntry} {source target : Dir} {now : Instant}

theorem Recorded.reached (h : ns.Recorded log) : ns.Reached := by
  induction h with
  | empty => exact .empty
  | makeDirs d created _ ih => exact ih.makeDirs d created
  | addFile now path size holders _ ih => exact ih.addFile now path size holders
  | addReplica _ ok ih => exact ih.addReplica ok
  | removeNode node _ ih => exact ih.removeNode node
  | rename _ other ok ih => exact ih.rename other ok

theorem Reached.recorded (h : ns.Reached) : ∃ log, ns.Recorded log := by
  induction h with
  | empty => exact ⟨_, .empty⟩
  | makeDirs d created _ ih =>
    obtain ⟨log, before⟩ := ih
    exact ⟨_, before.makeDirs d created⟩
  | addFile now path size holders _ ih =>
    obtain ⟨log, before⟩ := ih
    exact ⟨_, before.addFile now path size holders⟩
  | addReplica _ ok ih =>
    obtain ⟨log, before⟩ := ih
    exact ⟨_, before.addReplica ok⟩
  | removeNode node _ ih =>
    obtain ⟨log, before⟩ := ih
    exact ⟨_, before.removeNode node⟩
  | rename _ other ok ih =>
    obtain ⟨log, before⟩ := ih
    exact ⟨_, before.rename other ok⟩

def filesIn (ns : Namespace) (d : Dir) : List FileEntry := ((ns.get? d).map (·.files)).getD []

theorem mem_filesIn {d : Dir} {f : FileEntry} : f ∈ ns.filesIn d ↔ ns.Stored d f := by
  unfold filesIn Stored
  cases ns.get? d with
  | none => simp
  | some info => simp

theorem filesIn_makeDirs (ns : Namespace) (d : Dir) (created : Instant) (e : Dir) :
    (ns.makeDirs d created).filesIn e = ns.filesIn e := by
  unfold filesIn
  rw [get?_makeDirs]
  cases ns.get? e with
  | none => split <;> rfl
  | some info => rfl

theorem filesIn_mapFiles (ns : Namespace) (g : FileEntry → FileEntry) (d : Dir) :
    (ns.mapFiles g).filesIn d = (ns.filesIn d).map g := by
  unfold filesIn
  rw [get?_mapFiles]
  cases ns.get? d <;> rfl

theorem filesIn_addFile (ns : Namespace) (now : Instant) (path : String) (size : Nat)
    (holders : List String) (d : Dir) :
    let entry : FileEntry := ⟨(Dir.ofText path).text, size, holders⟩
    (ns.addFile now path size holders).filesIn d =
      if d = entry.directory then (ns.filesIn d).filter (·.path ≠ entry.path) ++ [entry]
      else ns.filesIn d := by
  intro entry
  have before := ns.filesIn_makeDirs entry.directory now
  have there : (ns.makeDirs entry.directory now).exists? entry.directory = true := by
    rw [WellFormed.exists?_makeDirs, Dir.contains_self, Bool.or_true]
  obtain ⟨info, found⟩ := exists?_iff.1 there
  unfold addFile
  by_cases here : d = entry.directory
  · rw [if_pos here, here, ← before, filesIn, filesIn, get?_update, if_pos rfl, found]
    rfl
  · rw [if_neg here, ← before, filesIn, filesIn, get?_update, if_neg here]

theorem filesIn_rename (wf : ns.WellFormed) (hs : source ≠ .root)
    (h : ns.rename now source target = .ok ns') (d : Dir) :
    ns'.filesIn d =
      if target.contains d = true then
        (ns.filesIn (movedTo target source d)).map fun f =>
          { f with path := d.text ++ "/" ++ f.name }
      else if source.contains d = true then []
      else ns.filesIn d := by
  unfold filesIn
  rw [wf.get?_rename hs h]
  by_cases inside : target.contains d = true
  · rw [if_pos inside, if_pos inside]
    cases ns.get? (movedTo target source d) <;> rfl
  · rw [if_neg inside, if_neg inside]
    by_cases moved : source.contains d = true
    · rw [if_pos moved, if_pos moved]
      split <;> rfl
    · rw [if_neg moved, if_neg moved]
      cases ns.get? d with
      | none => split <;> rfl
      | some info => rfl

theorem carried_eq_movedTo (hs : source ≠ .root) {d : Dir} (below : source.contains d = true) :
    Dir.carried source target d = movedTo source target d :=
  Dir.ext (Dir.parts_movedTo hs below).symm

theorem directory_carried {f : FileEntry} {d : Dir} (filed : f.FiledIn d) (hs : source ≠ .root)
    (ht : target ≠ .root) : (f.carried source target).directory =
      if source.contains d = true then Dir.carried source target d else d := by
  obtain rfl := filed.directory
  unfold FileEntry.carried
  by_cases moved : source.contains f.directory = true
  · have below : f.directory ≠ .root := by
      intro eq
      rw [eq, Dir.contains_root_iff] at moved
      exact hs moved
    have new : Dir.carried source target f.directory ≠ .root := by
      intro eq
      have hnone := congrArg Dir.parts eq
      rw [Dir.parts_root, Dir.carried, List.append_eq_nil_iff] at hnone
      exact ht (Dir.ext hnone.1)
    rw [if_pos moved, if_pos moved]
    exact (FileEntry.filedIn_of_path (filed.parts below).1 new rfl).1.directory
  · rw [if_neg moved, if_neg moved]

theorem filter_directory_map (g : FileEntry → FileEntry) (path : ∀ f, (g f).path = f.path)
    (log : List FileEntry) (d : Dir) :
    (log.map g).filter (·.directory = d) = (log.filter (·.directory = d)).map g := by
  have same : ∀ f, (g f).directory = f.directory := fun f => by
    rw [FileEntry.directory, path, FileEntry.directory]
  rw [List.filter_map]
  congr 1
  exact List.filter_congr fun f _ => by simp [same]

theorem directory_carried_eq_iff (wf : ns.WellFormed) (hs : source ≠ .root)
    (h : ns.rename now source target = .ok ns') {f : FileEntry}
    (stored : ns.Stored f.directory f) (d : Dir) :
    (f.carried source target).directory = d ↔
      if target.contains d = true then f.directory = movedTo target source d
      else source.contains d = false ∧ f.directory = d := by
  have free := (rename_eq_ok h).2.1
  have ht := wf.target_ne_root free
  rw [directory_carried (stored.filedIn wf) hs ht]
  by_cases moved : source.contains f.directory = true
  · have arrived := Dir.contains_movedTo target hs moved
    rw [if_pos moved, carried_eq_movedTo hs moved]
    by_cases inside : target.contains d = true
    · rw [if_pos inside]
      constructor
      · rintro rfl
        rw [Dir.movedTo_movedTo hs ht moved]
      · intro eq
        rw [eq, Dir.movedTo_movedTo ht hs inside]
    · rw [if_neg inside]
      constructor
      · rintro rfl
        exact absurd arrived inside
      · rintro ⟨outside, rfl⟩
        rw [moved] at outside
        cases outside
  · rw [if_neg moved]
    by_cases inside : target.contains d = true
    · -- nothing stood below the target
      rw [if_pos inside]
      constructor
      · rintro rfl
        have there := stored.exists
        rw [exists?, wf.get?_below free inside] at there
        cases there
      · intro eq
        exact absurd (eq ▸ Dir.contains_movedTo source ht inside) moved
    · rw [if_neg inside]
      constructor
      · rintro rfl
        exact ⟨by simpa using moved, rfl⟩
      · exact fun both => both.2

theorem filter_directory_carried (wf : ns.WellFormed) (hs : source ≠ .root)
    (h : ns.rename now source target = .ok ns')
    (split : ∀ d, ns.filesIn d = log.filter (·.directory = d)) (d : Dir) :
    ns'.filesIn d = (log.map (FileEntry.carried source target)).filter (·.directory = d) := by
  have ht := wf.target_ne_root (rename_eq_ok h).2.1
  have stored : ∀ f ∈ log, ns.Stored f.directory f := fun f hf => by
    rw [← mem_filesIn, split]
    exact List.mem_filter.2 ⟨hf, decide_eq_true rfl⟩
  have lands : log.filter ((fun f => decide (f.directory = d)) ∘ FileEntry.carried source target) =
      log.filter fun f => decide (if target.contains d = true then
        f.directory = movedTo target source d else source.contains d = false ∧ f.directory = d) :=
    List.filter_congr fun f hf =>
      decide_eq_decide.2 (directory_carried_eq_iff wf hs h (stored f hf) d)
  rw [filesIn_rename wf hs h, List.filter_map, lands]
  by_cases inside : target.contains d = true
  · have back := Dir.contains_movedTo source ht inside
    simp only [if_pos inside]
    rw [split]
    refine List.map_congr_left fun f hf => ?_
    have here : f.directory = movedTo target source d :=
      of_decide_eq_true (List.mem_filter.1 hf).2
    rw [FileEntry.carried, here, if_pos back, carried_eq_movedTo hs back,
      Dir.movedTo_movedTo ht hs inside]
  · simp only [if_neg inside]
    by_cases moved : source.contains d = true
    · simp [moved]
    · have outside : source.contains d = false := by simpa using moved
      simp only [outside, Bool.false_eq_true, if_false, true_and]
      rw [split]
      conv_lhs => rw [← List.map_id (log.filter _)]
      refine List.map_congr_left fun f hf => ?_
      have here : f.directory = d := of_decide_eq_true (List.mem_filter.1 hf).2
      rw [FileEntry.carried, here, if_neg moved, id]

theorem filter_directory_added (log : List FileEntry) (entry : FileEntry) (d : Dir) :
    (log.filter (·.path ≠ entry.path) ++ [entry]).filter (·.directory = d) =
      if d = entry.directory then
        (log.filter (·.directory = d)).filter (·.path ≠ entry.path) ++ [entry]
      else log.filter (·.directory = d) := by
  rw [List.filter_append, List.filter_comm]
  by_cases here : d = entry.directory
  · rw [if_pos here, List.filter_cons_of_pos (by simp [here]), List.filter_nil]
  · rw [if_neg here, List.filter_cons_of_neg (by simpa using fun eq => here eq.symm),
      List.filter_nil, List.append_nil]
    -- a file of the same path stands in the same directory
    refine List.filter_eq_self.2 fun f hf => ?_
    have other : f.directory = d := of_decide_eq_true (List.mem_filter.1 hf).2
    refine decide_eq_true fun same => here ?_
    rw [← other, FileEntry.directory, same, FileEntry.directory]

/-- A directory holds what the list has of it, in the same order. -/
theorem Recorded.filesIn_eq (h : ns.Recorded log) (d : Dir) :
    ns.filesIn d = log.filter (·.directory = d) := by
  induction h generalizing d with
  | empty => exact filesIn_makeDirs bare .root .epoch d
  | makeDirs e created _ ih => rw [filesIn_makeDirs, ih]
  | addFile now path size holders _ ih =>
    rw [filesIn_addFile, ih]
    exact (filter_directory_added _ ⟨(Dir.ofText path).text, size, holders⟩ d).symm
  | addReplica before ok ih =>
    rw [before.reached.wellFormed.addReplica_eq_ok ok, filesIn_mapFiles, ih,
      filter_directory_map _ fun f => path_withHolder _ _ f]
  | removeNode node before ih =>
    rw [filter_directory_map (withoutHolder node) fun _ => rfl, ← ih]
    exact filesIn_mapFiles _ (withoutHolder node) d
  | rename before other ok ih =>
    exact filter_directory_carried before.reached.wellFormed other ok ih d

theorem Recorded.mem_iff (h : ns.Recorded log) {f : FileEntry} :
    f ∈ log ↔ ns.Stored f.directory f := by
  rw [← mem_filesIn, h.filesIn_eq, List.mem_filter]
  exact (and_iff_left (decide_eq_true rfl)).symm

theorem Recorded.nodup (h : ns.Recorded log) : (log.map (·.path)).Nodup := by
  have wf := h.reached.wellFormed
  have paths : ∀ d, ((ns.filesIn d).map (·.path)).Nodup := by
    intro d
    unfold filesIn
    cases found : ns.get? d with
    | none => exact List.nodup_nil
    | some info => exact wf.paths d info found
  have once : log.Nodup := by
    refine List.nodup_iff_count_le_one.2 fun f => ?_
    have inDir := List.nodup_iff_count_le_one.1 (paths f.directory).of_map f
    rw [h.filesIn_eq] at inDir
    rwa [List.count_filter (p := fun g : FileEntry => decide (g.directory = f.directory))
      (decide_eq_true rfl)] at inDir
  refine (List.nodup_map_iff_inj_on once).2 fun f hf g hg same => ?_
  have together : g.directory = f.directory := by
    rw [FileEntry.directory, FileEntry.directory, same]
  have inF : f ∈ ns.filesIn f.directory := mem_filesIn.2 (h.mem_iff.1 hf)
  have inG : g ∈ ns.filesIn f.directory := mem_filesIn.2 (together ▸ h.mem_iff.1 hg)
  exact List.inj_on_of_nodup_map (paths f.directory) inF inG same

end Namespace
end Archivist
