import Archivist.Proofs.Placement.Copies
import Archivist.Proofs.Placement.Selection
set_option autoImplicit false

namespace Archivist

namespace Policy

variable {p : Policy} {w : World} {d : Dir} {fs : List FileEntry}

theorem isArchived_of_choice (built : w.fleet.Built) (listed : p.files w.namespace_ d = .ok fs)
    (nodup : ∀ f ∈ fs, f.holders.Nodup) {names : List String} (distinct : names.Nodup)
    (enough : p.section_.copies ≤ names.length)
    (holds : ∀ name ∈ names, (∃ m ∈ p.eligible w, m.node.name = name) ∧
      ∀ f ∈ fs, f.isOn name = true) :
    p.isArchived w d = .ok true := by
  by_cases ne : fs = []
  · unfold isArchived
    rw [listed, ne]
    rfl
  · have balanced : Destination.Balanced (p.eligible w) fs := Destination.balanced_of_nodup nodup
    rw [isArchived_eq_true listed ne]
    refine Nat.le_trans enough ?_
    have sub : names ⊆ (Destination.completeHolders (p.eligible w) fs).map (·.node.name) := by
      intro name hn
      obtain ⟨⟨m, hm, rfl⟩, all⟩ := holds name hn
      refine List.mem_map.2 ⟨m, ?_, rfl⟩
      exact ((Destination.completeHolders_exact_iff (names_eligible built) ne).2 balanced m).2
        ⟨hm, all⟩
    have bound := (List.Nodup.subperm distinct sub).length_le
    rwa [List.length_map] at bound

theorem isArchived_of_next {now : Instant} (h : p.next w now = .ok (some d)) :
    p.isArchived w d = .ok false := by
  -- induction on the candidates: all before the one handed out are archived
  have first : ∀ ds : List Dir, next.firstOpen p w ds = .ok (some d) →
      p.isArchived w d = .ok false := by
    intro ds
    induction ds with
    | nil =>
      intro h
      cases h
    | cons x ds ih =>
      intro h
      unfold next.firstOpen at h
      cases found : p.isArchived w x with
      | error e =>
        rw [found] at h
        cases h
      | ok yes =>
        rw [found] at h
        cases yes with
        | true => exact ih h
        | false =>
          have eq : x = d := Option.some.inj (Except.ok.inj h)
          rw [← eq]
          exact found
  unfold next at h
  cases found : p.candidates w now with
  | error e =>
    rw [found] at h
    cases h
  | ok ds =>
    rw [found] at h
    exact first ds h

/-- A node whose name a fleet still has is online there. -/
def StillOnline (fleet : Fleet) (m : Member) : Prop :=
  ∃ n ∈ fleet.all, n.node.online = true ∧ n.node.name = m.node.name

theorem nameOf_of_choice {s : Section} {fleet : Fleet} {ms : List Member}
    (choice : Destination.Choice s (Destination.eligible s fleet) ms) {m : Member} (hm : m ∈ ms) :
    fleet.nameOf m.id = m.node.name ∧ s.isEligible m.node.name = true := by
  obtain ⟨mem, -, eligible⟩ := Destination.mem_eligible.1 (choice.mem m hm)
  exact ⟨Fleet.nameOf_of_mem_all mem, eligible⟩

theorem ids_of_choice {s : Section} {fleet : Fleet} {ms : List Member}
    (choice : Destination.Choice s (Destination.eligible s fleet) ms) :
    (ms.map (·.id)).Nodup := by
  have names := choice.names
  unfold List.Nodup at names ⊢
  rw [List.pairwise_map] at names ⊢
  refine names.imp_of_mem ?_
  intro a b ha hb ne eq
  apply ne
  rw [← (nameOf_of_choice choice ha).1, ← (nameOf_of_choice choice hb).1, eq]

theorem isArchived_of_jobsFor_eq_nil (built : w.fleet.Built)
    (listed : p.files w.namespace_ d = .ok fs) (nodup : ∀ f ∈ fs, f.holders.Nodup)
    {ms : List Member} (choice : Destination.Choice p.section_ (p.eligible w) ms)
    (nothing : p.jobsFor w.fleet fs (ms.map (·.id)) = []) : p.isArchived w d = .ok true := by
  refine isArchived_of_choice built listed nodup choice.names ?_ ?_
  · rw [List.length_map, choice.length]
  · intro name hn
    obtain ⟨m, hm, rfl⟩ := List.mem_map.1 hn
    refine ⟨⟨m, choice.mem m hm, rfl⟩, ?_⟩
    intro f hf
    by_contra lacks
    have missing : f.isOn (w.fleet.nameOf m.id) = false := by
      rw [(nameOf_of_choice choice hm).1]
      simpa using lacks
    obtain ⟨j, hj, -⟩ := exists_job (p := p) hf (List.mem_map_of_mem hm) missing
    rw [nothing] at hj
    cases hj

theorem isArchived_of_record (wf : w.namespace_.WellFormed)
    (listed : p.files w.namespace_ d = .ok fs) (nodup : ∀ f ∈ fs, f.holders.Nodup)
    {ms : List Member} (choice : Destination.Choice p.section_ (p.eligible w) ms)
    {order : List Job} (all : order.Perm (p.jobsFor w.fleet fs (ms.map (·.id)))) {later : World}
    (recorded : w.namespace_.record w.fleet order = .ok later.namespace_)
    (built : later.fleet.Built) (online : ∀ m ∈ ms, StillOnline later.fleet m) :
    p.isArchived later d = .ok true := by
  -- a job is for a listed file, so its copy can be recorded whatever was recorded before
  have stored : ∀ j ∈ order, ∃ e f, w.namespace_.Stored e f ∧ f.path = j.file.path := by
    intro j hj
    obtain ⟨f, hf, id, -, -, rfl⟩ := mem_jobsFor.1 (all.mem_iff.1 hj)
    obtain ⟨e, there, -⟩ := (Namespace.mem_files wf listed f).1 hf
    exact ⟨e, f, there, rfl⟩
  rw [wf.record_eq w.fleet order stored] at recorded
  have files : p.files later.namespace_ d =
      .ok (fs.map (Namespace.copied w.fleet order)) := by
    rw [← Except.ok.inj recorded]
    exact Namespace.files_mapFiles listed
  refine isArchived_of_choice built files ?_ choice.names ?_ ?_
  · intro g hg
    obtain ⟨f, hf, rfl⟩ := List.mem_map.1 hg
    exact Namespace.nodup_copied w.fleet order (nodup f hf)
  · rw [List.length_map, choice.length]
  · intro name hn
    obtain ⟨m, hm, rfl⟩ := List.mem_map.1 hn
    obtain ⟨same, eligible⟩ := nameOf_of_choice choice hm
    obtain ⟨n, mem, up, name⟩ := online m hm
    refine ⟨⟨n, Destination.mem_eligible.2 ⟨mem, up, ?_⟩, name⟩, ?_⟩
    · rw [name]
      exact eligible
    · intro g hg
      obtain ⟨f, hf, rfl⟩ := List.mem_map.1 hg
      -- either the node had the file, or it got it from its job
      cases had : f.isOn m.node.name with
      | true => exact Namespace.isOn_copied_of_isOn w.fleet order had
      | false =>
        rw [← same] at had ⊢
        obtain ⟨j, hj, file, node⟩ := exists_job (p := p) hf (List.mem_map_of_mem hm) had
        rw [← node]
        exact Namespace.isOn_copied_of_mem w.fleet order (all.mem_iff.2 hj) (congrArg _ file)

theorem isArchived_congr {r : Policy} (same : r.section_ = p.section_) (w : World) (d : Dir) :
    r.isArchived w d = p.isArchived w d := by
  unfold isArchived files eligible
  rw [same]

end Policy

/-- Nodes that have been found can be fixed, and the jobs that are sent then are one for each file
of the directory and each of the nodes that lacks it.  There are some unless the directory was
archived before.  All their copies can be recorded, in any order, and with the nodes still online
the directory is archived afterwards and not the next one of any policy of the section. -/
theorem isArchived_of_send (p : Policy) (w : World) (d : Dir) (ms : List Member)
    (reached : w.namespace_.Reached) (built : w.fleet.Built) (pos : 1 ≤ p.section_.copies)
    (dir : p.directory = some d) (free : p.destinations = none)
    (nodup : ∀ f, w.namespace_.InScope d p.section_.deep f → f.holders.Nodup)
    (found : p.find w = .answer (some ms)) :
    ∃ q js, p.freeze (ms.map (·.id)) = .ok q ∧ q.send w = .ok js ∧
      (js.map fun j => (j.file.path, j.destination)).Nodup ∧
      (∀ f id, (∃ j ∈ js, j.file = f ∧ j.destination = id) ↔
        w.namespace_.InScope d p.section_.deep f ∧ id ∈ ms.map (·.id) ∧
          f.isOn (w.fleet.nameOf id) = false) ∧
      (p.isArchived w d = .ok false → js ≠ []) ∧
      ∀ order : List Job, order.Perm js →
        ∃ ns, w.namespace_.record w.fleet order = .ok ns ∧
          ∀ later : World, later.namespace_ = ns → later.fleet.Built →
            (∀ m ∈ ms, Policy.StillOnline later.fleet m) →
              ∀ r : Policy, r.section_ = p.section_ →
                r.isArchived later d = .ok true ∧ ∀ now, r.next later now ≠ .ok (some d) := by
  obtain ⟨e, fs, dir', listed, -, choice⟩ := Policy.find_eq_some built pos found
  have same : e = d := Option.some.inj (dir'.symm.trans dir)
  subst same
  have wf := reached.wellFormed
  have scope := Namespace.mem_files wf listed
  have nodupFs : ∀ f ∈ fs, f.holders.Nodup := fun f hf => nodup f ((scope f).1 hf)
  have chosen : (ms.map (·.id)).isEmpty = false := by
    have length := choice.length
    cases ms with
    | nil => simp at length; omega
    | cons m ms => rfl
  have frozen : p.freeze (ms.map (·.id)) =
      .ok { p with destinations := some (ms.map (·.id)) } := by
    rw [Policy.freeze, chosen, free]
    rfl
  have sent : ({ p with destinations := some (ms.map (·.id)) } : Policy).send w =
      .ok (p.jobsFor w.fleet fs (ms.map (·.id))) := Policy.send_eq dir rfl listed
  refine ⟨_, _, frozen, sent, ?_, ?_, ?_, ?_⟩
  · exact Policy.pairs_jobsFor p w.fleet (Namespace.paths_files wf listed)
      (Policy.ids_of_choice choice)
  · intro f id
    rw [← scope f]
    constructor
    · rintro ⟨j, hj, rfl, rfl⟩
      obtain ⟨g, hg, i, hi, lacks, rfl⟩ := Policy.mem_jobsFor.1 hj
      exact ⟨hg, hi, lacks⟩
    · rintro ⟨hf, hid, lacks⟩
      exact Policy.exists_job hf hid lacks
  · intro before nothing
    rw [Policy.isArchived_of_jobsFor_eq_nil built listed nodupFs choice nothing] at before
    cases before
  · intro order all
    have stored : ∀ j ∈ order, ∃ e f, w.namespace_.Stored e f ∧ f.path = j.file.path := by
      intro j hj
      obtain ⟨f, hf, id, -, -, rfl⟩ := Policy.mem_jobsFor.1 (all.mem_iff.1 hj)
      obtain ⟨e, there, -⟩ := (scope f).1 hf
      exact ⟨e, f, there, rfl⟩
    have recorded := wf.record_eq w.fleet order stored
    refine ⟨_, recorded, ?_⟩
    intro later ns built' online r rule
    rw [← ns] at recorded
    have archived : r.isArchived later e = .ok true := by
      rw [Policy.isArchived_congr rule]
      exact Policy.isArchived_of_record wf listed nodupFs choice all recorded built' online
    refine ⟨archived, ?_⟩
    intro now handed
    rw [Policy.isArchived_of_next handed] at archived
    cases archived

def halfCopied : World where
  clock := default
  namespace_ := (Namespace.empty.addFile 0 "/rls/T/a" 1 ["n1"]).addFile 0 "/rls/T/b" 1 ["n1"]
  fleet := ((Fleet.add {} { name := "n1", free := 0 }).1.add { name := "n2", free := 0 }).1

def twiceCopied : Policy where
  section_ := { name := "rls", path := Dir.ofText "/rls", placement := .mostFree, copies := 2 }
  directory := some (Dir.ofText "/rls/T")

def bothNodes : List Member :=
  [⟨0, { name := "n1", free := 0 }⟩, ⟨1, { name := "n2", free := 0 }⟩]

theorem isArchived_of_send_halfCopied :
    twiceCopied.find halfCopied = .answer (some bothNodes) ∧
    ∃ q js, twiceCopied.freeze (bothNodes.map (·.id)) = .ok q ∧ q.send halfCopied = .ok js ∧
      js ≠ [] ∧
      ∃ ns, halfCopied.namespace_.record halfCopied.fleet js.reverse = .ok ns ∧
        twiceCopied.isArchived { halfCopied with namespace_ := ns } (Dir.ofText "/rls/T") =
          .ok true := by
  have reached : halfCopied.namespace_.Reached := .addFile _ _ _ _ (.addFile _ _ _ _ .empty)
  have built : halfCopied.fleet.Built := .add _ (.add _ .empty)
  have listed : twiceCopied.files halfCopied.namespace_ (Dir.ofText "/rls/T") =
      .ok [⟨"/rls/T/a", 1, ["n1"]⟩, ⟨"/rls/T/b", 1, ["n1"]⟩] := by decide +kernel
  have found : twiceCopied.find halfCopied = .answer (some bothNodes) := by
    rw [Policy.find_byFreeSpace rfl rfl rfl listed]
    exact congrArg Search.answer (by decide +kernel)
  have nodup : ∀ f, halfCopied.namespace_.InScope (Dir.ofText "/rls/T") true f →
      f.holders.Nodup := by
    intro f hf
    have mem := (Namespace.mem_files reached.wellFormed listed f).2 hf
    simp only [List.mem_cons, List.not_mem_nil, or_false] at mem
    rcases mem with rfl | rfl <;> exact List.nodup_singleton _
  have missing : twiceCopied.isArchived halfCopied (Dir.ofText "/rls/T") = .ok false := by
    decide +kernel
  have online : ∀ m ∈ bothNodes, Policy.StillOnline halfCopied.fleet m := by
    have members : halfCopied.fleet.all = bothNodes := by decide +kernel
    intro m hm
    refine ⟨m, ?_, ?_, rfl⟩
    · rw [members]
      exact hm
    · simp only [bothNodes, List.mem_cons, List.not_mem_nil, or_false] at hm
      rcases hm with rfl | rfl <;> rfl
  obtain ⟨q, js, frozen, sent, -, -, some, done⟩ :=
    isArchived_of_send twiceCopied halfCopied _ bothNodes reached built (by decide) rfl rfl
      nodup found
  obtain ⟨ns, recorded, after⟩ := done js.reverse js.reverse_perm
  refine ⟨found, q, js, frozen, sent, some missing, ns, recorded, ?_⟩
  exact (after { halfCopied with namespace_ := ns } rfl built online twiceCopied rfl).1

end Archivist
