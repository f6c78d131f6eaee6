import Archivist.Config.Settings
import Archivist.Proofs.Runs.Claiming
import Archivist.Proofs.Tree.Adding
set_option autoImplicit false

/-!
# Runs inside each other

Settings may have a section inside a subdirectory of another, and then two runs may come to work on
nested directories: a directory is passed over if it lies in a registered one, but not if a
registered one lies in it.  If no section lies inside a subdirectory that another may archive
(`Settings.Separate`), this never happens, however the runs go.  If one does, a tree with one file
for each of both is enough (`nestedTree`): the inner run takes its directory first, and the outer
one takes the directory around it.
-/

namespace Archivist

/-- No section lies in a subdirectory that a section may archive. -/
def Settings.Separate (x : Settings) : Prop :=
  ∀ s ∈ x.sections, ∀ t ∈ x.sections, ∀ d, s.Offers d → d.contains t.path = false

namespace Namespace

/-- Files are listed where their paths say. -/
def Filed (ns : Namespace) : Prop := ∀ d f, ns.Stored d f → f.FiledIn d

theorem Reached.filed {ns : Namespace} (reached : ns.Reached) : ns.Filed :=
  fun _ _ stored => stored.filedIn reached.wellFormed

theorem stored_of_mem_collect {ns : Namespace} {f : FileEntry} {deep : Bool} {n : Nat} {d : Dir}
    (hf : f ∈ ns.collect deep n d) : ∃ e, d.contains e = true ∧ ns.Stored e f := by
  induction n generalizing deep d with
  | zero => cases hf
  | succ n ih =>
    unfold collect at hf
    split at hf
    · cases hf
    · rename_i info found
      rcases List.mem_append.1 hf with here | below
      · exact ⟨d, Dir.contains_self d, info, found, here⟩
      · split at below
        · obtain ⟨c, hc, deeper⟩ := List.mem_flatMap.1 below
          obtain ⟨e, inside, stored⟩ := ih deeper
          have above := Dir.contains_parent (mem_children.1 hc).2
          exact ⟨e, Dir.contains_trans above inside, stored⟩
        · cases below

theorem stored_of_mem_files {ns : Namespace} {d : Dir} {deep : Bool} {fs : List FileEntry}
    (listed : ns.files d deep = .ok fs) {f : FileEntry} (hf : f ∈ fs) :
    ∃ e, d.contains e = true ∧ ns.Stored e f := by
  obtain ⟨-, rfl⟩ := files_eq_ok listed
  exact stored_of_mem_collect hf

theorem exists_files_of_inScope {ns : Namespace} (wf : ns.WellFormed) {d : Dir} {deep : Bool}
    {f : FileEntry} (h : ns.InScope d deep f) : ∃ fs, ns.files d deep = .ok fs ∧ f ∈ fs := by
  obtain ⟨e, stored, inside⟩ := h
  have below : d.contains e = true := by
    split at inside
    · exact inside
    · rw [inside]
      exact Dir.contains_self d
  have listed : ns.files d deep = .ok (ns.collect deep (ns.dirs.length + 1) d) :=
    if_pos (wf.exists_above stored.exists below)
  exact ⟨_, listed, (mem_files wf listed f).2 ⟨e, stored, inside⟩⟩

theorem exists_common_file {ns : Namespace} (wf : ns.WellFormed) {d e : Dir} {f : FileEntry}
    (stored : ns.Stored e f) (nested : d.contains e = true) (deep : Bool) :
    ∃ fs gs, ns.files d true = .ok fs ∧ ns.files e deep = .ok gs ∧ ∃ f ∈ fs, f ∈ gs := by
  have outer : ns.InScope d true f := ⟨e, stored, nested⟩
  have inner : ns.InScope e deep f := by
    refine ⟨e, stored, ?_⟩
    split
    · exact Dir.contains_self e
    · rfl
  obtain ⟨fs, listed, hf⟩ := exists_files_of_inScope wf outer
  obtain ⟨gs, listed', hg⟩ := exists_files_of_inScope wf inner
  exact ⟨fs, gs, listed, listed', f, hf, hg⟩

end Namespace

namespace Choosing

variable {c : Choosing} {x : Settings} {i j : Nat} {s t : Section} {d e : Dir}

theorem Sound.apart (sound : c.Sound) (all : c.sections = x.sections) (separate : x.Separate)
    (outer : c.WorksOn i s d) (inner : c.WorksOn j t e) (ne : i ≠ j) : d.contains e = false := by
  rw [Bool.eq_false_iff]
  intro nested
  obtain ⟨offered, inside⟩ := sound.contains_section outer inner ne nested
  have hs : s ∈ x.sections := by
    rw [← all]
    exact List.mem_of_getElem? outer.1
  have ht : t ∈ x.sections := by
    rw [← all]
    exact List.mem_of_getElem? inner.1
  rw [separate s hs t ht d offered] at inside
  cases inside

theorem Sound.eq_of_nested (sound : c.Sound) (all : c.sections = x.sections) (separate : x.Separate)
    {a b : Registration} (ha : a ∈ c.party.registry.entries) (hb : b ∈ c.party.registry.entries)
    (nested : a.directory.contains b.directory = true) : a = b := by
  obtain ⟨i, s, outer⟩ := sound.exists_worksOn ha
  obtain ⟨j, t, inner⟩ := sound.exists_worksOn hb
  by_cases same : i = j
  · obtain ⟨-, p, hp, hget⟩ := outer
    obtain ⟨-, q, hq, hget'⟩ := inner
    rw [same, hq] at hp
    have eq : a.directory = b.directory := by rw [← hget, ← hget', Option.some.inj hp]
    exact List.inj_on_of_nodup_map sound.owned.keys ha hb eq
  · rw [sound.apart all separate outer inner same] at nested
    cases nested

theorem not_mem_both {ns : Namespace} (filed : ns.Filed) (apart : d.contains e = false)
    (apart' : e.contains d = false) {deep deep' : Bool} {fs gs : List FileEntry}
    (listed : ns.files d deep = .ok fs) (listed' : ns.files e deep' = .ok gs) {f : FileEntry}
    (hf : f ∈ fs) : f ∉ gs := by
  intro hg
  obtain ⟨p, below, stored⟩ := Namespace.stored_of_mem_files listed hf
  obtain ⟨q, below', stored'⟩ := Namespace.stored_of_mem_files listed' hg
  obtain rfl := (filed p f stored).unique (filed q f stored')
  rcases Dir.contains_total below below' with nested | nested
  · rw [apart] at nested
    cases nested
  · rw [apart'] at nested
    cases nested

end Choosing

namespace Settings

theorem ok_of_guard {α : Type} {wrong : Prop} [Decidable wrong] {e : ConfigFault}
    {rest : Except ConfigFault α} {a : α}
    (h : (if wrong then Except.error e >>= fun _ : PUnit => rest else rest) = .ok a) :
    ¬ wrong ∧ rest = .ok a := by
  split at h
  · cases h
  · rename_i right
    exact ⟨right, h⟩

theorem checkSection_of_checkSections {seen : List String} {xs : List Section}
    (h : checkSections seen xs = .ok ()) : ∀ x ∈ xs, checkSection x = .ok () := by
  induction xs generalizing seen with
  | nil => exact fun x hx => by cases hx
  | cons y ys ih =>
    unfold checkSections at h
    obtain ⟨-, later⟩ := ok_of_guard h
    cases first : checkSection y with
    | error e =>
      rw [first] at later
      cases later
    | ok _ =>
      rw [first] at later
      exact List.forall_mem_cons.2 ⟨first, ih later⟩

theorem checkSection_of_check {x : Settings} (accepted : x.check = .ok ()) :
    ∀ s ∈ x.sections, checkSection s = .ok () := by
  unfold check at accepted
  obtain ⟨-, accepted⟩ := ok_of_guard accepted
  obtain ⟨-, accepted⟩ := ok_of_guard accepted
  obtain ⟨-, accepted⟩ := ok_of_guard accepted
  exact checkSection_of_checkSections accepted

theorem copies_pos {x : Settings} (accepted : x.check = .ok ()) (s : Section)
    (hs : s ∈ x.sections) : 0 < s.copies :=
  Nat.pos_of_ne_zero (ok_of_guard (checkSection_of_check accepted s hs)).1

end Settings

theorem Registry.isArchiving_eq_false {r : Registry} {d : Dir} :
    r.isArchiving d = false ↔ ∀ x ∈ r.entries, x.directory.contains d = false := by
  simp [isArchiving]

namespace Section

variable {t : Section} {d e : Dir}

theorem exists_offered (t : Section) : ∃ e, t.Offers e := by
  obtain ⟨n, name, fresh⟩ := Dir.exists_name t.ignored
  refine ⟨t.path.join n, t.path.parent?_join_name name, ?_⟩
  rw [t.path.name_join_name name]
  exact fresh

/-- What a section offers lies below the directory in which the section lies. -/
theorem Offers.nested_of_inside (offered : t.Offers e) (inside : d.contains t.path = true) :
    d.contains e = true ∧ e.contains d = false := by
  refine ⟨Dir.contains_trans inside (Dir.contains_parent offered.1), ?_⟩
  rw [Bool.eq_false_iff]
  intro back
  have upper := Dir.length_le_of_contains inside
  have lower := Dir.length_parent offered.1
  have around := Dir.length_le_of_contains back
  omega

end Section

/-- A world without nodes, in which everything was made some seconds ago. -/
def standing (outer inner : Dir) (n : String) (seconds : Nat) : World where
  clock := ⟨seconds * Instant.second⟩
  namespace_ := nestedTree outer inner n

namespace Choosing

variable {x : Settings} {i j : Nat} {s t : Section} {d e inner outer : Dir} {n : String}

theorem select_in_standing (name : IsName n) (above : outer.contains inner = true)
    (offered : s.Offers d) (inside : d.contains inner = true) {f : FileEntry}
    (stored : (nestedTree outer inner n).Stored d f) (copies : 0 < s.copies) {seconds : Nat}
    (old : s.minAge ≤ seconds) {r : Registry} (free : r.isArchiving d = false) :
    (Handler.select { section_ := s } { standing outer inner n seconds with registry := r }).2 =
      .selected d := by
  have wf := (Namespace.reached_nestedTree outer inner n).wellFormed
  refine Policy.select_of_only_child rfl
    (Namespace.subdirectories_nestedTree name above offered.1 inside)
    (Namespace.createdAt_nestedTree name above inside) ?_
    (Policy.isArchived_of_no_nodes wf stored rfl copies)
  have age : ((s.minAge : Int) * Instant.second) ≤
      max 0 (seconds * Instant.second - Instant.epoch) := by
    have longer : ((s.minAge : Int) * Instant.second) ≤ seconds * Instant.second :=
      Int.mul_le_mul_of_nonneg_right (Int.ofNat_le.2 old) (by decide)
    rw [Instant.epoch, Int.sub_zero]
    exact Int.le_trans longer (Int.le_max_right _ _)
  exact Policy.isCandidate_of offered free age

theorem exists_both (name : IsName n) (copies : ∀ s ∈ x.sections, 0 < s.copies)
    (hi : x.sections[i]? = some s) (hj : x.sections[j]? = some t) (ij : i ≠ j)
    (offered : s.Offers d) (offered' : t.Offers e) (nested : d.contains e = true)
    (apart : e.contains d = false) {seconds : Nat} (old : s.minAge ≤ seconds)
    (old' : t.minAge ≤ seconds) :
    ∃ ms, (∀ m ∈ ms, ∀ w, m.2 = .ask w → w = standing d e n seconds) ∧
      ((start x.sections).run ms).WorksOn i s d ∧ ((start x.sections).run ms).WorksOn j t e := by
  have ne : d ≠ e := by
    rintro rfl
    rw [nested] at apart
    cases apart
  -- the inner handler looks first, and nobody has registered anything
  obtain ⟨idle, h, there, begins⟩ := start_at hj
  obtain ⟨ms, asks, spared, entries, inner⟩ := exists_claim hj idle there begins
    (select_in_standing name nested offered' (Dir.contains_self e) (Namespace.stored_inner name ne)
      (copies t (List.mem_of_getElem? hj)) old' rfl) rfl
  -- the outer one is not told of a directory that lies inside its own
  obtain ⟨idle', h', there', begins'⟩ := start_at hi
  have only : ∀ a ∈ ((start x.sections).run ms).party.registry.entries, a.directory = e := by
    intro a ha
    rw [entries, List.mem_append] at ha
    rcases ha with hnone | here
    · cases hnone
    · rw [List.mem_singleton.1 here]
  have unseen : ((start x.sections).run ms).party.registry.isArchiving d = false :=
    Registry.isArchiving_eq_false.2 fun a ha => by rw [only a ha]; exact apart
  have free : ((start x.sections).run ms).party.registry.contains d = false :=
    Registry.contains_eq_false_iff.2 fun a ha => by rw [only a ha]; exact ne.symm
  obtain ⟨ns, asks', spared', -, outer⟩ := exists_claim (c := (start x.sections).run ms)
    (by rw [spared.sections]; exact hi) (by rw [spared.quests i ij]; exact idle')
    (by rw [spared.handlers i ij]; exact there') begins'
    (select_in_standing name nested offered nested (Namespace.stored_outer name)
      (copies s (List.mem_of_getElem? hi)) old unseen) free
  refine ⟨ms ++ ns, ?_, ?_, ?_⟩
  · intro m hm
    rcases List.mem_append.1 hm with first | second
    · exact asks m first
    · exact asks' m second
  · rw [run_append]
    exact outer
  · rw [run_append]
    exact inner.spared spared' ij.symm

/-- If a section lies in a subdirectory of another, two runs come to work on nested directories: the
inner one takes its directory, and the outer one the directory around it. -/
theorem exists_nested (copies : ∀ s ∈ x.sections, 0 < s.copies) (hs : s ∈ x.sections)
    (ht : t ∈ x.sections) (offered : s.Offers d) (inside : d.contains t.path = true) :
    ∃ (w : World) (ms : List (Nat × Move)) (i j : Nat) (e : Dir),
      w.namespace_.Reached ∧ (∀ m ∈ ms, ∀ w', m.2 = .ask w' → w' = w) ∧ i ≠ j ∧ d ≠ e ∧
      ((start x.sections).run ms).WorksOn i s d ∧ ((start x.sections).run ms).WorksOn j t e ∧
      d.contains e = true ∧
      (s.deep = true → ∃ fs gs, w.namespace_.files d s.deep = .ok fs ∧
        w.namespace_.files e t.deep = .ok gs ∧ ∃ f ∈ fs, f ∈ gs) := by
  obtain ⟨i, hi⟩ := List.mem_iff_getElem?.1 hs
  obtain ⟨j, hj⟩ := List.mem_iff_getElem?.1 ht
  obtain ⟨e, offered'⟩ := t.exists_offered
  obtain ⟨nested, apart⟩ := offered'.nested_of_inside inside
  obtain ⟨n, name, -⟩ := Dir.exists_name []
  have ij : i ≠ j := by
    rintro rfl
    obtain rfl : s = t := Option.some.inj (hi.symm.trans hj)
    have upper := Dir.length_le_of_contains inside
    have lower := Dir.length_parent offered.1
    omega
  have ne : d ≠ e := by
    rintro rfl
    rw [nested] at apart
    cases apart
  obtain ⟨ms, asks, outer, inner⟩ := exists_both name copies hi hj ij offered offered' nested apart
    (Nat.le_max_left s.minAge t.minAge) (Nat.le_max_right s.minAge t.minAge)
  refine ⟨standing d e n (max s.minAge t.minAge), ms, i, j, e, Namespace.reached_nestedTree d e n,
    asks, ij, ne, outer, inner, nested, fun deep => ?_⟩
  rw [deep]
  exact Namespace.exists_common_file (Namespace.reached_nestedTree d e n).wellFormed
    (Namespace.stored_inner name ne) nested t.deep

end Choosing

open Choosing in
/-- For settings that are accepted, with a handler for each section and all of them going on in any
order.  If no section lies in a subdirectory that a section may archive, no registered directory
ever contains another, and no file is listed for two runs in any tree.  If one does, handlers that
see one tree which does not change come to work on nested directories, and on one file if the outer
section takes the files of subdirectories. -/
theorem run_worksOn_separate (x : Settings) (accepted : x.check = .ok ()) :
    (x.Separate → ∀ ms : List (Nat × Move),
      let c := (start x.sections).run ms
      (∀ a ∈ c.party.registry.entries, ∀ b ∈ c.party.registry.entries,
        a.directory.contains b.directory = true → a = b) ∧
      ∀ (i j : Nat) (s t : Section) (d e : Dir), i ≠ j → c.WorksOn i s d → c.WorksOn j t e →
        ∀ (ns : Namespace), ns.Filed → ∀ fs gs, ns.files d s.deep = .ok fs →
          ns.files e t.deep = .ok gs → ∀ f ∈ fs, f ∉ gs) ∧
    (¬ x.Separate → ∃ (w : World) (ms : List (Nat × Move)) (i j : Nat) (s t : Section) (d e : Dir),
      let c := (start x.sections).run ms
      w.namespace_.Reached ∧ (∀ m ∈ ms, ∀ w', m.2 = .ask w' → w' = w) ∧ i ≠ j ∧ d ≠ e ∧
      c.WorksOn i s d ∧ c.WorksOn j t e ∧ d.contains e = true ∧
      (s.deep = true → ∃ fs gs, w.namespace_.files d s.deep = .ok fs ∧
        w.namespace_.files e t.deep = .ok gs ∧ ∃ f ∈ fs, f ∈ gs)) := by
  refine ⟨fun separate ms => ?_, fun mixed => ?_⟩
  · intro c
    have sound : c.Sound := sound_run (sound_start x.sections) ms
    have all : c.sections = x.sections := sections_run _ ms
    refine ⟨fun a ha b hb nested => sound.eq_of_nested all separate ha hb nested, ?_⟩
    intro i j s t d e ne outer inner ns filed fs gs listed listed' f hf
    exact not_mem_both filed (sound.apart all separate outer inner ne)
      (sound.apart all separate inner outer ne.symm) listed listed' hf
  · unfold Settings.Separate at mixed
    push Not at mixed
    obtain ⟨s, hs, t, ht, d, offered, inside⟩ := mixed
    obtain ⟨w, ms, i, j, e, found⟩ := exists_nested (Settings.copies_pos accepted) hs ht offered
      (by simpa using inside)
    exact ⟨w, ms, i, j, s, t, d, e, found⟩

def stacked : Settings where
  sections :=
    [{ name := "all", path := .ofText "/x", placement := .mostFree },
      { name := "deep", path := .ofText "/x/T", placement := .mostFree }]

theorem run_worksOn_stacked :
    stacked.check = .ok () ∧ ∃ (ms : List (Nat × Choosing.Move)) (i j : Nat) (s t : Section)
      (d e : Dir), i ≠ j ∧ d ≠ e ∧ ((Choosing.start stacked.sections).run ms).WorksOn i s d ∧
      ((Choosing.start stacked.sections).run ms).WorksOn j t e ∧ d.contains e = true := by
  have accepted : stacked.check = .ok () := rfl
  have mixed : ¬ stacked.Separate := by
    intro separate
    have offered : (stacked.sections[0]).Offers (.ofText "/x/T") := by
      constructor <;> decide +kernel
    have apart := separate _ (List.getElem_mem _) _ (List.getElem_mem (n := 1) (by decide)) _ offered
    revert apart
    decide +kernel
  obtain ⟨-, nests⟩ := run_worksOn_separate stacked accepted
  obtain ⟨w, ms, i, j, s, t, d, e, -, -, ij, ne, outer, inner, nested, -⟩ := nests mixed
  exact ⟨accepted, ms, i, j, s, t, d, e, ij, ne, outer, inner, nested⟩

end Archivist
