import Archivist.Proofs.Tree.Reached
set_option autoImplicit false

namespace Archivist.Namespace

/-- Where a path leads: a directory and the first place in it under that path. -/
def spot? (ns : Namespace) (path : String) : Option (Dir × Nat) :=
  let target := Dir.ofText path
  let d := target.parent?.getD .root
  (ns.get? d).bind fun info =>
    ((info.files.map (·.path)).idxOf? target.text).map fun k => (d, k)

theorem updateFirst_of_idxOf? {fs : List FileEntry} {path : String} {k : Nat}
    (h : (fs.map (·.path)).idxOf? path = some k) (change : FileEntry → FileEntry) :
    ∃ f, fs[k]? = some f ∧ updateFirst path change fs = fs.set k (change f) := by
  induction fs generalizing k with
  | nil => cases h
  | cons f fs ih =>
    rw [List.map_cons, List.idxOf?_cons] at h
    unfold updateFirst
    by_cases here : f.path = path
    · rw [if_pos (by simpa using here)] at h
      cases h
      exact ⟨f, rfl, by rw [if_pos here]; rfl⟩
    · rw [if_neg (by simpa using here)] at h
      obtain ⟨i, found, rfl⟩ := Option.map_eq_some_iff.1 h
      obtain ⟨g, there, eq⟩ := ih found
      exact ⟨g, there, by rw [if_neg here, eq]; rfl⟩

variable {ns ns' : Namespace} {path node : String}

theorem addReplica_at_spot (h : ns.addReplica path node = .ok ns') :
    ∃ d k info f, ns.spot? path = some (d, k) ∧ ns.get? d = some info ∧ info.files[k]? = some f ∧
      ns'.keys = ns.keys ∧
      ∀ e, ns'.get? e =
        if e = d then some { info with files := info.files.set k (addHolder node f) }
        else ns.get? e := by
  have listed := isSome_file?_of_addReplica h
  unfold addReplica at h
  dsimp only at h
  split at h
  · cases h
  · rw [← Except.ok.inj h]
    unfold file? at listed
    dsimp only at listed
    cases found : ns.get? ((Dir.ofText path).parent?.getD .root) with
    | none =>
      rw [found] at listed
      cases listed
    | some info =>
      rw [found, Option.bind_some, List.find?_isSome] at listed
      obtain ⟨g, mem, here⟩ := listed
      have there : (Dir.ofText path).text ∈ info.files.map (·.path) :=
        List.mem_map.2 ⟨g, mem, by simpa using here⟩
      obtain ⟨k, first⟩ := Option.isSome_iff_exists.1 (List.isSome_idxOf?.2 there)
      obtain ⟨f, hget, changed⟩ := updateFirst_of_idxOf? first (addHolder node)
      refine ⟨_, k, info, f, ?_, found, hget, keys_update _ _ _, ?_⟩
      · unfold spot?
        dsimp only
        rw [found, Option.bind_some, first]
        rfl
      · intro e
        rw [get?_update, found, Option.map_some, changed]

/-- A file with the holders of another and behind them some more, each once. -/
def Gained (more : String → Prop) (f g : FileEntry) : Prop :=
  ∃ added, g = { f with holders := f.holders ++ added } ∧ added.Nodup ∧
    ∀ name, name ∈ added ↔ more name ∧ name ∉ f.holders

theorem Gained.refl (f : FileEntry) : Gained (fun _ => False) f f :=
  ⟨[], by rw [List.append_nil], List.nodup_nil, by simp⟩

theorem Gained.imp {more more' : String → Prop} {f g : FileEntry} (h : Gained more f g)
    (same : ∀ name, more name ↔ more' name) : Gained more' f g := by
  obtain ⟨added, eq, once, mem⟩ := h
  exact ⟨added, eq, once, fun name => by rw [mem, same]⟩

theorem Gained.addHolder {more : String → Prop} {f g : FileEntry} (h : Gained more f g)
    (node : String) : Gained (fun name => more name ∨ name = node) f (addHolder node g) := by
  obtain ⟨added, rfl, once, mem⟩ := h
  unfold Namespace.addHolder
  by_cases there : node ∈ f.holders ++ added
  · rw [if_pos (by simpa [FileEntry.isOn] using there)]
    refine ⟨added, rfl, once, ?_⟩
    intro name
    rw [mem]
    constructor
    · rintro ⟨told, new⟩
      exact ⟨.inl told, new⟩
    · rintro ⟨told | rfl, new⟩
      · exact ⟨told, new⟩
      · rcases List.mem_append.1 there with old | old
        · exact absurd old new
        · exact (mem _).1 old
  · rw [if_neg (by simpa [FileEntry.isOn] using there)]
    rw [List.mem_append, not_or] at there
    refine ⟨added ++ [node], by simp, ?_, ?_⟩
    · refine List.nodup_append.2 ⟨once, List.nodup_singleton _, ?_⟩
      intro x hx y hy eq
      rw [eq, List.mem_singleton.1 hy] at hx
      exact there.2 hx
    · intro name
      rw [List.mem_append, mem, List.mem_singleton]
      constructor
      · rintro (⟨told, new⟩ | rfl)
        · exact ⟨.inl told, new⟩
        · exact ⟨.inr rfl, there.1⟩
      · rintro ⟨told | rfl, new⟩
        · exact .inl ⟨told, new⟩
        · exact .inr rfl

/-- A tree whose files have gained holders, `more` telling which at each spot, and that is otherwise
what it was. -/
structure Grown (more : Dir → Nat → String → Prop) (ns ns' : Namespace) : Prop where
  keys : ns'.keys = ns.keys
  files : ∀ d info, ns.get? d = some info → ∃ info', ns'.get? d = some info' ∧
    info'.created = info.created ∧ info'.files.length = info.files.length ∧
    ∀ (k : Nat) f, info.files[k]? = some f → ∃ g, info'.files[k]? = some g ∧ Gained (more d k) f g

namespace Grown

variable {more more' : Dir → Nat → String → Prop}

theorem refl (ns : Namespace) : Grown (fun _ _ _ => False) ns ns where
  keys := rfl
  files _ info found := ⟨info, found, rfl, rfl, fun _ f hget => ⟨f, hget, .refl f⟩⟩

theorem imp (h : Grown more ns ns') (same : ∀ d k name, more d k name ↔ more' d k name) :
    Grown more' ns ns' where
  keys := h.keys
  files d info found := by
    obtain ⟨info', found', created, length, gained⟩ := h.files d info found
    refine ⟨info', found', created, length, ?_⟩
    intro k f hget
    obtain ⟨g, hget', gain⟩ := gained k f hget
    exact ⟨g, hget', gain.imp (same d k)⟩

theorem get?_eq_none (h : Grown more ns ns') {d : Dir} (missing : ns.get? d = none) :
    ns'.get? d = none := by
  rw [get?_eq_none_iff, h.keys]
  exact get?_eq_none_iff.1 missing

theorem spot?_eq (h : Grown more ns ns') (path : String) : ns'.spot? path = ns.spot? path := by
  unfold spot?
  dsimp only
  generalize (Dir.ofText path).parent?.getD .root = d
  cases found : ns.get? d with
  | none => rw [h.get?_eq_none found]
  | some info =>
    obtain ⟨info', found', -, length, gained⟩ := h.files d info found
    have paths : info'.files.map (·.path) = info.files.map (·.path) := by
      apply List.ext_getElem?
      intro k
      rw [List.getElem?_map, List.getElem?_map]
      cases hget : info.files[k]? with
      | none =>
        rw [List.getElem?_eq_none_iff] at hget
        rw [List.getElem?_eq_none_iff.2 (length ▸ hget)]
      | some f =>
        obtain ⟨g, hget', added, rfl, -⟩ := gained k f hget
        rw [hget']
        rfl
    rw [found', Option.bind_some, Option.bind_some, paths]

theorem addReplica {ns'' : Namespace} (h : Grown more ns ns')
    (ok : ns'.addReplica path node = .ok ns'') :
    Grown (fun d k name => more d k name ∨ ns.spot? path = some (d, k) ∧ name = node) ns ns'' := by
  obtain ⟨d, k, info', g, spot, found', hget', keys, looks⟩ := addReplica_at_spot ok
  rw [h.spot?_eq] at spot
  refine ⟨keys.trans h.keys, ?_⟩
  intro e info found
  obtain ⟨old, foundOld, created, length, gained⟩ := h.files e info found
  rw [looks e, spot]
  by_cases here : e = d
  · subst here
    have same : old = info' := Option.some.inj (foundOld.symm.trans found')
    subst same
    rw [if_pos rfl]
    refine ⟨_, rfl, created, ?_, ?_⟩
    · rw [List.length_set]
      exact length
    · intro i f hget
      obtain ⟨x, atOld, gain⟩ := gained i f hget
      by_cases mine : i = k
      · subst mine
        have same : x = g := Option.some.inj (atOld.symm.trans hget')
        subst same
        have bound := (List.getElem?_eq_some_iff.1 hget').1
        exact ⟨_, List.getElem?_set_self bound, (gain.addHolder node).imp (by simp)⟩
      · refine ⟨x, ?_, gain.imp ?_⟩
        · rw [List.getElem?_set_ne (Ne.symm mine), atOld]
        · simp [Ne.symm mine]
  · rw [if_neg here]
    refine ⟨old, foundOld, created, length, ?_⟩
    intro i f hget
    obtain ⟨x, atOld, gain⟩ := gained i f hget
    exact ⟨x, atOld, gain.imp (by simp [Ne.symm here])⟩

end Grown
end Archivist.Namespace
