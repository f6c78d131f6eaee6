import Archivist.Proofs.Runs.Ownership
set_option autoImplicit false

/-!
# At most one run works on a directory

Handlers that have not begun and a registry without entries are owned, so `owned_step` carries
over to every run of them.  A handler that once changes the registry is admitted from then on;
an admitted handler does not end as a duplicate, which is why a duplicate has changed nothing.
-/

namespace Archivist

namespace Party

def start (hs : List Handler) : Party := { handlers := hs }

theorem start_owned {hs : List Handler} (fresh : ∀ h ∈ hs, h.IsFresh)
    (ids : (hs.map (·.owner)).Nodup) : (start hs).Owned where
  sound i h hi := (fresh h (List.mem_of_getElem? hi)).sound
  ids i j h g hi hj eq := by
    change hs[i]? = some h at hi
    change hs[j]? = some g at hj
    have owners : (hs.map (·.owner))[i]? = (hs.map (·.owner))[j]? := by simp [hi, hj, eq]
    have bound := (List.getElem?_eq_some_iff.1 hi).1
    exact (List.getElem?_inj (by simpa using bound) ids).1 owners
  keys := List.nodup_nil
  listed i s hs' := by
    obtain ⟨h, hi, slot⟩ := Owned.getElem?_of_slotAt hs'
    rw [(fresh h (List.mem_of_getElem? hi)).slot] at slot
    cases slot
  held e he := by cases he

theorem run_owned {hs : List Handler} (fresh : ∀ h ∈ hs, h.IsFresh)
    (ids : (hs.map (·.owner)).Nodup) (es : List (Nat × HandlerEvent)) :
    ((start hs).run es).Owned :=
  run_invariant Owned owned_step _ es (start_owned fresh ids)

/-- Some handler's registering has succeeded at some time. -/
def AdmittedAt (p : Party) (i : Nat) : Prop := ∃ h, p.handlers[i]? = some h ∧ h.Admitted

theorem admittedAt_step {p : Party} {i : Nat} (ha : p.AdmittedAt i) (j : Nat) (e : HandlerEvent) :
    (p.step j e).AdmittedAt i := by
  obtain ⟨h, hi, admitted⟩ := ha
  rcases p.step_cases j e with same | ⟨x, r, g, hj, step, eq⟩
  · rw [same]
    exact ⟨h, hi, admitted⟩
  · rw [eq]
    by_cases ij : i = j
    · subst ij
      have hx : h = x := Option.some.inj (hi.symm.trans hj)
      subst hx
      have bound := (List.getElem?_eq_some_iff.1 hi).1
      exact ⟨g, List.getElem?_set_self bound, step.admitted admitted⟩
    · exact ⟨h, by rw [List.getElem?_set_ne (Ne.symm ij), hi], admitted⟩

theorem admittedAt_run {p : Party} {i : Nat} (ha : p.AdmittedAt i)
    (es : List (Nat × HandlerEvent)) : (p.run es).AdmittedAt i :=
  run_invariant (·.AdmittedAt i) (fun _ j e h => admittedAt_step h j e) p es ha

theorem admittedAt_of_step {p : Party} (o : p.Owned) {i : Nat} {e : HandlerEvent}
    (ne : (p.step i e).registry ≠ p.registry) : (p.step i e).AdmittedAt i := by
  rcases p.step_cases i e with same | ⟨h, r, g, hi, step, eq⟩
  · exact absurd (congrArg Party.registry same) ne
  · rw [eq] at ne ⊢
    have bound := (List.getElem?_eq_some_iff.1 hi).1
    exact ⟨g, List.getElem?_set_self bound,
      step.admitted_of_registry_ne (o.sound i h hi) ne⟩

theorem registry_eq_of_duplicate {hs : List Handler} (fresh : ∀ h ∈ hs, h.IsFresh)
    (ids : (hs.map (·.owner)).Nodup) {before after : List (Nat × HandlerEvent)} {i : Nat}
    {e : HandlerEvent} {h : Handler} {d : Dir}
    (hi : ((start hs).run (before ++ (i, e) :: after)).handlers[i]? = some h)
    (dup : h.ending = some (.duplicate d) ∨ h.outcome = some (.duplicate d)) :
    (((start hs).run before).step i e).registry = ((start hs).run before).registry := by
  by_contra ne
  -- a step that changed the registry would have admitted the handler once and for all
  have admitted := admittedAt_of_step (run_owned fresh ids before) ne
  obtain ⟨g, hg, ha⟩ := admittedAt_run admitted after
  rw [run_append, run_cons, hg] at hi
  cases hi
  rcases dup with dup | dup
  · exact ha.ending d dup
  · exact ha.outcome d dup

theorem Owned.release_slot {p : Party} (o : p.Owned) {i : Nat} {h : Handler} {s : Slot}
    (hi : p.handlers[i]? = some h) (hs : h.slot = some s) :
    ∃ r, p.registry.release s = .ok r ∧ p.registry.letGo s = r ∧
      ∃ e ∈ p.registry.entries, e.owner = h.owner ∧
        ∀ x, x ∈ r.entries ↔ x ∈ p.registry.entries ∧ x ≠ e := by
  have mine : p.slotAt i = some s := by rw [slotAt_of_getElem? hi, hs]
  obtain ⟨e, he, rfl⟩ := o.listed i s mine
  have released := Registry.release_of_mem o.keys he
  exact ⟨_, released, Registry.letGo_of_release released, e, he, o.slot_owner hi mine,
    fun x => Registry.mem_without o.keys he⟩

/-- A handler has the slot of an entry and is its owner. -/
def Holds (p : Party) (i : Nat) (e : Registration) : Prop :=
  ∃ h : Handler, p.handlers[i]? = some h ∧ h.slot = some e.slot ∧ h.owner = e.owner

theorem Owned.unique_holder {p : Party} (o : p.Owned) {e : Registration}
    (he : e ∈ p.registry.entries) : ∃! i, p.Holds i e := by
  obtain ⟨i, hi⟩ := o.held e he
  obtain ⟨h, hh, slot⟩ := Owned.getElem?_of_slotAt hi
  refine ⟨i, ⟨h, hh, slot, (o.slot_owner hh hi).symm⟩, ?_⟩
  rintro j ⟨g, hg, slot', -⟩
  have hj : p.slotAt j = some e.slot := by rw [slotAt_of_getElem? hg, slot']
  exact o.slot_inj hj hi rfl

theorem Owned.no_entry_of_outcome {p : Party} (o : p.Owned) {i : Nat} {h : Handler}
    (hi : p.handlers[i]? = some h) (out : h.outcome ≠ none) {e : Registration}
    (he : e ∈ p.registry.entries) : e.owner ≠ h.owner := by
  intro eq
  obtain ⟨j, ⟨g, hg, slot, owner⟩, -⟩ := o.unique_holder he
  have ij : j = i := o.ids j i g h hg hi (owner.trans eq)
  subst ij
  have hgh : g = h := Option.some.inj (hg.symm.trans hi)
  subst hgh
  -- a handler with a published outcome is done, and then it has no slot
  have sound := o.sound j g hg
  have empty := (sound.done (sound.published out)).2
  rw [slot] at empty
  cases empty

end Party

/-- Handlers with different owners that share a registry, with their steps in any order and each
free to fail, to panic or to be cancelled after any of them: every entry is the slot of exactly one
handler and no two handlers have slots for one directory; a duplicate has changed no entry; every
slot can be given back without complaint and takes its own entry with it and no other; and a
handler whose outcome is published has no entry. -/
theorem run_start_holds_unique (hs : List Handler) (fresh : ∀ h ∈ hs, h.IsFresh)
    (ids : (hs.map (·.owner)).Nodup) (es : List (Nat × HandlerEvent)) :
    let p := (Party.start hs).run es
    (∀ e ∈ p.registry.entries, ∃! i, p.Holds i e) ∧
    (∀ i j s t, p.slotAt i = some s → p.slotAt j = some t → s.directory = t.directory → i = j) ∧
    (∀ (i : Nat) (h : Handler) (d : Dir), p.handlers[i]? = some h →
      h.ending = some (.duplicate d) ∨ h.outcome = some (.duplicate d) →
      ∀ before e after, es = before ++ (i, e) :: after →
        (((Party.start hs).run before).step i e).registry =
          ((Party.start hs).run before).registry) ∧
    (∀ (i : Nat) (h : Handler) (s : Slot), p.handlers[i]? = some h → h.slot = some s →
      ∃ r, p.registry.release s = .ok r ∧ p.registry.letGo s = r ∧
        ∃ e ∈ p.registry.entries, e.owner = h.owner ∧
          ∀ x, x ∈ r.entries ↔ x ∈ p.registry.entries ∧ x ≠ e) ∧
    ∀ (i : Nat) (h : Handler), p.handlers[i]? = some h → h.outcome ≠ none →
      ∀ e ∈ p.registry.entries, e.owner ≠ h.owner := by
  intro p
  have o : p.Owned := Party.run_owned fresh ids es
  refine ⟨fun e he => o.unique_holder he, fun i j s t hs ht eq => o.slot_inj hs ht eq, ?_,
    fun i h s hi slot => o.release_slot hi slot,
    fun i h hi out e he => o.no_entry_of_outcome hi out he⟩
  intro i h d hi dup before e after eq
  subst eq
  exact Party.registry_eq_of_duplicate fresh ids hi dup

def contested : Dir := ⟨["rls", "T"], by decide⟩

def contestants : List Handler :=
  [{ owner := .run 0, sectionName := "rls" }, { owner := .run 1, sectionName := "rls" }]

def contest : List (Nat × HandlerEvent) :=
  [(0, .selected contested), (1, .selected contested), (0, .register 0), (1, .register 0),
    (0, .resolved), (1, .publish), (0, .panicked), (0, .letGo), (0, .publish)]

theorem run_start_holds_contest :
    (∀ h ∈ contestants, h.IsFresh) ∧ (contestants.map (·.owner)).Nodup ∧
      ((Party.start contestants).run (contest.take 6)).registry.entries.map (·.owner) = [.run 0] ∧
      ∀ e ∈ ((Party.start contestants).run contest).registry.entries, e.owner ≠ .run 0 := by
  have fresh : ∀ h ∈ contestants, h.IsFresh := by
    intro h hh
    simp only [contestants, List.mem_cons, List.not_mem_nil, or_false] at hh
    rcases hh with rfl | rfl <;> exact ⟨rfl, rfl, rfl, rfl⟩
  have ids : (contestants.map (·.owner)).Nodup := by simp [contestants]
  obtain ⟨-, -, -, -, published⟩ := run_start_holds_unique contestants fresh ids contest
  have last : ∃ h : Handler, ((Party.start contestants).run contest).handlers[0]? = some h ∧
      h.owner = .run 0 ∧ h.outcome = some (.failed (some contested) .panicked) :=
    ⟨_, rfl, rfl, rfl⟩
  obtain ⟨h, hi, owner, out⟩ := last
  refine ⟨fresh, ids, rfl, ?_⟩
  intro e he
  rw [← owner]
  exact published 0 h hi (by simp [out]) e he

end Archivist
