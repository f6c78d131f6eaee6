import Archivist.Proofs.Runs.Party
import Mathlib.Data.List.Nodup
set_option autoImplicit false

namespace Archivist

namespace Registry

theorem mem_entries_of_find? {r : Registry} {d : Dir} {e : Registration} (h : r.find? d = some e) :
    e ∈ r.entries ∧ e.directory = d := by
  have found := List.find?_some h
  exact ⟨List.mem_of_find?_eq_some h, by simpa using found⟩

theorem contains_eq_false_iff {r : Registry} {d : Dir} :
    r.contains d = false ↔ ∀ e ∈ r.entries, e.directory ≠ d := by
  simp [contains, find?]

theorem find?_of_mem {r : Registry} (keys : (r.entries.map (·.directory)).Nodup)
    {e : Registration} (he : e ∈ r.entries) : r.find? e.directory = some e := by
  cases hf : r.find? e.directory with
  | none =>
    have missing := List.find?_eq_none.1 hf e he
    simp at missing
  | some f =>
    obtain ⟨hm, hd⟩ := mem_entries_of_find? hf
    exact congrArg some (List.inj_on_of_nodup_map keys hm he hd)

def without (r : Registry) (d : Dir) : Registry := ⟨r.entries.filter (·.directory ≠ d)⟩

theorem release_of_mem {r : Registry} (keys : (r.entries.map (·.directory)).Nodup)
    {e : Registration} (he : e ∈ r.entries) : r.release e.slot = .ok (r.without e.directory) := by
  have found := find?_of_mem keys he
  simp only [release, remove, Registration.slot, found, if_true]
  rfl

theorem mem_without {r : Registry} (keys : (r.entries.map (·.directory)).Nodup)
    {e x : Registration} (he : e ∈ r.entries) :
    x ∈ (r.without e.directory).entries ↔ x ∈ r.entries ∧ x ≠ e := by
  rw [without, List.mem_filter]
  refine and_congr_right fun hx => ?_
  -- filtering by directory takes one entry away, since directories are listed once
  have same : x.directory = e.directory ↔ x = e :=
    ⟨fun h => List.inj_on_of_nodup_map keys hx he h, fun h => by rw [h]⟩
  simp [same]

theorem letGo_of_release {r r' : Registry} {s : Slot} (h : r.release s = .ok r') :
    r.letGo s = r' := by
  simp [letGo, h]

end Registry

namespace Handler

structure Admitted (h : Handler) : Prop where
  started : h.stage ≠ .start
  entered : h.stage ≠ .directorySelected
  ending : ∀ d, h.ending ≠ some (.duplicate d)
  outcome : ∀ d, h.outcome ≠ some (.duplicate d)

/-- What holds of a handler by itself: a slot is its own and comes from registering, and after its
outcome is published it has none. -/
structure Sound (h : Handler) : Prop where
  own : ∀ s, h.slot = some s → s.owner = h.owner ∧ h.Admitted
  published : h.outcome ≠ none → h.stage = .done
  done : h.stage = .done → h.ending = none ∧ h.slot = none

structure IsFresh (h : Handler) : Prop where
  stage : h.stage = .start
  slot : h.slot = none
  ending : h.ending = none
  outcome : h.outcome = none

theorem IsFresh.sound {h : Handler} (fresh : h.IsFresh) : h.Sound where
  own s hs := by simp [fresh.slot] at hs
  published ho := absurd fresh.outcome ho
  done hd := by simp [fresh.stage] at hd

end Handler

namespace HandlerStep

variable {r r' : Registry} {h g : Handler}

theorem owner_eq (step : HandlerStep r h r' g) : g.owner = h.owner := by
  cases step <;> rfl

theorem admitted (step : HandlerStep r h r' g) (ha : h.Admitted) : g.Admitted := by
  cases step with
  | rest => exact ha
  | select d start => exact absurd start ha.started
  | proceed s _ _ _ _ after registered _ => exact ⟨after, registered, ha.ending, ha.outcome⟩
  | enter d since _ selected _ => exact absurd selected ha.entered
  | finish o _ _ early =>
    refine ⟨ha.started, ha.entered, ?_, ha.outcome⟩
    intro d eq
    exact ha.entered (early d (Option.some.inj eq))
  | leave s o _ _ => exact ⟨ha.started, ha.entered, ha.ending, ha.outcome⟩
  | publish o closed _ =>
    refine ⟨by simp, by simp, by simp, ?_⟩
    intro d eq
    exact ha.ending d (closed.trans eq)

theorem sound (step : HandlerStep r h r' g) (hs : h.Sound) : g.Sound := by
  cases step with
  | rest => exact hs
  | select d start =>
    refine ⟨?_, ?_, by simp⟩
    · intro s holds
      exact absurd start (hs.own s holds).2.started
    · intro ho
      have ended := hs.published ho
      simp [start] at ended
  | proceed s hopen before unregistered undone after registered unfinished =>
    refine ⟨?_, fun ho => absurd (hs.published ho) undone, fun hd => absurd hd unfinished⟩
    intro t holds
    obtain ⟨owner, ha⟩ := hs.own t holds
    exact ⟨owner, after, registered, ha.ending, ha.outcome⟩
  | enter d since hopen selected free =>
    -- a published outcome would mean that the run is over, and it is about to register
    have unpublished : h.outcome = none := by
      by_contra ho
      have ended := hs.published ho
      simp [selected] at ended
    refine ⟨?_, by simp [unpublished], by simp⟩
    intro s holds
    obtain rfl := Option.some.inj holds
    exact ⟨rfl, by simp, by simp, by simp [hopen], by simp [unpublished]⟩
  | finish o hopen undone early =>
    refine ⟨?_, fun ho => absurd (hs.published ho) undone, fun hd => absurd hd undone⟩
    intro s holds
    obtain ⟨owner, ha⟩ := hs.own s holds
    exact ⟨owner, admitted (.finish (r := r) o hopen undone early) ha⟩
  | leave s o closed holds =>
    refine ⟨by simp, hs.published, ?_⟩
    intro hd
    have := (hs.done hd).1
    simp [closed] at this
  | publish o closed free =>
    refine ⟨?_, by simp, fun _ => ⟨rfl, free⟩⟩
    intro s holds
    simp [free] at holds

theorem admitted_of_registry_ne (step : HandlerStep r h r' g) (hs : h.Sound) (ne : r' ≠ r) :
    g.Admitted := by
  cases step with
  | rest | select | proceed | finish | publish => exact absurd rfl ne
  | enter d since hopen selected free =>
    have next := sound (.enter (r := r) d since hopen selected free) hs
    exact (next.own _ rfl).2
  | leave s o closed holds => exact admitted (.leave (r := r) s o closed holds) (hs.own s holds).2

end HandlerStep

namespace Party

/-- The entries of the registry are the slots of the handlers. -/
structure Owned (p : Party) : Prop where
  sound : ∀ (i : Nat) (h : Handler), p.handlers[i]? = some h → h.Sound
  ids : ∀ (i j : Nat) (h g : Handler), p.handlers[i]? = some h → p.handlers[j]? = some g →
    h.owner = g.owner → i = j
  keys : (p.registry.entries.map (·.directory)).Nodup
  listed : ∀ i s, p.slotAt i = some s → ∃ e ∈ p.registry.entries, e.slot = s
  held : ∀ e ∈ p.registry.entries, ∃ i, p.slotAt i = some e.slot

theorem slotAt_of_getElem? {p : Party} {i : Nat} {h : Handler} (hi : p.handlers[i]? = some h) :
    p.slotAt i = h.slot := by
  simp [slotAt, hi]

theorem slotAt_set {p : Party} {i : Nat} {h : Handler} (hi : p.handlers[i]? = some h)
    (r : Registry) (g : Handler) (j : Nat) :
    (⟨r, p.handlers.set i g⟩ : Party).slotAt j = if j = i then g.slot else p.slotAt j := by
  have bound := (List.getElem?_eq_some_iff.1 hi).1
  by_cases hj : j = i
  · subst hj
    simp [slotAt, bound]
  · simp [slotAt, hj, Ne.symm hj]

theorem getElem?_set_cases {α : Type} {hs : List α} {i j : Nat} {g x : α}
    (hx : (hs.set i g)[j]? = some x) : j = i ∧ x = g ∨ hs[j]? = some x := by
  by_cases hj : i = j
  · subst hj
    have bound : i < (hs.set i g).length := (List.getElem?_eq_some_iff.1 hx).1
    rw [List.getElem?_set_self (by simpa using bound)] at hx
    exact Or.inl ⟨rfl, (Option.some.inj hx).symm⟩
  · rw [List.getElem?_set_ne hj] at hx
    exact Or.inr hx

namespace Owned

variable {p : Party} {i : Nat} {h : Handler}

theorem slot_owner (o : p.Owned) {s : Slot} (hi : p.handlers[i]? = some h)
    (hs : p.slotAt i = some s) : s.owner = h.owner :=
  ((o.sound i h hi).own s (by rw [← slotAt_of_getElem? hi, hs])).1

theorem getElem?_of_slotAt {p : Party} {j : Nat} {s : Slot} (hs : p.slotAt j = some s) :
    ∃ g, p.handlers[j]? = some g ∧ g.slot = some s := by
  simpa [slotAt, Option.bind_eq_some_iff] using hs

theorem slot_inj (o : p.Owned) {i j : Nat} {s t : Slot} (hs : p.slotAt i = some s)
    (ht : p.slotAt j = some t) (same : s.directory = t.directory) : i = j := by
  obtain ⟨h, hi, -⟩ := getElem?_of_slotAt hs
  obtain ⟨g, hj, -⟩ := getElem?_of_slotAt ht
  obtain ⟨e, he, rfl⟩ := o.listed i s hs
  obtain ⟨f, hf, rfl⟩ := o.listed j t ht
  have eq : e = f := List.inj_on_of_nodup_map o.keys he hf same
  apply o.ids i j h g hi hj
  rw [← o.slot_owner hi hs, ← o.slot_owner hj ht, eq]

theorem set_handlers (o : p.Owned) {r : Registry} {g : Handler} (hi : p.handlers[i]? = some h)
    (step : HandlerStep p.registry h r g) :
    (∀ (j : Nat) (x : Handler), (p.handlers.set i g)[j]? = some x → x.Sound) ∧
    ∀ (j k : Nat) (x y : Handler), (p.handlers.set i g)[j]? = some x → (p.handlers.set i g)[k]? = some y →
      x.owner = y.owner → j = k := by
  have owner := step.owner_eq
  refine ⟨?_, ?_⟩
  · intro j x hx
    rcases getElem?_set_cases hx with ⟨-, rfl⟩ | hx
    · exact step.sound (o.sound i h hi)
    · exact o.sound j x hx
  · intro j k x y hx hy eq
    rcases getElem?_set_cases hx with ⟨hj, xg⟩ | hx
    · rcases getElem?_set_cases hy with ⟨hk, -⟩ | hy
      · rw [hj, hk]
      · rw [hj]
        exact o.ids i k h y hi hy (by rw [← owner, ← xg, eq])
    · rcases getElem?_set_cases hy with ⟨hk, yg⟩ | hy
      · rw [hk]
        exact o.ids j i x h hx hi (by rw [eq, yg, owner])
      · exact o.ids j k x y hx hy eq

theorem quiet (o : p.Owned) {g : Handler} (hi : p.handlers[i]? = some h)
    (step : HandlerStep p.registry h p.registry g) (slot : g.slot = h.slot) :
    (⟨p.registry, p.handlers.set i g⟩ : Party).Owned := by
  obtain ⟨sound, ids⟩ := o.set_handlers hi step
  have slots : ∀ j, (⟨p.registry, p.handlers.set i g⟩ : Party).slotAt j = p.slotAt j := by
    intro j
    rw [slotAt_set hi]
    split
    · rename_i hj
      rw [hj, slot, slotAt_of_getElem? hi]
    · rfl
  refine ⟨sound, ids, o.keys, ?_, ?_⟩
  · intro j s hs
    rw [slots] at hs
    exact o.listed j s hs
  · intro e he
    obtain ⟨j, hj⟩ := o.held e he
    exact ⟨j, by rw [slots, hj]⟩

theorem enter (o : p.Owned) {d : Dir} {since : Instant} (hi : p.handlers[i]? = some h)
    (hopen : h.ending = none) (selected : h.stage = .directorySelected)
    (free : p.registry.contains d = false) :
    (⟨⟨p.registry.entries ++ [⟨h.owner, h.sectionName, d, since⟩]⟩,
      p.handlers.set i { h with slot := some ⟨d, h.owner⟩, stage := .registered }⟩ :
        Party).Owned := by
  have step := HandlerStep.enter (r := p.registry) d since hopen selected free
  obtain ⟨sound, ids⟩ := o.set_handlers hi step
  -- whoever has a slot is past registering
  have none_yet : p.slotAt i = none := by
    rw [slotAt_of_getElem? hi]
    by_contra holds
    obtain ⟨s, hs⟩ := Option.ne_none_iff_exists'.1 holds
    exact ((o.sound i h hi).own s hs).2.entered selected
  have unlisted := Registry.contains_eq_false_iff.1 free
  refine ⟨sound, ids, ?_, ?_, ?_⟩
  · simp only [List.map_append, List.map_cons, List.map_nil]
    refine List.nodup_append.2 ⟨o.keys, by simp, ?_⟩
    intro x hx y hy
    obtain ⟨e, he, rfl⟩ := List.mem_map.1 hx
    rw [List.mem_singleton.1 hy]
    exact unlisted e he
  · intro j s hs
    rw [slotAt_set hi] at hs
    split at hs
    · exact ⟨⟨h.owner, h.sectionName, d, since⟩, by simp, Option.some.inj hs⟩
    · obtain ⟨e, he, eq⟩ := o.listed j s hs
      exact ⟨e, List.mem_append_left _ he, eq⟩
  · intro e he
    rcases List.mem_append.1 he with old | new
    · obtain ⟨j, hj⟩ := o.held e old
      refine ⟨j, ?_⟩
      rw [slotAt_set hi, if_neg, hj]
      rintro rfl
      simp [none_yet] at hj
    · rw [List.mem_singleton.1 new]
      exact ⟨i, by rw [slotAt_set hi, if_pos rfl]; rfl⟩

theorem leave (o : p.Owned) {s : Slot} {out : Outcome} (hi : p.handlers[i]? = some h)
    (closed : h.ending = some out) (holds : h.slot = some s) :
    (⟨p.registry.letGo s, p.handlers.set i { h with slot := none }⟩ : Party).Owned := by
  have step := HandlerStep.leave (r := p.registry) s out closed holds
  obtain ⟨sound, ids⟩ := o.set_handlers hi step
  have mine : p.slotAt i = some s := by rw [slotAt_of_getElem? hi, holds]
  obtain ⟨e, he, rfl⟩ := o.listed i s mine
  have released := Registry.letGo_of_release (Registry.release_of_mem o.keys he)
  have members : ∀ x, x ∈ (p.registry.without e.directory).entries ↔
      x ∈ p.registry.entries ∧ x ≠ e := fun _ => Registry.mem_without o.keys he
  rw [released]
  refine ⟨sound, ids, (List.filter_sublist.map _).nodup o.keys, ?_, ?_⟩
  · intro j t ht
    rw [slotAt_set hi] at ht
    split at ht
    · simp at ht
    · rename_i other
      obtain ⟨f, hf, rfl⟩ := o.listed j t ht
      refine ⟨f, (members f).2 ⟨hf, ?_⟩, rfl⟩
      rintro rfl
      -- the entry taken away is not that of another slot, which has another directory
      exact other (o.slot_inj ht mine rfl)
  · intro f hf
    obtain ⟨old, ne⟩ := (members f).1 hf
    obtain ⟨j, hj⟩ := o.held f old
    refine ⟨j, ?_⟩
    rw [slotAt_set hi, if_neg, hj]
    rintro rfl
    have slot : f.slot = e.slot := Option.some.inj (hj.symm.trans mine)
    have same : f.directory = e.directory := congrArg Slot.directory slot
    exact ne (List.inj_on_of_nodup_map o.keys old he same)

end Owned

/-- Whatever any handler does, the entries stay the slots. -/
theorem owned_step (p : Party) (i : Nat) (e : HandlerEvent) (o : p.Owned) : (p.step i e).Owned := by
  rcases p.step_cases i e with same | ⟨h, r, g, hi, step, eq⟩
  · rw [same]
    exact o
  · rw [eq]
    -- only `enter` and `leave` change entries and slots, and both in the same way
    cases step with
    | rest => exact o.quiet hi .rest rfl
    | select d start => exact o.quiet hi (.select d start) rfl
    | proceed s a b c d e f g => exact o.quiet hi (.proceed s a b c d e f g) rfl
    | enter d since hopen selected free => exact o.enter hi hopen selected free
    | finish out a b c => exact o.quiet hi (.finish out a b c) rfl
    | leave s out closed holds => exact o.leave hi closed holds
    | publish out closed free => exact o.quiet hi (.publish out closed free) rfl

end Party
end Archivist
