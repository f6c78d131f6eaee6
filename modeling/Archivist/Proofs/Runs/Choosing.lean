import Archivist.Proofs.Runs.Exclusion
import Archivist.Proofs.Runs.Seeking
set_option autoImplicit false

namespace Archivist

namespace Handler

structure Within (s : Section) (h : Handler) : Prop where
  directory : ∀ d, h.directory = some d → s.Offers d
  slot : ∀ t, h.slot = some t → s.Offers t.directory

variable {s : Section} {h : Handler}

theorem Within.register (within : h.Within s) (r : Registry) {d : Dir} (offered : s.Offers d)
    (since : Instant) : (register r h d since).2.Within s := by
  unfold Handler.register Registry.add
  split
  · rename_i added
    split at added
    · cases added
    · cases added
      refine ⟨within.directory, ?_⟩
      intro t holds
      cases holds
      exact offered
  · exact ⟨within.directory, within.slot⟩
  · exact ⟨within.directory, within.slot⟩

theorem Within.advance (within : h.Within s) (r : Registry) {e : HandlerEvent}
    (offered : ∀ d, e = .selected d → s.Offers d) : (h.advance r e).2.Within s := by
  cases e with
  | selected d =>
    simp only [Handler.advance]
    split
    · refine ⟨?_, within.slot⟩
      intro d' eq
      cases eq
      exact offered d rfl
    · exact within
  | register since =>
    simp only [Handler.advance]
    split
    · rename_i chosen
      exact within.register r (within.directory _ chosen) since
    · exact within
  | nothingToDo | noNodes | resolved | submitted | wait | jobsEnded | cleaned report =>
    simp only [Handler.advance]
    split
    · exact ⟨within.directory, within.slot⟩
    · exact within
  | failed e => exact ⟨within.directory, within.slot⟩
  | panicked | cancelled => exact ⟨within.directory, within.slot⟩
  | letGo | publish => exact within

theorem Within.react (within : h.Within s) (r : Registry) {e : HandlerEvent}
    (offered : ∀ d, e = .selected d → s.Offers d) : (h.react r e).2.Within s := by
  unfold Handler.react
  split
  · split
    · exact within
    · exact within.advance r offered
  · split
    · exact ⟨within.directory, fun t holds => by cases holds⟩
    · exact within
  · split
    · exact within
    · exact ⟨within.directory, within.slot⟩
  · exact within

end Handler

def HandlerEvent.endsSearch : HandlerEvent → Bool
  | .selected _ | .nothingToDo => true
  | _ => false

/-- Sections with a handler for each, and how far each has come in its search. -/
structure Choosing where
  sections : List Section
  party : Party
  quests : List Quest

namespace Choosing

inductive Move where
  /-- The policy puts its next question to the world, of which the others may have changed
  anything; the registry is the one that the handlers share. -/
  | ask (w : World)
  /-- The run goes on, whether it ends well or not. -/
  | go (e : HandlerEvent)

def start (sections : List Section) : Choosing where
  sections := sections
  party := Party.start (sections.mapIdx fun i s => { owner := .run i, sectionName := s.name })
  quests := sections.map fun _ => .unasked

def told (p : Party) (i : Nat) : Option HandlerEvent → Party
  | some e => p.step i e
  | none => p

def ask (c : Choosing) (i : Nat) (w : World) : Choosing :=
  match c.sections[i]?, c.quests[i]? with
  | some s, some q =>
    let answer := q.step { section_ := s } { w with registry := c.party.registry }
    { c with party := told c.party i answer.2, quests := c.quests.set i answer.1 }
  | _, _ => c

def step (c : Choosing) (i : Nat) : Move → Choosing
  | .ask w => c.ask i w
  | .go e => if e.endsSearch then c else { c with party := c.party.step i e }

def run (c : Choosing) (ms : List (Nat × Move)) : Choosing :=
  ms.foldl (fun c m => c.step m.1 m.2) c

theorem run_append (c : Choosing) (ms ns : List (Nat × Move)) :
    c.run (ms ++ ns) = (c.run ms).run ns :=
  List.foldl_append

/-- What holds while handlers choose and work: everybody keeps to his section. -/
structure Sound (c : Choosing) : Prop where
  owned : c.party.Owned
  manned : c.party.handlers.length = c.sections.length
  within : ∀ (i : Nat) (h : Handler) (s : Section), c.party.handlers[i]? = some h →
    c.sections[i]? = some s → h.Within s
  asked : ∀ (i : Nat) (q : Quest) (s : Section), c.quests[i]? = some q →
    c.sections[i]? = some s → q.Within s

theorem sound_start (sections : List Section) : (start sections).Sound := by
  have fresh : ∀ h ∈ (start sections).party.handlers, h.IsFresh ∧ h.directory = none := by
    intro h hh
    obtain ⟨i, bound, rfl⟩ := List.mem_mapIdx.1 hh
    exact ⟨⟨rfl, rfl, rfl, rfl⟩, rfl⟩
  refine ⟨Party.start_owned (fun h hh => (fresh h hh).1) ?_, List.length_mapIdx, ?_, ?_⟩
  · rw [List.nodup_iff_injective_getElem]
    intro a b eq
    exact Fin.ext (by simpa [start, Party.start] using eq)
  · intro i h s hi _
    obtain ⟨idle, hnone⟩ := fresh h (List.mem_of_getElem? hi)
    refine ⟨fun d eq => ?_, fun t eq => ?_⟩
    · rw [hnone] at eq
      cases eq
    · rw [idle.slot] at eq
      cases eq
  · intro i q s hq _
    obtain ⟨x, -, rfl⟩ := List.mem_map.1 (List.mem_of_getElem? hq)
    trivial

theorem Sound.tell {c : Choosing} (sound : c.Sound) {i : Nat} {e : HandlerEvent}
    (offered : ∀ s d, c.sections[i]? = some s → e = .selected d → s.Offers d) :
    Sound { c with party := c.party.step i e } := by
  refine ⟨Party.owned_step _ _ _ sound.owned, ?_, ?_, sound.asked⟩
  · dsimp only [Party.step]
    split
    · exact sound.manned
    · rw [List.length_set]
      exact sound.manned
  · intro j h s hj hs
    dsimp only at hj hs
    unfold Party.step at hj
    split at hj
    · exact sound.within j h s hj hs
    · rename_i g hg
      rcases Party.getElem?_set_cases hj with ⟨rfl, rfl⟩ | old
      · exact (sound.within j g s hg hs).react _ fun d eq => offered s d hs eq
      · exact sound.within j h s old hs

theorem Sound.ask {c : Choosing} (sound : c.Sound) (i : Nat) (w : World) : (c.ask i w).Sound := by
  unfold Choosing.ask
  split
  · rename_i s q hs hq
    obtain ⟨within, selected⟩ := Quest.Within.step (p := { section_ := s })
      (sound.asked i q s hq hs) { w with registry := c.party.registry }
    dsimp only
    generalize q.step { section_ := s } { w with registry := c.party.registry } = answer
      at within selected ⊢
    have party : Sound { c with party := told c.party i answer.2 } := by
      cases ends : answer.2 with
      | none => exact sound
      | some e =>
        refine sound.tell fun s' d hs' eq => ?_
        obtain rfl : s = s' := Option.some.inj (hs.symm.trans hs')
        exact selected d (by rw [ends, eq])
    refine ⟨party.owned, party.manned, party.within, ?_⟩
    intro j q' s' hq' hs'
    rcases Party.getElem?_set_cases hq' with ⟨rfl, rfl⟩ | old
    · obtain rfl : s = s' := Option.some.inj (hs.symm.trans hs')
      exact within
    · exact sound.asked j q' s' old hs'
  · exact sound

theorem Sound.step {c : Choosing} (sound : c.Sound) (i : Nat) (m : Move) : (c.step i m).Sound := by
  cases m with
  | ask w => exact sound.ask i w
  | go e =>
    rw [Choosing.step]
    split
    · exact sound
    · rename_i other
      refine sound.tell fun s d _ eq => ?_
      rw [eq] at other
      exact absurd rfl other

theorem sections_step (c : Choosing) (i : Nat) (m : Move) : (c.step i m).sections = c.sections := by
  cases m with
  | ask w =>
    rw [step, ask]
    split <;> rfl
  | go e =>
    rw [step]
    split <;> rfl

theorem sound_run {c : Choosing} (sound : c.Sound) (ms : List (Nat × Move)) : (c.run ms).Sound := by
  induction ms generalizing c with
  | nil => exact sound
  | cons m ms ih => exact ih (sound.step m.1 m.2)

theorem sections_run (c : Choosing) (ms : List (Nat × Move)) : (c.run ms).sections = c.sections := by
  induction ms generalizing c with
  | nil => rfl
  | cons m ms ih => exact (ih (c.step m.1 m.2)).trans (sections_step c m.1 m.2)

/-- A handler works for its section on a directory that it has registered. -/
def WorksOn (c : Choosing) (i : Nat) (s : Section) (d : Dir) : Prop :=
  c.sections[i]? = some s ∧ ∃ t, c.party.slotAt i = some t ∧ t.directory = d

variable {c : Choosing} {i j : Nat} {s t : Section} {d e : Dir}

theorem Sound.offers (sound : c.Sound) (works : c.WorksOn i s d) : s.Offers d := by
  obtain ⟨hs, slot, held, rfl⟩ := works
  obtain ⟨h, hi, holds⟩ := Party.Owned.getElem?_of_slotAt held
  exact (sound.within i h s hi hs).slot slot holds

theorem Sound.exists_worksOn (sound : c.Sound) {x : Registration}
    (hx : x ∈ c.party.registry.entries) : ∃ i s, c.WorksOn i s x.directory := by
  obtain ⟨i, held⟩ := sound.owned.held x hx
  obtain ⟨h, hi, -⟩ := Party.Owned.getElem?_of_slotAt held
  have bound : i < c.sections.length := by
    rw [← sound.manned]
    exact (List.getElem?_eq_some_iff.1 hi).1
  exact ⟨i, c.sections[i], List.getElem?_eq_getElem bound, _, held, rfl⟩

/-- Two handlers work on nested directories only if the outer one contains the section of the
inner one. -/
theorem Sound.contains_section (sound : c.Sound) (outer : c.WorksOn i s d)
    (inner : c.WorksOn j t e) (ne : i ≠ j) (nested : d.contains e = true) :
    s.Offers d ∧ d.contains t.path = true := by
  refine ⟨sound.offers outer, ?_⟩
  refine Dir.contains_parent_of_ne nested ?_ (sound.offers inner).1
  rintro rfl
  obtain ⟨-, a, ha, same⟩ := outer
  obtain ⟨-, b, hb, same'⟩ := inner
  exact ne (sound.owned.slot_inj ha hb (same.trans same'.symm))

end Choosing
end Archivist
