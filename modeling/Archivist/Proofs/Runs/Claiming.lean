import Archivist.Proofs.Placement.Holders
import Archivist.Proofs.Runs.Choosing
set_option autoImplicit false

namespace Archivist

namespace Policy

variable {p : Policy} {w : World} {d : Dir}

theorem isArchived_of_no_nodes {f : FileEntry} (wf : w.namespace_.WellFormed)
    (stored : w.namespace_.Stored d f) (nobody : w.fleet = {}) (copies : 0 < p.section_.copies) :
    p.isArchived w d = .ok false := by
  have listed : p.files w.namespace_ d = .ok (w.namespace_.collect p.section_.deep
      (w.namespace_.dirs.length + 1) d) := if_pos stored.exists
  have inScope : w.namespace_.InScope d p.section_.deep f := by
    refine ⟨d, stored, ?_⟩
    split
    · exact Dir.contains_self d
    · rfl
  have ne := List.ne_nil_of_mem ((Namespace.mem_files wf listed f).2 inScope)
  have hnone : p.eligible w = [] := by
    rw [eligible, nobody]
    rfl
  have holders : Destination.completeHolders (p.eligible w) (w.namespace_.collect p.section_.deep
      (w.namespace_.dirs.length + 1) d) = [] := by
    rw [hnone, List.eq_nil_iff_forall_not_mem]
    intro m hm
    have distinct : (([] : List Member).map (·.node.name)).Nodup := List.nodup_nil
    have here := ((Destination.mem_completeHolders distinct ne).1 hm).1
    cases here
  rw [isArchived_eq listed ne, holders, List.length_nil, decide_eq_false (Nat.not_le.2 copies)]

theorem isCandidate_of {now created : Instant} (offered : p.section_.Offers d)
    (free : w.registry.isArchiving d = false)
    (old : (p.section_.minAge : Int) * Instant.second ≤ max 0 (now - created)) :
    p.isCandidate w now created d = true := by
  rw [isCandidate, offered.2, free, decide_eq_true old]
  rfl

theorem select_of_only_child {created : Instant} (choosing : p.directory = none)
    (listed : w.namespace_.subdirectories p.section_.path = .ok [d])
    (age : w.namespace_.createdAt d = .ok created)
    (candidate : p.isCandidate w w.clock.now created d = true)
    (todo : p.isArchived w d = .ok false) : (Handler.select p w).2 = .selected d := by
  have dated : Quest.Dated w (fun _ => created) [d] := by
    intro d' hd
    rw [List.mem_singleton.1 hd]
    exact age
  have found : p.candidates w w.clock.now = .ok [d] := by
    rw [Quest.candidates_of_dated listed dated]
    simp [candidate]
  have next : p.next w w.clock.now = .ok (some d) := by
    unfold Policy.next
    rw [found]
    change next.firstOpen p w [d] = _
    rw [next.firstOpen, todo]
    rfl
  unfold Handler.select
  rw [choosing, next]

end Policy

namespace Choosing

variable {c : Choosing} {i : Nat} {s : Section} {w : World}

theorem exists_run_of_answers {q : Quest} {e : HandlerEvent} (hs : c.sections[i]? = some s)
    (hq : c.quests[i]? = some q)
    (answers : Quest.Answers { section_ := s } { w with registry := c.party.registry } q e) :
    ∃ k, c.run (List.replicate k (i, .ask w)) =
      { c with party := c.party.step i e, quests := c.quests.set i .ended } := by
  generalize seen : ({ w with registry := c.party.registry } : World) = w' at answers
  induction answers generalizing c with
  | last done =>
    refine ⟨1, ?_⟩
    change c.ask i w = _
    rw [ask, hs, hq]
    dsimp only
    rw [seen, done]
    rfl
  | @more q q' e next _ ih =>
    have step : c.ask i w = { c with quests := c.quests.set i q' } := by
      rw [ask, hs, hq]
      dsimp only
      rw [seen, next]
      rfl
    have bound := (List.getElem?_eq_some_iff.1 hq).1
    obtain ⟨k, rest⟩ := ih (c := { c with quests := c.quests.set i q' }) hs
      (List.getElem?_set_self bound) seen
    refine ⟨k + 1, ?_⟩
    rw [List.replicate_succ]
    change (c.ask i w).run _ = _
    rw [step, rest]
    dsimp only
    rw [List.set_set]

end Choosing

theorem Handler.react_register {r : Registry} {h : Handler} {d : Dir} (hopen : h.ending = none)
    (selected : h.stage = .directorySelected) (chosen : h.directory = some d)
    (free : r.contains d = false) (since : Instant) : h.react r (.register since) =
      (⟨r.entries ++ [⟨h.owner, h.sectionName, d, since⟩]⟩,
        { h with slot := some ⟨d, h.owner⟩, stage := .registered }) := by
  rw [react_of_open hopen (by simp [selected]), advance, selected, chosen]
  dsimp only
  rw [register, Registry.add, if_neg (by simp [free])]
  dsimp only
  rw [chosen]

theorem Party.claim_eq {p : Party} {i : Nat} {h : Handler} {d : Dir}
    (hi : p.handlers[i]? = some h) (fresh : h.IsFresh) (free : p.registry.contains d = false)
    (since : Instant) : (p.step i (.selected d)).step i (.register since) =
      ⟨⟨p.registry.entries ++ [⟨h.owner, h.sectionName, d, since⟩]⟩,
        p.handlers.set i { h with
          directory := some d, slot := some ⟨d, h.owner⟩, stage := .registered }⟩ := by
  have bound := (List.getElem?_eq_some_iff.1 hi).1
  let chosen : Handler := { h with directory := some d, stage := .directorySelected }
  have first : p.step i (.selected d) = ⟨p.registry, p.handlers.set i chosen⟩ := by
    rw [Party.step, hi]
    dsimp only
    rw [Handler.react_of_open fresh.ending (by rw [fresh.stage]; simp), Handler.advance,
      if_pos fresh.stage]
  have second := Handler.react_register (h := chosen) fresh.ending rfl rfl free since
  rw [first, Party.step, List.getElem?_set_self bound]
  dsimp only
  rw [second, List.set_set]

namespace Choosing

variable {c : Choosing} {i : Nat} {s : Section} {h : Handler} {w : World} {d : Dir}

structure Spares (i : Nat) (c c' : Choosing) : Prop where
  sections : c'.sections = c.sections
  handlers : ∀ j, j ≠ i → c'.party.handlers[j]? = c.party.handlers[j]?
  quests : ∀ j, j ≠ i → c'.quests[j]? = c.quests[j]?

/-- A handler that has not begun finds its directory in a world that stands still, and registers
it. -/
theorem exists_claim (hs : c.sections[i]? = some s) (hq : c.quests[i]? = some .unasked)
    (hi : c.party.handlers[i]? = some h) (fresh : h.IsFresh)
    (found : (Handler.select { section_ := s } { w with registry := c.party.registry }).2 =
      .selected d) (free : c.party.registry.contains d = false) :
    ∃ ms, (∀ m ∈ ms, ∀ w', m.2 = .ask w' → w' = w) ∧ Spares i c (c.run ms) ∧
      (c.run ms).party.registry.entries =
        c.party.registry.entries ++ [⟨h.owner, h.sectionName, d, 0⟩] ∧
      (c.run ms).WorksOn i s d := by
  have answers := Quest.answers_select (p := { section_ := s }) rfl
    { w with registry := c.party.registry }
  rw [found] at answers
  obtain ⟨k, asked⟩ := exists_run_of_answers hs hq answers
  have claimed := Party.claim_eq hi fresh free 0
  have ran : c.run (List.replicate k (i, .ask w) ++ [(i, .go (.register 0))]) =
      { c with
        party := (c.party.step i (.selected d)).step i (.register 0)
        quests := c.quests.set i .ended } := by
    rw [run_append, asked]
    rfl
  have bound := (List.getElem?_eq_some_iff.1 hi).1
  refine ⟨List.replicate k (i, .ask w) ++ [(i, .go (.register 0))], ?_, ?_, ?_, ?_⟩
  · intro m hm w' eq
    rcases List.mem_append.1 hm with asks | registers
    · rw [List.eq_of_mem_replicate asks] at eq
      cases eq
      rfl
    · rw [List.mem_singleton.1 registers] at eq
      cases eq
  · rw [ran, claimed]
    refine ⟨rfl, fun j ne => ?_, fun j ne => ?_⟩
    · exact List.getElem?_set_ne ne.symm
    · exact List.getElem?_set_ne ne.symm
  · rw [ran, claimed]
  · rw [ran, claimed]
    refine ⟨hs, ⟨d, h.owner⟩, ?_, rfl⟩
    rw [Party.slotAt, List.getElem?_set_self bound]
    rfl

theorem WorksOn.spared {c' : Choosing} {j : Nat} (works : c.WorksOn i s d) (spared : Spares j c c')
    (other : i ≠ j) : c'.WorksOn i s d := by
  obtain ⟨hs, t, held, hget⟩ := works
  refine ⟨by rw [spared.sections]; exact hs, t, ?_, hget⟩
  rw [Party.slotAt, spared.handlers i other]
  exact held

theorem start_at {sections : List Section} {i : Nat} (hs : sections[i]? = some s) :
    (start sections).quests[i]? = some .unasked ∧
      ∃ h, (start sections).party.handlers[i]? = some h ∧ h.IsFresh := by
  refine ⟨?_, { owner := .run i, sectionName := s.name }, ?_, ⟨rfl, rfl, rfl, rfl⟩⟩
  · rw [start, List.getElem?_map, hs]
    rfl
  · rw [start, Party.start, List.getElem?_mapIdx, hs]
    rfl

end Choosing

end Archivist
