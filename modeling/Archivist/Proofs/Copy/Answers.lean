import Archivist.Control.Conversation
import Archivist.Proofs.Lookup
set_option autoImplicit false

namespace Archivist

namespace Client

open Lookup

variable {c : Client} {id : UInt64}

theorem lookup_park (new : c.parked.lookup id = none) {other : UInt64} (ne : other ≠ id)
    (r : Response) : (c.park other r).parked.lookup id = none := by
  change ((other, r) :: c.parked.filter (·.1 ≠ other)).lookup id = none
  rw [lookup_cons_if, if_neg ne.symm, lookup_filter_ne, if_neg ne.symm, new]

theorem await_cases (new : c.parked.lookup id = none) (arriving : Arrivals) :
    (∀ r, (await id c arriving).2.1 = some (.ok r) → .ok ⟨id, r⟩ ∈ arriving) ∧
      ((await id c arriving).2.1 = none →
        (await id c arriving).1.parked.lookup id = none ∧ (await id c arriving).2.2 = []) := by
  induction arriving generalizing c with
  | nil =>
    refine ⟨?_, fun _ => ⟨new, rfl⟩⟩
    intro r found
    cases found
  | cons a rest ih =>
    cases a with
    | ok f =>
      by_cases mine : f.id = id
      · have stop : await id c (.ok f :: rest) = (c, some (.ok f.response), rest) := by
          rw [await, if_pos mine]
        rw [stop]
        refine ⟨?_, fun h => by cases h⟩
        intro r found
        have same : f.response = r := by injection Option.some.inj found
        rw [← mine, ← same]
        exact List.mem_cons_self
      · have on : await id c (.ok f :: rest) = await id (c.park f.id f.response) rest := by
          rw [await, if_neg mine]
        rw [on]
        obtain ⟨found, missing⟩ := ih (lookup_park new mine f.response)
        exact ⟨fun r h => List.mem_cons_of_mem _ (found r h), missing⟩
    | error e =>
      have stop : ∃ e', await id c (.error e :: rest) = (c, some (.error e'), rest) := by
        cases e with
        | io _ => exact ⟨_, rfl⟩
        | _ => exact ⟨_, rfl⟩
      obtain ⟨e', eq⟩ := stop
      rw [eq]
      refine ⟨?_, fun h => by cases h⟩
      intro r found
      injection Option.some.inj found

theorem reply_eq_await (new : c.parked.lookup id = none) (arriving : Arrivals) :
    c.reply id arriving = await id c arriving := by
  rw [reply, new]

theorem conclude_eq_ok {r : Response} {status : TransferStatus} (h : c.conclude r = .ok status) :
    r = .status status := by
  unfold conclude at h
  split at h
  · rw [Except.ok.inj h]
  · cases h
  · cases h
  · cases h

end Client

namespace Conversation

variable {σ : Type} {p : Peer σ} {c c' : Conversation σ} {id : UInt64}

theorem begin_eq_ok {request : Request} (h : c.begin p request = (c', .ok id)) :
    id = c.client.nextId ∧ ∃ bytes,
      Wire.frame (Wire.putRequestFrame ⟨id, request⟩) = .ok bytes ∧
      c' = ⟨{ c.client with nextId := id + 1 }, (p.hear c.peer bytes).1,
        c.arriving ++ (p.hear c.peer bytes).2.map .ok⟩ := by
  unfold begin Client.send at h
  dsimp only at h
  cases framed : Wire.frame (Wire.putRequestFrame ⟨c.client.nextId, request⟩) with
  | error e =>
    rw [framed] at h
    cases h
  | ok bytes =>
    rw [framed] at h
    dsimp only at h
    split at h
    · cases h
      exact ⟨rfl, bytes, framed, rfl⟩
    · cases h

theorem await_eq_ok {r : Response} (new : c.client.parked.lookup id = none)
    (h : c.await p id = (c', some (.ok r))) :
    (.ok ⟨id, r⟩ ∈ c.arriving ∧ c'.peer = c.peer) ∨
      (p.speaks c.peer = true ∧ ⟨id, r⟩ ∈ (p.goOn c.peer).2 ∧
        c'.peer = (p.goOn c.peer).1) := by
  obtain ⟨found, missing⟩ := Client.await_cases new c.arriving
  unfold await at h
  rw [Client.reply_eq_await new] at h
  cases first : Client.await id c.client c.arriving with
  | mk client rest =>
    obtain ⟨answer, arriving⟩ := rest
    rw [first] at h found missing
    cases answer with
    | some a =>
      cases h
      exact .inl ⟨found r rfl, rfl⟩
    -- nothing has come so far, so the answer is among what the peer says when it goes on
    | none =>
      obtain ⟨still, empty⟩ := missing rfl
      dsimp only at still empty h
      split at h
      · rename_i speaks
        rw [empty, List.nil_append, Client.reply_eq_await still] at h
        obtain ⟨later, -⟩ := Client.await_cases still ((p.goOn c.peer).2.map .ok)
        right
        refine ⟨speaks, ?_⟩
        cases second : Client.await id client ((p.goOn c.peer).2.map .ok) with
        | mk client' rest' =>
          obtain ⟨answer', arriving'⟩ := rest'
          rw [second] at h later
          cases answer' with
          | some a =>
            cases h
            obtain ⟨f, mem, eq⟩ := List.mem_map.1 (later r rfl)
            rw [← Except.ok.inj eq]
            exact ⟨mem, rfl⟩
          | none =>
            dsimp only at h
            split at h
            · cases h
            · cases h
      · cases h

theorem finish_eq_ok {status : TransferStatus} (h : c.finish p id = (c', some (.ok status))) :
    c.await p id = (c', some (.ok (.status status))) := by
  unfold finish at h
  split at h
  · cases h
  · cases h
  · rename_i c₁ r answered
    have ended := Prod.mk.inj h
    rw [answered, ended.1, Client.conclude_eq_ok (Option.some.inj ended.2)]

end Conversation
end Archivist
