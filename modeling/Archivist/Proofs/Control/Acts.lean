import Archivist.Proofs.Control.Exits
set_option autoImplicit false

namespace Archivist

variable {σ ε : Type}

namespace Station

/-- What can happen at a session: a move of the node, or something befalls its transfer. -/
inductive Act (ε : Type) where
  | read
  | pass
  | take
  | close
  | poll
  | expire
  | befalls (event : ε)

def Act.move (w : Worker σ) (occurs : σ → ε → σ) : Act ε → Move σ
  | .read => .read
  | .pass => .pass
  | .take => .take
  | .close => .close
  | .poll => .settle w.poll
  | .expire => .settle w.expire
  | .befalls event => .work (occurs · event)

def act (w : Worker σ) (occurs : σ → ε → σ) (s : Station σ) (acts : List (Act ε)) : Station σ :=
  s.run w (acts.map (Act.move w occurs))

/-- What every single thing that can be done to a worker keeps is kept by a session. -/
structure Kept (w : Worker σ) (occurs : σ → ε → σ) (Inv : σ → Prop) : Prop where
  start : ∀ s request, Inv s → Inv (w.start s request)
  abort : ∀ s reason, Inv s → Inv (w.abort s reason)
  occurs : ∀ s event, Inv s → Inv (occurs s event)
  poll : ∀ s, Inv s → Inv (w.poll s).2
  expire : ∀ s, Inv s → Inv (w.expire s).2

variable {w : Worker σ} {occurs : σ → ε → σ} {Inv : σ → Prop}

theorem Kept.obey (kept : Kept w occurs Inv) {s : σ} (h : Inv s) (order : Option WorkerOrder) :
    Inv (Server.obey w s order) := by
  rcases order with _ | request | reason
  · exact h
  · exact kept.start s request h
  · exact kept.abort s reason h

theorem settle_of_looked {s : Server σ} (h : Inv s.worker)
    {look : σ → Option (Except TransferError TransferStatus) × σ}
    (looked : Inv (look s.worker).2) : Inv (s.settle w look).1.worker := by
  rcases Server.settle_worker w s look with same | after
  · rwa [same]
  · rwa [after]

theorem Kept.step (kept : Kept w occurs Inv) {s : Station σ} (h : Inv s.server.worker)
    (a : Act ε) : Inv (s.step w (a.move w occurs)).server.worker := by
  unfold Station.step
  split
  · exact h
  · cases a with
    | read =>
      change Inv s.read.server.worker
      rw [read_eq]
      exact h
    | pass =>
      change Inv s.pass.server.worker
      rw [pass_eq]
      exact h
    | take =>
      change Inv (s.take w).server.worker
      unfold Station.take
      split
      · exact h
      · dsimp only
        rw [Server.handle_worker]
        exact kept.obey h _
    | close =>
      change Inv (s.close w).server.worker
      unfold Station.close
      split
      · dsimp only
        unfold Server.hangUp
        split
        · exact h
        · dsimp only
          rw [Server.handle_worker]
          exact kept.obey h _
      · exact h
    | poll => exact settle_of_looked h (kept.poll _ h)
    | expire => exact settle_of_looked h (kept.expire _ h)
    | befalls event => exact kept.occurs _ event h

theorem Kept.act (kept : Kept w occurs Inv) {s : Station σ} (h : Inv s.server.worker)
    (acts : List (Act ε)) : Inv (s.act w occurs acts).server.worker := by
  induction acts generalizing s with
  | nil => exact h
  | cons a acts ih => exact ih (kept.step h a)

end Station
end Archivist
