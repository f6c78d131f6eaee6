import Archivist.Archive.Handler
set_option autoImplicit false

namespace Archivist

def Registration.slot (e : Registration) : Slot := ⟨e.directory, e.owner⟩

/-- What a step of a handler may do to the registry and to the handler. -/
inductive HandlerStep (r : Registry) (h : Handler) : Registry → Handler → Prop where
  | rest : HandlerStep r h r h
  | select (d : Dir) (start : h.stage = .start) :
      HandlerStep r h r { h with directory := some d, stage := .directorySelected }
  /-- Between registering and the end a run only changes its stage. -/
  | proceed (s : Stage) (hopen : h.ending = none) (before : h.stage ≠ .start)
      (unregistered : h.stage ≠ .directorySelected) (undone : h.stage ≠ .done)
      (after : s ≠ .start) (registered : s ≠ .directorySelected) (unfinished : s ≠ .done) :
      HandlerStep r h r { h with stage := s }
  | enter (d : Dir) (since : Instant) (hopen : h.ending = none)
      (selected : h.stage = .directorySelected) (free : r.contains d = false) :
      HandlerStep r h ⟨r.entries ++ [⟨h.owner, h.sectionName, d, since⟩]⟩
        { h with slot := some ⟨d, h.owner⟩, stage := .registered }
  /-- A duplicate is only met where a run registers. -/
  | finish (o : Outcome) (hopen : h.ending = none) (undone : h.stage ≠ .done)
      (early : ∀ d, o = .duplicate d → h.stage = .directorySelected) :
      HandlerStep r h r { h with ending := some o }
  | leave (s : Slot) (o : Outcome) (closed : h.ending = some o) (holds : h.slot = some s) :
      HandlerStep r h (r.letGo s) { h with slot := none }
  | publish (o : Outcome) (closed : h.ending = some o) (free : h.slot = none) :
      HandlerStep r h r { h with stage := .done, ending := none, outcome := some o }

namespace Handler

theorem register_step (r : Registry) (h : Handler) (d : Dir) (since : Instant)
    (hopen : h.ending = none) (selected : h.stage = .directorySelected) :
    HandlerStep r h (register r h d since).1 (register r h d since).2 := by
  have undone : h.stage ≠ .done := by simp [selected]
  by_cases taken : r.contains d = true
  · simp only [register, Registry.add, taken, if_true]
    exact .finish _ hopen undone fun _ _ => selected
  · have free : r.contains d = false := by simpa using taken
    simp only [register, Registry.add, free, Bool.false_eq_true, if_false]
    exact .enter d since hopen selected free

theorem advance_step (r : Registry) (h : Handler) (e : HandlerEvent)
    (hopen : h.ending = none) (undone : h.stage ≠ .done) :
    HandlerStep r h (h.advance r e).1 (h.advance r e).2 := by
  have fails : ∀ f, HandlerStep r h r (h.endFailed f) :=
    fun f => .finish _ hopen undone fun _ eq => by cases eq
  cases e with
  | selected d =>
    simp only [advance]
    split
    · rename_i start
      exact .select d start
    · exact .rest
  | nothingToDo =>
    simp only [advance]
    split
    · exact .finish _ hopen undone fun _ eq => by cases eq
    · exact .rest
  | register since =>
    simp only [advance]
    split
    · rename_i selected _
      exact register_step r h _ since hopen selected
    · exact .rest
  | noNodes =>
    simp only [advance]
    split
    · exact .finish _ hopen undone fun _ eq => by cases eq
    · exact .rest
  | cleaned report =>
    simp only [advance]
    split
    · exact .finish _ hopen undone fun _ eq => by cases eq
    · exact .rest
  | resolved | submitted | wait | jobsEnded =>
    simp only [advance]
    split
    · rename_i stage
      exact .proceed _ hopen (by simp [stage]) (by simp [stage]) undone
        (by simp) (by simp) (by simp)
    · exact .rest
  | failed e => exact fails (.error e)
  | panicked => exact fails .panicked
  | cancelled => exact fails .cancelled
  | letGo | publish => exact .rest

theorem react_step (r : Registry) (h : Handler) (e : HandlerEvent) :
    HandlerStep r h (h.react r e).1 (h.react r e).2 := by
  unfold react
  split
  · rename_i hopen
    split
    · exact .rest
    · rename_i undone
      exact advance_step r h _ hopen undone
  · rename_i o closed
    split
    · rename_i s holds
      exact .leave s o closed holds
    · exact .rest
  · rename_i o closed
    split
    · exact .rest
    · rename_i free
      exact .publish o closed free
  · exact .rest

end Handler

/-- Some handlers and the registry that they share. -/
structure Party where
  registry : Registry := {}
  handlers : List Handler

namespace Party

def step (p : Party) (i : Nat) (e : HandlerEvent) : Party :=
  match p.handlers[i]? with
  | none => p
  | some h => ⟨(h.react p.registry e).1, p.handlers.set i (h.react p.registry e).2⟩

def run (p : Party) (es : List (Nat × HandlerEvent)) : Party :=
  es.foldl (fun p e => p.step e.1 e.2) p

def slotAt (p : Party) (i : Nat) : Option Slot := (p.handlers[i]?).bind (·.slot)

@[simp] theorem run_cons (p : Party) (e : Nat × HandlerEvent) (es : List (Nat × HandlerEvent)) :
    p.run (e :: es) = (p.step e.1 e.2).run es := rfl

theorem run_append (p : Party) (es fs : List (Nat × HandlerEvent)) :
    p.run (es ++ fs) = (p.run es).run fs := by
  simp [run]

theorem step_cases (p : Party) (i : Nat) (e : HandlerEvent) :
    p.step i e = p ∨ ∃ h r g, p.handlers[i]? = some h ∧ HandlerStep p.registry h r g ∧
      p.step i e = ⟨r, p.handlers.set i g⟩ := by
  cases hi : p.handlers[i]? with
  | none => exact Or.inl (by simp [step, hi])
  | some h =>
    exact Or.inr ⟨h, _, _, rfl, h.react_step p.registry e, by simp [step, hi]⟩

/-- What every step keeps, every run keeps. -/
theorem run_invariant (I : Party → Prop) (keep : ∀ p i e, I p → I (p.step i e)) (p : Party)
    (es : List (Nat × HandlerEvent)) (hp : I p) : I (p.run es) := by
  induction es generalizing p with
  | nil => exact hp
  | cons e es ih => exact ih _ (keep p e.1 e.2 hp)

end Party
end Archivist
