import Archivist.Archive.Job
import Mathlib.Data.List.Infix
set_option autoImplicit false

namespace Archivist

/-- What can be done to a job. -/
inductive Mark where
  | transferring
  | done (s : TransferStatus)
  | failed (f : JobFailure)

def Mark.on : Mark → Job → Job
  | transferring, j => j.markTransferring.1
  | done s, j => (j.markDone s).1
  | failed f, j => (j.markFailed f).1

namespace Mark

/-- What the job answers: whether it takes what it is told. -/
def isTaken : Mark → Job → Bool
  | transferring, j => j.markTransferring.2
  | done s, j => (j.markDone s).2
  | failed f, j => (j.markFailed f).2

def ends : Mark → Bool
  | transferring => false
  | done _ | failed _ => true

def status : Mark → JobStatus
  | transferring => .transferring
  | done _ => .done
  | failed f => .failed f

def copy? : Mark → Option TransferStatus
  | done s => some s
  | transferring | failed _ => none

theorem isTerminal_status (m : Mark) : m.status.isTerminal = m.ends := by cases m <;> rfl

theorem eq_done_of_copy? {m : Mark} {s : TransferStatus} (h : m.copy? = some s) : m = done s := by
  cases m with
  | done t => rw [← Option.some.inj h]
  | _ => cases h

theorem on_eq (m : Mark) (j : Job) : m.on j =
    { j with
      status := if j.status.isTerminal then j.status else m.status
      transfer := m.copy?.or j.transfer } := by
  cases m <;>
    · simp only [on, Job.markTransferring, Job.markDone, Job.markFailed, Job.transition]
      split <;> rfl

theorem isDone_on {j : Job} (closed : j.isDone = true) (m : Mark) : (m.on j).isDone = true := by
  have ended : j.status.isTerminal = true := closed
  rw [m.on_eq, Job.isDone, if_pos ended]
  exact ended

theorem isTaken_eq (m : Mark) (j : Job) : m.isTaken j = !j.status.isTerminal := by
  cases m <;>
    · simp only [isTaken, Job.markTransferring, Job.markDone, Job.markFailed, Job.transition]
      cases j.status.isTerminal <;> rfl

end Mark

namespace Job

def after (j : Job) (ms : List Mark) : Job := ms.foldl (fun j m => m.on j) j

variable {j : Job} {ms : List Mark}

theorem after_append (j : Job) (ms more : List Mark) :
    j.after (ms ++ more) = (j.after ms).after more := List.foldl_append

theorem status_on (j : Job) (m : Mark) :
    (m.on j).status = if j.status.isTerminal then j.status else m.status := by rw [m.on_eq]

theorem status_after_of_terminal (ended : j.status.isTerminal = true) (ms : List Mark) :
    (j.after ms).status = j.status := by
  induction ms generalizing j with
  | nil => rfl
  | cons m ms ih =>
    have stays : (m.on j).status = j.status := by rw [status_on, if_pos ended]
    exact (ih (by rw [stays]; exact ended)).trans stays

theorem status_after (stands : j.status.isTerminal = false) (ms : List Mark) :
    match ms.find? Mark.ends with
    | some m => (j.after ms).status = m.status
    | none => (j.after ms).status.isTerminal = false := by
  induction ms generalizing j with
  | nil => exact stands
  | cons m ms ih =>
    have told : (m.on j).status = m.status := by rw [status_on, stands]; rfl
    rw [List.find?_cons]
    cases ends : m.ends with
    | true =>
      have ended : (m.on j).status.isTerminal = true := by rw [told, m.isTerminal_status, ends]
      exact (status_after_of_terminal ended ms).trans told
    | false => exact ih (by rw [told, m.isTerminal_status, ends])

theorem isTerminal_after (stands : j.status.isTerminal = false) (ms : List Mark) :
    (j.after ms).status.isTerminal = ms.any Mark.ends := by
  have told := status_after stands ms
  cases found : ms.find? Mark.ends with
  | none =>
    rw [found] at told
    rw [told, List.any_eq_false.2 (List.find?_eq_none.1 found)]
  | some m =>
    rw [found] at told
    have ends := List.find?_some found
    rw [told, m.isTerminal_status, ends,
      List.any_eq_true.2 ⟨m, List.mem_of_find?_eq_some found, ends⟩]

theorem transfer_after (j : Job) (ms : List Mark) :
    (j.after ms).transfer = (ms.filterMap Mark.copy?).getLast?.or j.transfer := by
  induction ms generalizing j with
  | nil => rfl
  | cons m ms ih =>
    have next : (j.after (m :: ms)) = (m.on j).after ms := rfl
    rw [next, ih, m.on_eq]
    dsimp only
    cases told : m.copy? with
    | none => rw [List.filterMap_cons_none told, Option.none_or]
    | some s =>
      rw [List.filterMap_cons_some told, List.getLast?_cons]
      cases (ms.filterMap Mark.copy?).getLast? <;> rfl

theorem mem_filterMap_copy? {s : TransferStatus} : s ∈ ms.filterMap Mark.copy? ↔ .done s ∈ ms := by
  rw [List.mem_filterMap]
  constructor
  · rintro ⟨m, hm, told⟩
    rw [← Mark.eq_done_of_copy? told]
    exact hm
  · exact fun hm => ⟨_, hm, rfl⟩

/-- If only the copy is told that ended the job, the statistics are its at any time. -/
theorem transfer_after_iff (blank : j.transfer = none)
    (one : ∀ s, .done s ∈ ms → ms.find? Mark.ends = some (.done s)) {before : List Mark}
    (front : before <+: ms) (s : TransferStatus) :
    (j.after before).transfer = some s ↔ before.find? Mark.ends = some (.done s) := by
  rw [transfer_after, blank, Option.or_none]
  constructor
  · intro last
    have told : .done s ∈ before := mem_filterMap_copy?.1 (List.mem_of_getLast? last)
    cases found : before.find? Mark.ends with
    | none => exact absurd rfl (List.find?_eq_none.1 found _ told)
    | some m =>
      have first := front.find?_eq_some found
      rw [← first, one s (front.subset told)]
  · intro first
    have told : s ∈ before.filterMap Mark.copy? :=
      mem_filterMap_copy?.2 (List.mem_of_find?_eq_some first)
    cases last : (before.filterMap Mark.copy?).getLast? with
    | none =>
      rw [List.getLast?_eq_none_iff.1 last] at told
      cases told
    | some t =>
      have also : .done t ∈ ms := front.subset (mem_filterMap_copy?.1 (List.mem_of_getLast? last))
      have same := (one t also).symm.trans (front.find?_eq_some first)
      rw [Option.some.injEq, Mark.done.injEq] at same
      rw [same]

end Job

/-- A job that is open and has no statistics, and whatever it is told.  It takes what it is told
exactly until the first end, which gives it its status for good.  What it does not take changes
nothing but the statistics, and these are always those of the copy that was told last.  So what is
not taken changes nothing, and the statistics are at any time those of the copy that made the job
done, and there are none without such a copy, exactly if no other copy is told than that which
ended the job. -/
theorem transfer_after_getLast (j : Job) (stands : j.status.isTerminal = false)
    (blank : j.transfer = none) (ms : List Mark) :
    (∀ m : Mark, m.isTaken (j.after ms) = !ms.any Mark.ends) ∧
      (∀ m, ms.find? Mark.ends = some m →
        ∀ more, (j.after (ms ++ more)).status = m.status) ∧
      (∀ m : Mark, m.isTaken (j.after ms) = false →
        m.on (j.after ms) = { j.after ms with transfer := m.copy?.or (j.after ms).transfer }) ∧
      (j.after ms).transfer = (ms.filterMap Mark.copy?).getLast? ∧
      (((∀ before m, before ++ [m] <+: ms → m.isTaken (j.after before) = false →
            m.on (j.after before) = j.after before) ∧
          ∀ before, before <+: ms → ∀ s, (j.after before).transfer = some s ↔
            before.find? Mark.ends = some (.done s)) ↔
        ∀ s, .done s ∈ ms → ms.find? Mark.ends = some (.done s)) := by
  have answers : ∀ (before : List Mark) (m : Mark),
      m.isTaken (j.after before) = !before.any Mark.ends := by
    intro before m
    rw [m.isTaken_eq, Job.isTerminal_after stands]
  have untaken : ∀ (before : List Mark) (m : Mark), m.isTaken (j.after before) = false →
      m.on (j.after before) =
        { j.after before with transfer := m.copy?.or (j.after before).transfer } := by
    intro before m refused
    rw [m.isTaken_eq, Bool.not_eq_false'] at refused
    rw [m.on_eq, if_pos refused]
  refine ⟨answers ms, ?_, untaken ms, ?_, ?_⟩
  · intro m first more
    have told := Job.status_after stands (ms ++ more)
    rw [(List.prefix_append ms more).find?_eq_some first] at told
    exact told
  · rw [Job.transfer_after, blank, Option.or_none]
  · constructor
    · rintro ⟨-, agrees⟩ s told
      obtain ⟨before, rest, rfl⟩ := List.append_of_mem told
      have front : before ++ [.done s] <+: before ++ .done s :: rest :=
        ⟨rest, List.append_cons before _ rest ▸ rfl⟩
      have noted : (j.after (before ++ [.done s])).transfer = some s := by
        rw [Job.after_append]
        exact congrArg Job.transfer (Mark.on_eq (.done s) (j.after before))
      exact front.find?_eq_some ((agrees _ front s).1 noted)
    · intro one
      have agrees : ∀ before, before <+: ms → ∀ s, (j.after before).transfer = some s ↔
          before.find? Mark.ends = some (.done s) :=
        fun before front => Job.transfer_after_iff blank one front
      refine ⟨fun before m front refused => ?_, agrees⟩
      rw [untaken before m refused]
      cases told : m.copy? with
      | none => rfl
      | some s =>
        -- the copy that is told once more is the one that has ended the job
        have here : m ∈ before ++ [m] := List.mem_append_right _ (List.mem_singleton_self m)
        have first := one s (Mark.eq_done_of_copy? told ▸ front.subset here)
        have front' : before <+: ms := (List.prefix_append before [m]).trans front
        have noted : (j.after before).transfer = some s := by
          rw [agrees before front' s]
          rw [answers, Bool.not_eq_false'] at refused
          obtain ⟨e, he, ends⟩ := List.any_eq_true.1 refused
          cases found : before.find? Mark.ends with
          | none => exact absurd ends (List.find?_eq_none.1 found e he)
          | some m' => rw [← front'.find?_eq_some found, first]
        rw [Option.some_or, ← noted]

theorem transfer_after_failed :
    let j : Job := { file := ⟨"/a/f", 1, []⟩, destination := 0, priority := 3 }
    let ms : List Mark := [.failed (.transport "reset"), .done ⟨1, 2, 3, true⟩]
    j.status.isTerminal = false ∧ j.transfer = none ∧
      (j.after ms).status = .failed (.transport "reset") ∧
      (j.after ms).transfer = some ⟨1, 2, 3, true⟩ ∧
      ¬ ∀ s, .done s ∈ ms → ms.find? Mark.ends = some (.done s) := by
  intro j ms
  obtain ⟨-, status, -, transfer, -⟩ := transfer_after_getLast j rfl rfl ms
  have failed : (j.after ms).status = .failed (.transport "reset") := status _ rfl []
  refine ⟨rfl, rfl, failed, transfer, fun one => ?_⟩
  have first := one ⟨1, 2, 3, true⟩ (by simp [ms])
  cases first

end Archivist
