import Archivist.Service.Planning
set_option autoImplicit false

namespace Archivist

namespace Policy

inductive Planned (p : Policy) (w : World) : Except ArchiveError SectionPlan → Prop where
  | unselected (e : ArchiveError) (next : p.next w w.clock.now = .error e) : Planned p w (.error e)
  | idle (next : p.next w w.clock.now = .ok none) :
      Planned p w (.ok { sectionName := p.section_.name })
  | unresolved (d : Dir) (e : ArchiveError) (next : p.next w w.clock.now = .ok (some d))
      (find : (p.setDirectory (some d)).find w = .error e) : Planned p w (.error e)
  | alone (d : Dir) (next : p.next w w.clock.now = .ok (some d))
      (find : (p.setDirectory (some d)).find w = .answer none) :
      Planned p w (.ok { sectionName := p.section_.name, directory := some d })
  | unsent (d : Dir) (nodes : List Member) (q : Policy) (e : ArchiveError)
      (next : p.next w w.clock.now = .ok (some d))
      (find : (p.setDirectory (some d)).find w = .answer (some nodes))
      (freeze : (p.setDirectory (some d)).freeze (nodes.map (·.id)) = .ok q)
      (send : q.send w = .error e) : Planned p w (.error e)
  | sent (d : Dir) (nodes : List Member) (q : Policy) (js : List Job)
      (next : p.next w w.clock.now = .ok (some d))
      (find : (p.setDirectory (some d)).find w = .answer (some nodes))
      (freeze : (p.setDirectory (some d)).freeze (nodes.map (·.id)) = .ok q)
      (send : q.send w = .ok js) :
      Planned p w (.ok
        { sectionName := p.section_.name, directory := some d
          destinations := nodes.map (·.node.name)
          copies := js.map fun j => (j.file.path, w.fleet.nameOf j.destination) })
  | unfrozen (d : Dir) (nodes : List Member) (e : ArchiveError)
      (next : p.next w w.clock.now = .ok (some d))
      (find : (p.setDirectory (some d)).find w = .answer (some nodes))
      (freeze : (p.setDirectory (some d)).freeze (nodes.map (·.id)) = .error e) :
      Planned p w (.error e)

theorem find_ne_panicked {p : Policy} (sane : p.finder = .placement) (w : World) :
    p.find w ≠ .panicked := by
  unfold find
  rw [sane]
  dsimp only
  split
  · simp
  · split
    · split <;> simp
    · split
      · simp
      · split <;> simp

theorem planned {p : Policy} (sane : p.finder = .placement) (w : World) :
    Planned p w (p.plan w) := by
  unfold plan
  cases next : p.next w w.clock.now with
  | error e => exact .unselected e next
  | ok found =>
    cases found with
    | none => exact .idle next
    | some d =>
      dsimp only [bind, Except.bind]
      cases find : (p.setDirectory (some d)).find w with
      | panicked => exact absurd find (find_ne_panicked (by exact sane) w)
      | error e => exact .unresolved d e next find
      | answer nodes? =>
        cases nodes? with
        | none => exact .alone d next find
        | some nodes =>
          dsimp only
          cases freeze : (p.setDirectory (some d)).freeze (nodes.map (·.id)) with
          | error e => exact .unfrozen d nodes e next find freeze
          | ok q =>
            dsimp only
            cases send : q.send w with
            | error e => exact .unsent d nodes q e next find freeze send
            | ok js => exact .sent d nodes q js next find freeze send

variable {p : Policy} {w : World}

theorem send_eq_ok {js : List Job} (h : p.send w = .ok js) :
    ∃ d ids fs, p.directory = some d ∧ p.destinations = some ids ∧
      p.files w.namespace_ d = .ok fs := by
  unfold send requireDirectory at h
  cases dir : p.directory with
  | none =>
    rw [dir] at h
    cases h
  | some d =>
    rw [dir] at h
    dsimp only [bind, Except.bind] at h
    cases frozen : p.destinations with
    | none =>
      rw [frozen] at h
      cases h
    | some nodes =>
      rw [frozen] at h
      dsimp only at h
      cases listed : p.files w.namespace_ d with
      | error e =>
        rw [listed] at h
        cases h
      | ok fs => exact ⟨d, nodes, fs, rfl, rfl, listed⟩

theorem cleanup_of_send {js : List Job} (h : p.send w = .ok js) (js' : List Job) :
    ∃ q w' report, p.cleanup w js' = .ok (q, w', report) := by
  obtain ⟨d, -, fs, dir, -, listed⟩ := send_eq_ok h
  have judged : ∃ archived, p.isArchived w d = .ok archived := by
    unfold isArchived
    rw [listed]
    dsimp only [bind, Except.bind]
    split
    · exact ⟨_, rfl⟩
    · exact ⟨_, rfl⟩
  obtain ⟨archived, judged⟩ := judged
  unfold cleanup requireDirectory
  rw [dir]
  dsimp only [bind, Except.bind]
  rw [judged]
  dsimp only
  split
  · split
    · exact ⟨_, _, _, rfl⟩
    · exact ⟨_, _, _, rfl⟩
  · exact ⟨_, _, _, rfl⟩

end Policy

namespace Service

/-- A dry run answers as the plan does and leaves the world as it is. -/
theorem plan_eq {s : Service} {p : Policy} (sane : p.finder = .placement) (id : PolicyId) :
    (s.plan id p).2 = p.plan s.world ∧ (s.plan id p).1.world = s.world := by
  have planned := Policy.planned sane s.world
  generalize told : p.plan s.world = answer at planned
  unfold plan
  cases planned with
  | unselected e next => rw [next]; exact ⟨rfl, rfl⟩
  | idle next => rw [next]; exact ⟨rfl, rfl⟩
  | unresolved d e next find =>
    rw [next]
    dsimp only [setPolicy]
    rw [find]
    exact ⟨rfl, rfl⟩
  | alone d next find =>
    rw [next]
    dsimp only [setPolicy]
    rw [find]
    exact ⟨rfl, rfl⟩
  | unsent d nodes q e next find freeze send =>
    rw [next]
    dsimp only [setPolicy]
    rw [find]
    dsimp only
    rw [freeze]
    dsimp only
    rw [send]
    exact ⟨rfl, rfl⟩
  | sent d nodes q js next find freeze send =>
    rw [next]
    dsimp only [setPolicy]
    rw [find]
    dsimp only
    rw [freeze]
    dsimp only
    rw [send]
    exact ⟨rfl, rfl⟩
  | unfrozen d nodes e next find freeze =>
    rw [next]
    dsimp only [setPolicy]
    rw [find]
    dsimp only
    rw [freeze]
    exact ⟨rfl, rfl⟩

end Service
end Archivist
