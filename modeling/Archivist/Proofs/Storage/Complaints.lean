import Archivist.Storage.Basic
set_option autoImplicit false

namespace Archivist

def IoError.Fixed : IoError → Prop
  | .bufferSize _ | .other _ => False
  | _ => True

namespace Storage

variable {s : Storage} {l : Location} {e : IoError}

theorem fixed_walk {here : Location} {names : List String} (h : s.walk here names = .error e) :
    e.Fixed := by
  induction names generalizing here with
  | nil => cases h
  | cons n rest ih =>
    unfold walk at h
    split at h
    · cases h
      trivial
    · split at h
      · cases h
      · cases h
        trivial
      · cases h
        trivial
      · cases h
      · exact ih h

theorem fixed_find (h : s.find l = .error e) : e.Fixed := by
  unfold find at h
  split at h
  · cases h
    trivial
  · exact fixed_walk h

theorem fixed_openItem (h : s.openItem l = .error e) : e.Fixed := by
  unfold openItem at h
  cases found : s.find l with
  | error e' =>
    rw [found] at h
    cases h
    exact fixed_find found
  | ok item =>
    rw [found] at h
    cases item with
    | none =>
      cases h
      trivial
    | some item => cases h

theorem fixed_makeAlong {here : Location} {names : List String} {s' : Storage}
    (h : s.makeAlong here names = (s', .error e)) : e.Fixed := by
  induction names generalizing s here with
  | nil => cases h
  | cons n rest ih =>
    unfold makeAlong at h
    split at h
    · cases h
      trivial
    · split at h
      · exact ih h
      · exact ih h
      · cases h
        split <;> trivial

theorem fixed_makeDirectories {s' : Storage} (h : s.makeDirectories l = (s', .error e)) :
    e.Fixed := by
  unfold makeDirectories at h
  split at h
  · cases h
    trivial
  · exact fixed_makeAlong h

theorem fixed_openFile {s' : Storage} (h : s.openFile l = (s', .error e)) : e.Fixed := by
  unfold openFile at h
  split at h
  · rename_i found
    cases h
    exact fixed_find found
  · cases h
  · cases h
  · cases h
    trivial

theorem fixed_setLength {s' : Storage} {length : Nat}
    (h : s.setLength l length = (s', .error e)) : e.Fixed := by
  unfold setLength at h
  split at h
  · cases h
    trivial
  · split at h
    · cases h
      trivial
    · split at h
      · cases h
      · cases h
        trivial

end Storage
end Archivist
