import Archivist.Proofs.Storage.Following
import Archivist.Proofs.Transfer.Pathnames
import Archivist.Transfer.FileTransfer
set_option autoImplicit false

namespace Archivist

open Pathname

namespace Storage

variable {s : Storage} {root : String} {place l parent : Location} {name : String}

theorem LeadsTo.any_hasNul (h : s.LeadsTo (parts root) place) (l : Location) :
    (parts root ++ l.map PathPart.name).any (·.hasNul) = hasNul l := by
  rw [List.any_append, h.clean, Bool.false_or, List.any_map]
  rfl

theorem LeadsTo.locate (h : s.LeadsTo (parts root) place) (l : Location) :
    s.locate [] (parts root ++ l.map .name) = .ok (place ++ l) := by
  rw [locate_append h.located, locate_names]

theorem hasNul_behind (nul : hasNul l = true) (place : Location) : hasNul (place ++ l) = true := by
  rw [hasNul_append, nul, Bool.or_true]

theorem LeadsTo.readAt_eq (h : s.LeadsTo (parts root) place) (down : ∀ n ∈ l, LeadsDown n)
    (filled : path root l ≠ "") : s.readAt (path root l) = s.openItem (place ++ l) := by
  unfold readAt
  rw [parts_path root down, h.any_hasNul, h.locate, if_neg filled]
  split
  · rename_i nul
    rw [openItem, find, if_pos (hasNul_behind nul place)]
    rfl
  · dsimp only
    rcases List.eq_nil_or_concat l with rfl | ⟨front, n, rfl⟩
    · rw [List.append_nil, openItem_eq_directory.2 h.directory]
    · have named : LeadsDown n := down n (by simp)
      rw [List.concat_eq_append, path_concat, named.endsOpen_push]
      split
      · rename_i found
        rw [found]
        rfl
      · rfl

theorem LeadsTo.makeAt_eq (h : s.LeadsTo (parts root) place) (down : ∀ n ∈ l, LeadsDown n) :
    s.makeAt (path root l) = s.makeDirectories (place ++ l) := by
  unfold makeAt
  rw [parts_path root down, h.any_hasNul, makeAlongPath_append h.located, makeAlongPath_names]
  split
  · rename_i nul
    rw [makeDirectories, if_pos (hasNul_behind nul place)]
  · rfl

theorem LeadsTo.writeAt_eq (h : s.LeadsTo (parts root) place) (down : ∀ n ∈ l, LeadsDown n)
    (last : LeadsDown name) :
    s.writeAt (push (path root l) name) =
      ((s.openFile (place ++ (l ++ [name]))).1,
        (s.openFile (place ++ (l ++ [name]))).2.map fun _ => place ++ (l ++ [name])) := by
  have whole := leadsDown_concat down last
  unfold writeAt
  rw [last.endsOpen_push, ← path_concat, parts_path root whole, h.any_hasNul, h.locate]
  split
  · rename_i nul
    rw [openFile, find, if_pos (hasNul_behind nul place)]
    rfl
  · rw [if_neg (by simp)]
    dsimp only
    rcases s.openFile (place ++ (l ++ [name])) with ⟨s', e | ⟨⟩⟩ <;> rfl

theorem hasNul_of_makeDirectories {s' : Storage} (h : s.makeDirectories (place ++ l) = (s', .ok ())) :
    hasNul l = false := by
  unfold makeDirectories at h
  split at h
  · cases h
  · rename_i clean
    rw [hasNul_append, Bool.or_eq_true, not_or] at clean
    simpa using clean.2

theorem LeadsTo.writeAt_dot (h : s.LeadsTo (parts root) place) (down : ∀ n ∈ l, LeadsDown n)
    (clean : hasNul l = false) :
    s.writeAt (push (path root l) ".") = (s, .error .isDirectory) := by
  have none : (parts (push (path root l) ".")).any (·.hasNul) = false := by
    rcases parts_push_dot (path root l) with eq | eq
    · rw [eq, parts_path root down, h.any_hasNul, clean]
    · rw [eq, List.any_append, parts_path root down, h.any_hasNul, clean]
      rfl
  rw [writeAt, none, endsOpen_push_dot]
  rfl

end Storage

namespace FileTransfer

open Storage

variable {s : Storage} {root : String} {place : Location}

theorem prepareSendAt_eq (h : s.LeadsTo (parts root) place) (filled : root ≠ "") (text : String)
    (mode : TransferMode) (resume : UInt64) (want : Bool) :
    (prepareSendAt root s text mode resume want).2 =
      match Location.resolve text with
      | .error e => .error e
      | .ok l =>
        match s.openItem (place ++ l) with
        | .error e => .error (.io e)
        | .ok item => sendItem mode resume want item := by
  unfold prepareSendAt
  rw [resolveUnder_eq]
  cases resolved : Location.resolve text with
  | error e => rfl
  | ok l =>
    have down := leadsDown_of_resolve resolved
    have some : path root l ≠ "" := by
      intro none
      have begins := toList_prefix_path root down
      rw [none] at begins
      exact filled (String.toList_eq_nil_iff.1 (List.prefix_nil.1 begins))
    have read := h.readAt_eq down some
    dsimp only [Except.map]
    cases found : s.openItem (place ++ l) with
    | error e =>
      rw [found] at read
      simp only [read]
    | ok item =>
      rw [found] at read
      simp only [read]

/-- Below a root that is there a receiver works on the names behind the place of the root. -/
theorem prepareReceiveAt_eq (h : s.LeadsTo (parts root) place) (directory : String)
    (mode : TransferMode) (filename : String) (offset : UInt64) :
    (prepareReceiveAt root s directory mode filename offset).2 =
      if !Location.isFileName filename then (s, .error (.invalidPath filename))
      else
        match Location.resolve directory with
        | .error e => (s, .error e)
        | .ok parent =>
          match s.makeDirectories (place ++ parent) with
          | (s, .error e) => (s, .error (.io e))
          | (s, .ok ()) =>
            if filename = "." then (s, .error (.io .isDirectory))
            else
              match s.openFile (place ++ (parent ++ [filename])) with
              | (s, .error e) => (s, .error (.io e))
              | (s, .ok ()) =>
                match s.setLength (place ++ (parent ++ [filename])) offset.toNat with
                | (s, .error e) => (s, .error (.io e))
                | (s, .ok ()) => (s, .ok (.receive (place ++ (parent ++ [filename])) mode)) := by
  unfold prepareReceiveAt
  split
  · rfl
  · rename_i name
    rw [resolveUnder_eq]
    cases resolved : Location.resolve directory with
    | error e => rfl
    | ok parent =>
      have down := leadsDown_of_resolve resolved
      have spared := spares_makeDirectories [] s (place ++ parent)
      dsimp only [Except.map]
      rw [h.makeAt_eq down]
      rcases along : s.makeDirectories (place ++ parent) with ⟨made, e | ⟨⟩⟩
      · rfl
      · rw [along] at spared
        have there := h.spared spared
        dsimp only
        by_cases dot : filename = "."
        · rw [dot, there.writeAt_dot down (hasNul_of_makeDirectories along)]
          rfl
        · have last := leadsDown_of_isFileName (by simpa using name) dot
          rw [there.writeAt_eq down last, if_neg dot]
          rcases made.openFile (place ++ (parent ++ [filename])) with ⟨opened, e | ⟨⟩⟩ <;> rfl

theorem leadsTo_top (s : Storage) : s.LeadsTo (parts top) [] :=
  ⟨by decide, rfl, rfl⟩

theorem prepareSend_eq (s : Storage) (text : String) (mode : TransferMode) (resume : UInt64)
    (want : Bool) :
    prepareSend s text mode resume want =
      match Location.resolve text with
      | .error e => .error e
      | .ok l =>
        match s.openItem l with
        | .error e => .error (.io e)
        | .ok item => sendItem mode resume want item :=
  prepareSendAt_eq (leadsTo_top s) (by decide) text mode resume want

theorem prepareReceive_eq (s : Storage) (directory : String) (mode : TransferMode)
    (filename : String) (offset : UInt64) :
    prepareReceive s directory mode filename offset =
      if !Location.isFileName filename then (s, .error (.invalidPath filename))
      else
        match Location.resolve directory with
        | .error e => (s, .error e)
        | .ok parent =>
          match s.makeDirectories parent with
          | (s, .error e) => (s, .error (.io e))
          | (s, .ok ()) =>
            if filename = "." then (s, .error (.io .isDirectory))
            else
              match s.openFile (parent ++ [filename]) with
              | (s, .error e) => (s, .error (.io e))
              | (s, .ok ()) =>
                match s.setLength (parent ++ [filename]) offset.toNat with
                | (s, .error e) => (s, .error (.io e))
                | (s, .ok ()) => (s, .ok (.receive (parent ++ [filename]) mode)) :=
  prepareReceiveAt_eq (leadsTo_top s) directory mode filename offset

end FileTransfer
end Archivist
