import Archivist.Proofs.Transfer.Reception
import Mathlib.Data.List.Infix
set_option autoImplicit false

/-!
# Transfers stay below their root

What a transfer asks the system for is a path, and nothing but the way in which the path is put
together keeps the transfer in its storage: each is the root with names behind it that lead down, and
at the end there may be a dot.  A file system is changed at or below the root alone, but that a root
without a parent is given one.
-/

namespace Archivist

namespace Pathname

open FileTransfer Storage

/-- A path at or below a root: the text of the root and behind it names that lead down, at the end
perhaps a dot. -/
structure Within (root : String) (names : Location) (p : String) : Prop where
  down : ∀ n ∈ names, LeadsDown n
  text : p = path root names ∨ p = push (path root names) "."
  behind : root.toList <+: p.toList
  parts : parts p = parts root ++ names.map .name ∨
    parts p = parts root ++ names.map .name ++ [.here]

theorem within_path (root : String) {l : Location} (down : ∀ n ∈ l, LeadsDown n) :
    Within root l (path root l) :=
  ⟨down, .inl rfl, toList_prefix_path root down, .inl (parts_path root down)⟩

theorem within_dot (root : String) {l : Location} (down : ∀ n ∈ l, LeadsDown n) :
    Within root l (push (path root l) ".") := by
  refine ⟨down, .inr rfl, ?_, ?_⟩
  · exact (toList_prefix_path root down).trans (toList_prefix_push _ (by decide))
  · rw [← parts_path root down]
    exact parts_push_dot _

/-! ## The paths that are asked for -/

variable {root text filename : String} {s s' s'' : Storage} {mode : TransferMode}
  {offset : UInt64} {parent l : Location}

theorem within_push (down : ∀ n ∈ parent, LeadsDown n)
    (name : Location.isFileName filename = true) :
    ∃ names, Within root names (push (path root parent) filename) := by
  by_cases dot : filename = "."
  · rw [dot]
    exact ⟨parent, within_dot root down⟩
  · rw [← path_concat]
    exact ⟨_, within_path root (leadsDown_concat down (leadsDown_of_isFileName name dot))⟩

theorem within_prepareSendAt {resume : UInt64} {want : Bool} {p : String}
    (hp : p ∈ (prepareSendAt root s text mode resume want).1) : ∃ names, Within root names p := by
  unfold prepareSendAt at hp
  rw [resolveUnder_eq] at hp
  cases resolved : Location.resolve text with
  | error e =>
    rw [resolved] at hp
    cases hp
  | ok l =>
    rw [resolved] at hp
    rw [List.mem_singleton.1 hp]
    exact ⟨l, within_path root (leadsDown_of_resolve resolved)⟩

theorem within_prepareReceiveAt {p : String}
    (hp : p ∈ (prepareReceiveAt root s text mode filename offset).1) :
    ∃ names, Within root names p := by
  unfold prepareReceiveAt at hp
  by_cases name : Location.isFileName filename = true
  · rw [if_neg (by simp [name]), resolveUnder_eq] at hp
    cases resolved : Location.resolve text with
    | error e =>
      rw [resolved] at hp
      cases hp
    | ok parent =>
      have down := leadsDown_of_resolve resolved
      rw [resolved] at hp
      dsimp only [Except.map] at hp
      split at hp
      · rw [List.mem_singleton.1 hp]
        exact ⟨parent, within_path root down⟩
      · rcases List.mem_cons.1 hp with rfl | file
        · exact ⟨parent, within_path root down⟩
        · rw [List.mem_singleton.1 file]
          exact within_push down name
  · rw [if_pos (by simp [name])] at hp
    cases hp

/-! ## The places that change -/

def Below (root : String) (l : Location) : Prop :=
  ∃ names, (∀ n ∈ names, LeadsDown n) ∧ l = location (parts root) ++ names

structure MadeOnWay (root : String) (s s' : Storage) (l : Location) : Prop where
  onWay : ∃ front, front <+: parts root ∧ l = location front
  missing : s.get? l = none
  made : s'.get? l = some .directory

/-- Only what lies at or below a root may have changed, and directories may have been made on the
way to it. -/
def ChangedBelow (root : String) (s s' : Storage) : Prop :=
  ∀ l, ¬ Below root l → s'.get? l ≠ s.get? l → MadeOnWay root s s' l

theorem ChangedBelow.refl (root : String) (s : Storage) : ChangedBelow root s s :=
  fun _ _ changed => absurd rfl changed

theorem ChangedBelow.trans_at (h : ChangedBelow root s s') {place : Location}
    (below : Below root place) (same : ∀ l, l ≠ place → s''.get? l = s'.get? l) :
    ChangedBelow root s s'' := by
  intro l above changed
  have kept : s''.get? l = s'.get? l := by
    refine same l ?_
    rintro rfl
    exact above below
  rw [kept] at changed
  obtain ⟨onWay, missing, made⟩ := h l above changed
  exact ⟨onWay, missing, kept.trans made⟩

theorem location_path (root : String) (down : ∀ n ∈ parent, LeadsDown n) :
    location (parts (path root parent)) = location (parts root) ++ parent := by
  rw [parts_path root down, location, List.foldl_append]
  exact (eq_foldl_of_locate (locate_names .empty _ parent)).symm

theorem changedBelow_makeAt (root : String) (s : Storage) (down : ∀ n ∈ parent, LeadsDown n) :
    ChangedBelow root s (s.makeAt (path root parent)).1 := by
  intro l above changed
  obtain ⟨missing, made⟩ := makeAt_of_ne changed
  refine ⟨?_, missing, made⟩
  by_contra off
  refine changed (get?_makeAt_of_away fun front leads passed => ?_)
  obtain ⟨short, shorter, rfl⟩ := exists_front_of_prefix passed
  have first := shorter.trans leads
  rw [parts_path root down] at first
  -- what leads there ends on the way to the root or goes on behind it
  rcases List.prefix_or_prefix_of_prefix first (List.prefix_append _ _) with onWay | ⟨rest, rfl⟩
  · exact off ⟨short, onWay, rfl⟩
  · obtain ⟨names, leads, rfl⟩ :=
      List.prefix_map_iff.1 ((List.prefix_append_right_inj _).1 first)
    have below : ∀ n ∈ names, LeadsDown n := fun n hn => down n (leads.subset hn)
    refine above ⟨names, below, ?_⟩
    rw [← parts_path root below, location_path root below]

theorem get?_writeAt_of_ne {file : String} (ne : location (parts file) ≠ [])
    (other : l ≠ location (parts file)) : (s.writeAt file).1.get? l = s.get? l := by
  unfold writeAt
  split
  · rfl
  · split
    · rfl
    · cases found : s.locate [] (parts file) with
      | error e => rfl
      | ok place =>
        obtain rfl : place = location (parts file) := eq_foldl_of_locate found
        have same := get?_openFile_of_ne (s := s) ne other
        dsimp only
        rcases opened : s.openFile (location (parts file)) with ⟨made, e | ⟨⟩⟩ <;>
          rwa [opened] at same

theorem eq_location_of_writeAt {file : String} {place : Location}
    (h : s.writeAt file = (s', .ok place)) : place = location (parts file) := by
  unfold writeAt at h
  split at h
  · cases h
  · split at h
    · cases h
    · split at h
      · cases h
      · rename_i found
        split at h
        · cases h
        · cases h
          exact eq_foldl_of_locate found

theorem writeAt_of_endsOpen {file : String} (dot : endsOpen file = true) :
    ∃ e, s.writeAt file = (s, .error e) := by
  unfold writeAt
  rw [if_pos dot]
  split
  · exact ⟨_, rfl⟩
  · exact ⟨_, rfl⟩

end Pathname

/-! ## The bytes that come -/

namespace FileTransfer

variable {l place : Location}

theorem get?_receivePiece_of_ne {r : Receiving} (ne : r.location ≠ []) (other : l ≠ r.location)
    (p : List UInt8) : (receivePiece r p).storage.get? l = r.storage.get? l := by
  unfold receivePiece
  dsimp only
  cases r.mode with
  | binary => exact Storage.get?_append_of_ne ne other _
  | ascii => exact Storage.get?_append_of_ne ne other _

theorem get?_pieces_of_ne {r : Receiving} (ne : r.location ≠ []) (other : l ≠ r.location)
    (ps : List (List UInt8)) : (ps.foldl receivePiece r).storage.get? l = r.storage.get? l := by
  induction ps generalizing r with
  | nil => rfl
  | cons p ps ih =>
    have same := (spares_receivePiece ne p).1
    rw [List.foldl_cons, ih (same.symm ▸ ne) (same.symm ▸ other), get?_receivePiece_of_ne ne other]

theorem get?_flushHeld_of_ne {r : Receiving} (ne : r.location ≠ []) (other : l ≠ r.location) :
    (flushHeld r).storage.get? l = r.storage.get? l := by
  unfold flushHeld
  split
  · exact Storage.get?_append_of_ne ne other _
  · rfl

theorem get?_runReceive_of_ne (ne : place ≠ []) (other : l ≠ place) (t : FileTransfer)
    (storage : Storage) (mode : TransferMode) (arriving : List (List UInt8))
    (breaks : Option Interruption) (elapsed : UInt64) :
    (t.runReceive storage place mode arriving breaks elapsed).2.1.get? l = storage.get? l := by
  unfold runReceive
  split
  · rfl
  · rename_i begun _
    let r : Receiving := { transfer := begun, storage, location := place, mode }
    split
    · rename_i i
      exact get?_pieces_of_ne (r := r) ne other (arriving.take i.after)
    · have same := (spares_pieces (r := r) ne arriving).1
      exact (get?_flushHeld_of_ne (same.symm ▸ ne) (same.symm ▸ other)).trans
        (get?_pieces_of_ne (r := r) ne other arriving)

end FileTransfer

namespace Pathname

open FileTransfer Storage

variable {root : String} {s s' : Storage} {l : Location}

theorem changedBelow_prepareReceiveAt (root : String) (s : Storage) (directory : String)
    (mode : TransferMode) (filename : String) (offset : UInt64) :
    ChangedBelow root s (prepareReceiveAt root s directory mode filename offset).2.1 ∧
      ∀ place mode', (prepareReceiveAt root s directory mode filename offset).2.2 =
        .ok (.receive place mode') → place ≠ [] ∧ Below root place := by
  unfold prepareReceiveAt
  by_cases name : Location.isFileName filename = true
  · rw [if_neg (by simp [name]), resolveUnder_eq]
    cases resolved : Location.resolve directory with
    | error e => exact ⟨.refl root s, fun place mode' h => by cases h⟩
    | ok parent =>
      have down := leadsDown_of_resolve resolved
      have along := changedBelow_makeAt root s down
      dsimp only [Except.map]
      rcases begun : s.makeAt (path root parent) with ⟨made, e | ⟨⟩⟩ <;> rw [begun] at along
      · exact ⟨along, fun place mode' h => by cases h⟩
      · dsimp only at along ⊢
        by_cases dot : filename = "."
        · obtain ⟨e, failed⟩ := writeAt_of_endsOpen (s := made)
            (endsOpen_push_dot (path root parent))
          rw [dot, failed]
          exact ⟨along, fun place mode' h => by cases h⟩
        · have whole := leadsDown_concat down (leadsDown_of_isFileName name dot)
          have here : location (parts (push (path root parent) filename)) =
              location (parts root) ++ (parent ++ [filename]) := by
            rw [← path_concat, location_path root whole]
          have below : Below root (location (parts (push (path root parent) filename))) :=
            ⟨_, whole, here⟩
          have ne : location (parts (push (path root parent) filename)) ≠ [] := by
            rw [here]
            simp
          have opened := along.trans_at below fun l other =>
            get?_writeAt_of_ne (s := made) ne other
          rcases handle : made.writeAt (push (path root parent) filename) with ⟨s', e | place⟩ <;>
            rw [handle] at opened
          · exact ⟨opened, fun place mode' h => by cases h⟩
          · obtain rfl := eq_location_of_writeAt handle
            have cut := opened.trans_at below fun l other =>
              get?_setLength_of_ne (s := s') ne other offset.toNat
            dsimp only at cut ⊢
            rcases ended : s'.setLength _ offset.toNat with ⟨s'', e | ⟨⟩⟩ <;> rw [ended] at cut
            · exact ⟨cut, fun place mode' h => by cases h⟩
            · refine ⟨cut, fun place mode' h => ?_⟩
              cases h
              exact ⟨ne, below⟩
  · rw [if_pos (by simp [name])]
    exact ⟨.refl root s, fun place mode' h => by cases h⟩

theorem changedBelow_receiveReady (t : FileTransfer) (net : Network)
    (peer : Option (List (List UInt8))) (elapsed : UInt64) (root : String) (s : Storage)
    (directory : String) (mode : TransferMode) (filename : String) (offset : UInt64) :
    ChangedBelow root s (t.receiveReady net peer elapsed
      (prepareReceiveAt root s directory mode filename offset).2).2.1 := by
  obtain ⟨ready, aims⟩ := changedBelow_prepareReceiveAt root s directory mode filename offset
  unfold receiveReady
  rcases prepared : (prepareReceiveAt root s directory mode filename offset).2 with ⟨s', e | task⟩ <;>
    rw [prepared] at ready aims
  · exact ready
  · cases task with
    | send => exact ready
    | receive place mode' =>
      obtain ⟨ne, below⟩ := aims place mode' rfl
      have moved := fun t arriving => ready.trans_at below fun l other =>
        get?_runReceive_of_ne ne other t s' mode' arriving net.breaks elapsed
      dsimp only at ready ⊢
      split
      · exact ready
      · exact moved _ _
      · split
        · exact moved _ _
        · exact ready

/-! ## Roots that are there or have a parent -/

/-- A root is a directory or can be made one where it belongs. -/
def HasParent (root : String) (s : Storage) : Prop :=
  (∃ place, s.LeadsTo (parts root) place) ∨ ∃ place, s.LeadsTo (parts root).dropLast place

theorem top_notMem_tail (text : String) : .top ∉ (parts text).tail := by
  have plain : PathPart.top ∉ (body text.toList).map PathPart.ofPiece := by
    intro mem
    obtain ⟨p, -, eq⟩ := List.mem_map.1 mem
    unfold PathPart.ofPiece at eq
    split at eq <;> cases eq
  unfold parts front
  split
  · exact plain
  · split
    · exact plain
    · exact fun mem => plain (List.mem_of_mem_tail mem)

theorem ChangedBelow.below (h : ChangedBelow root s s') (rooted : HasParent root s)
    (changed : s'.get? l ≠ s.get? l) : Below root l := by
  by_contra above
  obtain ⟨⟨front, onWay, rfl⟩, missing, -⟩ := h l above changed
  have there : ∀ {ps : List PathPart} {place : Location}, s.LeadsTo ps place → .top ∉ ps.tail →
      ¬ front <+: ps := by
    intro ps place leads plain shorter
    rw [leads.get?_of_prefix plain shorter] at missing
    cases missing
  rcases rooted with ⟨place, leads⟩ | ⟨place, leads⟩
  · exact there leads (top_notMem_tail root) onWay
  · have plain : .top ∉ (parts root).dropLast.tail := by
      rw [List.tail_dropLast]
      exact fun mem => top_notMem_tail root (List.mem_of_mem_dropLast mem)
    refine there leads plain ?_
    rcases List.eq_nil_or_concat (parts root) with none | ⟨ps, p, eq⟩
    · rw [none] at onWay
      rwa [none]
    · rw [eq, List.concat_eq_append] at onWay ⊢
      rw [List.dropLast_concat]
      refine (List.prefix_concat_iff.1 onWay).resolve_left fun whole => above ?_
      refine ⟨[], by simp, ?_⟩
      rw [List.append_nil, eq, List.concat_eq_append, whole]

theorem resolveUnder_eq_error_iff (root text : String) (e : TransferError) :
    resolveUnder root text = .error e ↔
      e = .invalidPath text ∧ ".." ∈ (Text.pieces '/' text.toList).map String.ofList := by
  have climbs : ".." ∈ Location.names text ↔
      ".." ∈ (Text.pieces '/' text.toList).map String.ofList := by
    rw [Location.names, List.mem_map, List.mem_map]
    refine exists_congr fun p => and_congr_left fun eq => ?_
    have dots : p = ['.', '.'] := String.ofList_inj.1 (eq : String.ofList p = String.ofList _)
    rw [List.mem_filter, dots]
    exact and_iff_left rfl
  rw [resolveUnder_eq, ← climbs, Location.resolve]
  split
  · rename_i up
    simp [Except.map, up, eq_comm]
  · rename_i clean
    simp [Except.map, clean]

end Pathname

open Pathname FileTransfer in
/-- Whatever the texts, a transfer asks for nothing but paths at or below its root: the text of the
root with names that lead down behind it, and at the end perhaps a dot.  If the root is a directory
or belongs in one, then a call that receives a file changes nothing but what lies at or below the
root; otherwise it makes the directories that are missing on the way to the root as well.  A text is
refused exactly if there is a name between its slashes that climbs. -/
theorem receiveReady_below (root : String) :
    (∀ text e, resolveUnder root text = .error e ↔
      e = .invalidPath text ∧ ".." ∈ (Text.pieces '/' text.toList).map String.ofList) ∧
    (∀ storage text mode resume want,
      ∀ p ∈ (prepareSendAt root storage text mode resume want).1, ∃ names, Within root names p) ∧
    ∀ storage directory mode filename offset,
      let ready := prepareReceiveAt root storage directory mode filename offset
      (∀ p ∈ ready.1, ∃ names, Within root names p) ∧
      ∀ (t : FileTransfer) net peer elapsed,
        let after := (t.receiveReady net peer elapsed ready.2).2.1
        ChangedBelow root storage after ∧
        (HasParent root storage → ∀ l, after.get? l ≠ storage.get? l → Below root l) := by
  refine ⟨resolveUnder_eq_error_iff root, fun storage text mode resume want _ hp =>
    within_prepareSendAt hp, ?_⟩
  intro storage directory mode filename offset ready
  refine ⟨fun _ hp => within_prepareReceiveAt hp, fun t net peer elapsed => ?_⟩
  have changed := changedBelow_receiveReady t net peer elapsed root storage directory mode filename
    offset
  exact ⟨changed, fun rooted _ ne => changed.below rooted ne⟩

def sharedRoot : Storage := Storage.empty.put ["srv"] .directory

def listening : FileTransfer := { connection := .passive ⟨.v4 127 0 0 1, 7100, {}, true, false⟩ }

open Pathname FileTransfer in
/-- A root that is not there yet is made in the directory that is, and a text with the shape of an
absolute path leads below it. -/
theorem receiveReady_below_sharedRoot :
    (prepareReceiveAt "/srv/data" sharedRoot "//etc/./ssl/" .binary "key" 0).1 =
      ["/srv/data/etc/ssl", "/srv/data/etc/ssl/key"] ∧
    (∃ names, Within "/srv/data" names "/srv/data/etc/ssl/key") ∧
    (listening.receiveReady { reach := .loopback } none 0
      (prepareReceiveAt "/srv/data" sharedRoot "//etc/./ssl/" .binary "key" 0).2).2.1.get?
        ["srv", "data"] = some .directory ∧
    Below "/srv/data" ["srv", "data"] ∧
    resolveUnder "/srv/data" "etc/../../key" = .error (.invalidPath "etc/../../key") := by
  obtain ⟨refused, -, received⟩ := receiveReady_below "/srv/data"
  obtain ⟨asked, called⟩ := received sharedRoot "//etc/./ssl/" .binary "key" 0
  obtain ⟨-, below⟩ := called listening { reach := .loopback } none 0
  have paths : (prepareReceiveAt "/srv/data" sharedRoot "//etc/./ssl/" .binary "key" 0).1 =
      ["/srv/data/etc/ssl", "/srv/data/etc/ssl/key"] := by decide +kernel
  have made : (listening.receiveReady { reach := .loopback } none 0
      (prepareReceiveAt "/srv/data" sharedRoot "//etc/./ssl/" .binary "key" 0).2).2.1.get?
        ["srv", "data"] = some .directory := by decide +kernel
  have missing : sharedRoot.get? ["srv", "data"] = none := by decide +kernel
  have parent : HasParent "/srv/data" sharedRoot :=
    .inr ⟨["srv"], by decide +kernel, by decide +kernel, by decide +kernel⟩
  refine ⟨paths, asked _ ?_, made, below parent _ ?_, (refused _ _).2 ⟨rfl, by decide⟩⟩
  · rw [paths]
    decide
  · rw [made, missing]
    exact Option.some_ne_none _

open Pathname FileTransfer in
/-- A root without a parent is given one, which does not lie below the root. -/
theorem receiveReady_not_below :
    ¬ ∀ root storage directory mode filename offset (t : FileTransfer) net peer elapsed l,
      (t.receiveReady net peer elapsed
        (prepareReceiveAt root storage directory mode filename offset).2).2.1.get? l ≠
          storage.get? l → Below root l := by
  intro all
  have made : (listening.receiveReady { reach := .loopback } none 0
      (prepareReceiveAt "/srv/fleetfs" .empty "rls" .binary "a" 0).2).2.1.get? ["srv"] =
        some .directory := by decide +kernel
  obtain ⟨names, -, eq⟩ := all "/srv/fleetfs" .empty "rls" .binary "a" 0 listening
    { reach := .loopback } none 0 ["srv"] (by rw [made]; decide)
  have longer := congrArg List.length eq
  rw [List.length_append] at longer
  have deep : (location (parts "/srv/fleetfs")).length = 2 := by decide
  rw [deep] at longer
  simp at longer
  omega

end Archivist
