import Archivist.Proofs.Storage.Sparing
import Archivist.Proofs.Transfer.Rooted
set_option autoImplicit false

namespace Archivist

namespace FileTransfer

open Storage

/-- Where a receiver puts its file, if it may use the directory and the name. -/
def target (directory filename : String) : Option Location :=
  if Location.isFileName filename = true ∧ filename ≠ "." then
    (Location.resolve directory).toOption.map (· ++ [filename])
  else none

theorem prepareReceive_eq_ok {s s' : Storage} {directory filename : String} {mode : TransferMode}
    {offset : UInt64} {task : TransferTask}
    (h : prepareReceive s directory mode filename offset = (s', .ok task)) :
    ∃ parent, Location.isFileName filename = true ∧ filename ≠ "." ∧
      Location.resolve directory = .ok parent ∧
      task = .receive (parent ++ [filename]) mode ∧
      s'.Holds (parent ++ [filename])
        (resize offset.toNat (s.bytesAt (parent ++ [filename]))) := by
  rw [prepareReceive_eq] at h
  split at h
  · cases h
  · rename_i name
    split at h
    · cases h
    · rename_i parent resolved
      split at h
      · cases h
      · rename_i made along
        split at h
        · cases h
        · rename_i plain
          split at h
          · cases h
          · rename_i opened
            split at h
            · cases h
            · rename_i cut
              have before : made.bytesAt (parent ++ [filename]) =
                  s.bytesAt (parent ++ [filename]) := by
                have spared := spares_makeDirectories [] s parent
                rw [along] at spared
                exact spared.bytesAt (by simp)
              have held := holds_openFile (by simp) opened
              rw [before] at held
              have ready := holds_setLength held cut
              cases h
              refine ⟨parent, ?_, plain, resolved, rfl, ready⟩
              simpa using name

/-- Getting ready touches no file but the target. -/
theorem spares_prepareReceive (s : Storage) {directory filename : String} (mode : TransferMode)
    (offset : UInt64) {place : Location} (aim : ∀ l, target directory filename = some l → l = place) :
    Spares place s (prepareReceive s directory mode filename offset).1 := by
  rw [prepareReceive_eq]
  split
  · exact .refl _ _
  · rename_i name
    split
    · exact .refl _ _
    · rename_i parent resolved
      have made := spares_makeDirectories place s parent
      split
      · rename_i failed
        rwa [failed] at made
      · rename_i along
        rw [along] at made
        split
        · exact made
        · rename_i plain
          obtain rfl : parent ++ [filename] = place := aim _ (by
            rw [target, if_pos ⟨by simpa using name, plain⟩, resolved]
            rfl)
          have opened := made.trans (spares_openFile (by simp) _)
          split
          · rename_i failed
            rwa [failed] at opened
          · rename_i there
            rw [there] at opened
            have cut := opened.trans (spares_setLength (by simp) _ offset.toNat)
            split
            · rename_i failed
              rwa [failed] at cut
            · rename_i done
              rwa [done] at cut

theorem prepareSend_eq_ok {s : Storage} {path : String} {mode : TransferMode} {resume : UInt64}
    {want : Bool} {task : TransferTask}
    (h : prepareSend s path mode resume want = .ok task) :
    ∃ location content, Location.resolve path = .ok location ∧ task = .send content mode want ∧
      ∀ bytes, content = .ok bytes →
        ∃ whole, s.Holds location whole ∧ bytes = whole.drop resume.toNat := by
  rw [prepareSend_eq] at h
  cases resolved : Location.resolve path with
  | error e =>
    rw [resolved] at h
    cases h
  | ok location =>
    rw [resolved] at h
    dsimp only at h
    split at h
    · cases h
    · rename_i item found
      unfold sendItem at h
      split at h
      · cases h
      · cases item with
        | directory =>
          refine ⟨location, .error .isDirectory, rfl, (Except.ok.inj h).symm, ?_⟩
          intro bytes eq
          cases eq
        | file whole =>
          refine ⟨location, .ok (whole.drop resume.toNat), rfl, (Except.ok.inj h).symm, ?_⟩
          intro bytes eq
          exact ⟨whole, holds_of_openItem found, (Except.ok.inj eq).symm⟩

theorem prepareSend_of_holds {s : Storage} {path : String} {l : Location} {content : List UInt8}
    (place : Location.resolve path = .ok l) (held : s.Holds l content) (mode : TransferMode)
    {resume : UInt64} (reachable : resume.toNat ≤ maxLength) (want : Bool) :
    prepareSend s path mode resume want =
      .ok (.send (.ok (content.drop resume.toNat)) mode want) := by
  rw [prepareSend_eq, place]
  dsimp only
  rw [openItem_of_holds held]
  dsimp only
  rw [sendItem, if_neg (Nat.not_lt.2 reachable)]

theorem prepareReceive_of_holds {s : Storage} {directory name : String} {parent : Location}
    {content : List UInt8} (named : Location.isFileName name = true) (plain : name ≠ ".")
    (place : Location.resolve directory = .ok parent) (held : s.Holds (parent ++ [name]) content)
    (mode : TransferMode) {offset : UInt64} (reachable : offset.toNat ≤ maxLength) :
    ∃ ready, prepareReceive s directory mode name offset =
        (ready, .ok (.receive (parent ++ [name]) mode)) ∧
      ready.Holds (parent ++ [name]) (resize offset.toNat content) := by
  refine ⟨_, ?_, held.put _⟩
  rw [prepareReceive_eq]
  rw [if_neg (by simp [named]), place]
  dsimp only
  rw [makeDirectories_of_holds held]
  dsimp only
  rw [if_neg plain, openFile_of_holds held]
  dsimp only
  rw [setLength_of_holds held reachable]

end FileTransfer
end Archivist
