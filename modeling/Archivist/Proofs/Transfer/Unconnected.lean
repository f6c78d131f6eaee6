import Archivist.Control.NodeWorker
import Archivist.Proofs.Transfer.Reception
set_option autoImplicit false

namespace Archivist

namespace FileTransfer

open Storage

variable {storage : Storage} {directory filename : String} {offset : UInt64} {l : Location}
  {content : List UInt8}

/-- What becomes of a file when a receiver gets ready: only the target is cut, and only at an offset
that a file can have. -/
def cutFor (directory filename : String) (offset : UInt64) (l : Location) (content : List UInt8) :
    List UInt8 :=
  if target directory filename = some l ∧ offset.toNat ≤ maxLength then
    resize offset.toNat content
  else content

theorem target_eq_some (aim : target directory filename = some l) :
    Location.isFileName filename = true ∧ filename ≠ "." ∧
      ∃ parent, Location.resolve directory = .ok parent ∧ l = parent ++ [filename] := by
  unfold target at aim
  split at aim
  · rename_i usable
    cases resolved : Location.resolve directory with
    | error e =>
      rw [resolved] at aim
      cases aim
    | ok parent =>
      rw [resolved] at aim
      exact ⟨usable.1, usable.2, parent, rfl, (Option.some.inj aim).symm⟩
  · cases aim

theorem setLength_of_large (s : Storage) (l : Location) {n : Nat} (large : maxLength < n) :
    ∃ e, s.setLength l n = (s, .error e) := by
  by_cases huge : Word.bound63 ≤ n
  · exact ⟨_, if_pos huge⟩
  · exact ⟨_, (if_neg huge).trans (if_pos large)⟩

theorem prepareReceive_of_large {parent : Location}
    (named : Location.isFileName filename = true) (plain : filename ≠ ".")
    (resolved : Location.resolve directory = .ok parent)
    (held : storage.Holds (parent ++ [filename]) content) (mode : TransferMode)
    (large : maxLength < offset.toNat) :
    (prepareReceive storage directory mode filename offset).1 = storage := by
  rw [prepareReceive_eq, if_neg (by simp [named]), resolved]
  dsimp only
  rw [makeDirectories_of_holds held]
  dsimp only
  rw [if_neg plain, openFile_of_holds held]
  dsimp only
  obtain ⟨e, kept⟩ := setLength_of_large storage (parent ++ [filename]) large
  rw [kept]

theorem holds_prepareReceive (held : storage.Holds l content) (directory : String)
    (mode : TransferMode) (filename : String) (offset : UInt64) :
    (prepareReceive storage directory mode filename offset).1.Holds l
      (cutFor directory filename offset l content) := by
  by_cases aim : target directory filename = some l
  · obtain ⟨named, plain, parent, resolved, rfl⟩ := target_eq_some aim
    by_cases fits : offset.toNat ≤ maxLength
    · obtain ⟨ready, prepared, cut⟩ :=
        prepareReceive_of_holds named plain resolved held mode fits
      rw [prepared, cutFor, if_pos ⟨aim, fits⟩]
      exact cut
    · rw [prepareReceive_of_large named plain resolved held mode (Nat.lt_of_not_le fits), cutFor,
        if_neg fun both => fits both.2]
      exact held
  · rw [cutFor, if_neg fun both => aim both.1]
    -- Without a target nothing is written, and the root stands for the place that may change.
    have other : l ≠ (target directory filename).getD [] := by
      intro eq
      cases place : target directory filename with
      | none =>
        rw [place] at eq
        exact held.ne_nil eq
      | some l' =>
        rw [place] at eq aim
        exact aim (congrArg some eq.symm)
    refine held.spared other (spares_prepareReceive storage mode offset ?_)
    intro l' place
    rw [place]
    rfl

/-- The call ends before its data connection stands: there is none, or its file cannot be got
ready. -/
def EndsEarly (t : FileTransfer) (storage : Storage) (net : Network)
    (peer : Option (List (List UInt8))) (directory : String) (mode : TransferMode)
    (filename : String) (offset : UInt64) : Prop :=
  t.Connects net peer → ∃ e, (prepareReceive storage directory mode filename offset).2 = .error e

theorem receiveFile_of_endsEarly {t : FileTransfer} {net : Network}
    {peer : Option (List (List UInt8))} {mode : TransferMode}
    (early : t.EndsEarly storage net peer directory mode filename offset) (elapsed : UInt64) :
    ∃ t' e, t.receiveFile storage net peer directory mode filename offset elapsed =
      (t', (prepareReceive storage directory mode filename offset).1, .error e) := by
  by_cases connects : t.Connects net peer
  · obtain ⟨e, failed⟩ := early connects
    refine ⟨t, e, ?_⟩
    rw [receiveFile]
    rcases prepared : prepareReceive storage directory mode filename offset with ⟨after, result⟩
    rw [prepared] at failed
    obtain rfl : result = .error e := failed
    rfl
  · exact receiveFile_of_not_connects connects directory mode filename offset elapsed

end FileTransfer

namespace NodeWorker

open FileTransfer

/-- What a worker comes to while nobody dials its data channel. -/
inductive Undialled (s : NodeWorker) : NodeWorker → Prop where
  | refl : Undialled s s
  | abort {s' : NodeWorker} (h : Undialled s s') : Undialled s s'.abort
  | poll {s' : NodeWorker} (h : Undialled s s') : Undialled s s'.poll.2
  | expire {s' : NodeWorker} (h : Undialled s s') : Undialled s s'.expire.2

theorem Undialled.storage_eq {s s' : NodeWorker} (h : s.Undialled s') : s'.storage = s.storage := by
  have closed : ∀ s : NodeWorker, s.close.storage = s.storage := by
    intro s
    unfold close
    split <;> rfl
  induction h with
  | refl => rfl
  | abort _ ih =>
    rw [← ih]
    unfold NodeWorker.abort
    dsimp only
    split <;> exact closed _
  | poll _ ih => exact ih
  | expire _ ih =>
    rw [← ih]
    unfold NodeWorker.expire
    split
    · exact closed _
    · rfl

theorem storage_start_receiveFile {s : NodeWorker} (nobody : s.peer = none) {directory : String}
    {mode : TransferMode} {filename : String} {offset : UInt64}
    (early : s.transfer.EndsEarly s.storage s.network none directory mode filename offset) :
    (s.start (.receiveFile directory mode filename offset)).storage =
      (prepareReceive s.storage directory mode filename offset).1 := by
  unfold start
  dsimp only
  unfold EndsEarly at early
  rcases prepared : prepareReceive s.storage directory mode filename offset with ⟨after, e | task⟩
  · rfl
  · rw [prepared] at early
    dsimp only
    unfold connect
    dsimp only
    rcases used : s.transfer.attempt s.network with ⟨t, a⟩
    cases a with
    | failed e => rfl
    | connected =>
      obtain ⟨e, failed⟩ := early (.inl (by rw [used]))
      cases failed
    | waiting =>
      dsimp only
      rw [nobody]

end NodeWorker

open FileTransfer Storage in
/-- A call that ends before its data connection stands fails, and every file that was there is there
with its bytes, but for the one that the call was to write: it has been cut at the offset or filled
up to it with zeros, if a file can be that long.  A session whose data channel nobody dials does the
same, and neither an abort nor a time limit adds to it. -/
theorem receiveFile_endsEarly (storage : Storage) (directory : String)
    (mode : TransferMode) (filename : String) (offset : UInt64) :
    (∀ (t : FileTransfer) (net : Network) (peer : Option (List (List UInt8))) (elapsed : UInt64),
      t.EndsEarly storage net peer directory mode filename offset →
        ∃ t' after e,
          t.receiveFile storage net peer directory mode filename offset elapsed =
            (t', after, .error e) ∧
          ∀ l content, storage.Holds l content →
            after.Holds l (cutFor directory filename offset l content)) ∧
      ∀ s : NodeWorker, s.storage = storage → s.peer = none →
        s.transfer.EndsEarly storage s.network none directory mode filename offset →
          ∀ later, (s.start (.receiveFile directory mode filename offset)).Undialled later →
            ∀ l content, storage.Holds l content →
              later.storage.Holds l (cutFor directory filename offset l content) := by
  constructor
  · intro t net peer elapsed early
    obtain ⟨t', e, ended⟩ := receiveFile_of_endsEarly early elapsed
    exact ⟨t', _, e, ended, fun l content held =>
      holds_prepareReceive held directory mode filename offset⟩
  · rintro s rfl nobody early later undialled l content held
    rw [undialled.storage_eq, NodeWorker.storage_start_receiveFile nobody early]
    exact holds_prepareReceive held directory mode filename offset

/-- The target itself may be lost: a transfer that was aborted before still empties it. -/
theorem receiveFile_not_kept :
    ¬ ∀ (t : FileTransfer) (storage : Storage) (net : Network)
        (peer : Option (List (List UInt8))) (directory : String) (mode : TransferMode)
        (filename : String) (offset elapsed : UInt64) (t' : FileTransfer) (after : Storage)
        (e : TransferError),
      t.Made → ¬ t.Connects net peer →
        t.receiveFile storage net peer directory mode filename offset elapsed =
          (t', after, .error e) →
        ∀ l content, storage.Holds l content → after.Holds l content := by
  intro kept
  let storage : Storage := ⟨[(["d"], .directory), (["d", "f"], .file [1, 2, 3])]⟩
  let listening : FileTransfer :=
    { connection := .passive ⟨.v4 127 0 0 1, 7100, {}, true, false⟩ }
  have made : listening.abort.Made := .abort (.fresh _)
  have alone : ¬ listening.abort.Connects { reach := .loopback } none := by
    rintro (connected | ⟨waiting, -⟩)
    · cases connected
    · cases waiting
  have named : Location.isFileName "f" = true := by decide +kernel
  have held : storage.Holds (["d"] ++ ["f"]) [1, 2, 3] := rfl
  obtain ⟨ready, prepared, cut⟩ := FileTransfer.prepareReceive_of_holds named (by decide +kernel)
    (show Location.resolve "d" = .ok ["d"] from rfl) held .binary
    (show (0 : UInt64).toNat ≤ Storage.maxLength by decide)
  have ended : listening.abort.receiveFile storage { reach := .loopback } none "d" .binary "f" 0 0 =
      (listening.abort, ready, .error .aborted) := by
    rw [FileTransfer.receiveFile, prepared]
    rfl
  have still := kept _ _ _ _ _ _ _ _ _ _ _ _ made alone ended ["d", "f"] [1, 2, 3] rfl
  cases cut.symm.trans still

theorem receiveFile_endsEarly_refused :
    ∃ t' after e,
      FileTransfer.receiveFile
          { connection := .active { address := .v4 127 0 0 1 7100 } }
          ⟨[(["d"], .directory), (["d", "f"], .file [1, 2, 3]), (["d", "g"], .file [4])]⟩
          { reach := .loopback } none "d" .binary "f" 0 0 = (t', after, .error e) ∧
        after.Holds ["d", "f"] [] ∧ after.Holds ["d", "g"] [4] := by
  obtain ⟨calls, -⟩ := receiveFile_endsEarly
    ⟨[(["d"], .directory), (["d", "f"], .file [1, 2, 3]), (["d", "g"], .file [4])]⟩ "d" .binary "f" 0
  obtain ⟨t', after, e, ended, files⟩ :=
    calls { connection := .active { address := .v4 127 0 0 1 7100 } } { reach := .loopback } none 0
      (by
        rintro (connected | ⟨waiting, -⟩)
        · cases connected
        · cases waiting)
  have cut := files ["d", "f"] [1, 2, 3] rfl
  have kept := files ["d", "g"] [4] rfl
  have aim : FileTransfer.target "d" "f" = some ["d", "f"] := by decide +kernel
  rw [FileTransfer.cutFor, if_pos ⟨aim, by decide⟩] at cut
  rw [FileTransfer.cutFor, aim, if_neg (by decide +kernel)] at kept
  exact ⟨t', after, e, ended, cut, kept⟩

end Archivist
