import Archivist.Proofs.Transfer.Containment
import Archivist.Proofs.Tree.Listing
set_option autoImplicit false

/-!
# Files that share a place

A tree of directories keeps every name of a path, and a node passes over the dots among them.  So a
copy of a file goes to the place from which it is read, and two files go to different places unless
their paths differ in nothing but dots; then a copy of the one is written over the other, and the
tree goes on to say that the node holds both.
-/

namespace Archivist

namespace FileEntry

/-- The names of a file's path but the dots among them. -/
def undotted (f : FileEntry) : Location := (Dir.names f.path).filter (· ≠ ".")

/-- A node does not refuse the directory and the name of the file. -/
structure Taken (f : FileEntry) : Prop where
  name : Location.isFileName f.name = true
  directory : ∃ parent, Location.resolve f.directory.text = .ok parent

variable {f : FileEntry}

theorem Taken.resolve_path (taken : f.Taken) (plain : f.name ≠ ".") :
    Location.resolve f.path = .ok f.undotted := by
  obtain ⟨parent, resolved⟩ := taken.directory
  have whole := FileEntry.resolve_path taken.name plain resolved
  rw [whole, (Location.resolve_eq_ok whole).2, Location.names_eq, undotted]

theorem Taken.target (taken : f.Taken) (plain : f.name ≠ ".") :
    FileTransfer.target f.directory.text f.name = some f.undotted := by
  obtain ⟨parent, resolved⟩ := taken.directory
  have whole := FileEntry.resolve_path taken.name plain resolved
  rw [FileTransfer.target_eq taken.name plain resolved]
  exact congrArg some (Except.ok.inj (whole.symm.trans (taken.resolve_path plain)))

theorem undotted_eq_names (clean : "." ∉ Dir.names f.path) : f.undotted = Dir.names f.path :=
  List.filter_eq_self.2 fun _ hn => decide_eq_true fun dot => clean (dot ▸ hn)

theorem Taken.aim (taken : f.Taken) {l : Location} (ne : l ≠ [])
    (apart : f.name = "." ∨ f.undotted ≠ l) :
    ∃ place, (∀ m, FileTransfer.target f.directory.text f.name = some m → m = place) ∧
      l ≠ place := by
  by_cases dot : f.name = "."
  · refine ⟨[], fun m aims => ?_, ne⟩
    rw [FileTransfer.target, if_neg fun both => both.2 dot] at aims
    cases aims
  · refine ⟨f.undotted, fun m aims => ?_, (apart.resolve_left dot).symm⟩
    exact Option.some.inj (aims.symm.trans (taken.target dot))

end FileEntry

namespace Pathname

variable {f g : FileEntry}

theorem resolveUnder_directory (root : String) (taken : f.Taken) (plain : f.name ≠ ".") :
    (resolveUnder root f.directory.text).map (push · f.name) = resolveUnder root f.path := by
  obtain ⟨parent, resolved⟩ := taken.directory
  rw [resolveUnder_eq, resolveUnder_eq, FileEntry.resolve_path taken.name plain resolved, resolved]
  exact congrArg Except.ok (path_concat root parent f.name).symm

theorem resolveUnder_path_eq_iff (root : String) (takenF : f.Taken) (plainF : f.name ≠ ".")
    (takenG : g.Taken) (plainG : g.name ≠ ".") :
    resolveUnder root f.path = resolveUnder root g.path ↔ f.undotted = g.undotted := by
  have placeF := takenF.resolve_path plainF
  have placeG := takenG.resolve_path plainG
  rw [resolveUnder_eq, resolveUnder_eq, placeF, placeG,
    ← path_inj root (leadsDown_of_resolve placeF) (leadsDown_of_resolve placeG)]
  exact ⟨fun same => Except.ok.inj same, fun same => congrArg Except.ok same⟩

end Pathname

namespace FileTransfer

variable {directory filename : String} {l place : Location} {content : List UInt8}

theorem spares_receiveFile (t : FileTransfer) (storage : Storage) (net : Network)
    (peer : Option (List (List UInt8))) (mode : TransferMode) (offset elapsed : UInt64)
    (aim : ∀ l, target directory filename = some l → l = place) :
    Storage.Spares place storage
      (t.receiveFile storage net peer directory mode filename offset elapsed).2.1 := by
  have ready := spares_prepareReceive storage mode offset aim
  unfold receiveFile receiveReady
  rcases prepared : prepareReceive storage directory mode filename offset with ⟨s, e | task⟩
  · rwa [prepared] at ready
  · rw [prepared] at ready
    obtain ⟨parent, name, plain, resolved, rfl, -⟩ := prepareReceive_eq_ok prepared
    obtain rfl : parent ++ [filename] = place := aim _ (target_eq name plain resolved)
    have ne : parent ++ [filename] ≠ [] := by simp
    dsimp only at ready ⊢
    split
    · exact ready
    · exact ready.trans (spares_runReceive ne _ _ _ _ _ _)
    · split
      · exact ready.trans (spares_runReceive ne _ _ _ _ _ _)
      · exact ready

theorem receiveFile_of_dot (t : FileTransfer) (storage : Storage) (net : Network)
    (peer : Option (List (List UInt8))) (directory : String) (mode : TransferMode)
    (offset elapsed : UInt64) :
    ∃ e, (t.receiveFile storage net peer directory mode "." offset elapsed).2.2 = .error e := by
  unfold receiveFile receiveReady
  rcases prepared : prepareReceive storage directory mode "." offset with ⟨s, e | task⟩
  · exact ⟨e, rfl⟩
  · obtain ⟨_, -, plain, -⟩ := prepareReceive_eq_ok prepared
    exact absurd rfl plain

/-- A call that starts at the first byte and succeeds leaves nothing of what was at its target. -/
theorem holds_of_receiveFile_eq_ok {t t' : FileTransfer} {storage after : Storage} {net : Network}
    {arriving : List (List UInt8)} {mode : TransferMode} {elapsed : UInt64}
    {status : TransferStatus} (aim : target directory filename = some l)
    (h : t.receiveFile storage net (some arriving) directory mode filename 0 elapsed =
      (t', after, .ok status)) :
    after.Holds l (fromWire mode arriving.flatten) := by
  obtain ⟨parent, ready, aim', -, held, -, ran⟩ := receiveFile_eq_ok h
  obtain rfl : l = parent ++ [filename] := Option.some.inj (aim.symm.trans aim')
  have emptied : Storage.resize (0 : UInt64).toNat (storage.bytesAt (parent ++ [filename])) = [] :=
    List.length_eq_zero_iff.1 (Storage.length_resize _ _)
  rw [emptied] at held
  have stored := runReceive_eq_ok held ran
  rwa [List.nil_append] at stored

end FileTransfer

open FileTransfer Pathname in
/-- Two different files of a tree, both of which a node takes.  The path that a receiver writes for
the first is the one that a sender opens for it, unless its name is a dot, which no receiver writes
to.  The paths of both are the same exactly if the names of the files are the same without the dots
among them, so where there are none they differ.  If they differ, no call that receives the first
changes the bytes of the second; if they are the same, a call that succeeds leaves at the place of
the second the bytes of the first. -/
theorem resolveUnder_eq_iff_undotted {ns : Namespace}
    (reached : ns.Reached) {d e : Dir} {f g : FileEntry} (hf : ns.Stored d f) (hg : ns.Stored e g)
    (other : f.path ≠ g.path) (takenF : f.Taken) (takenG : g.Taken) :
    (f.name ≠ "." → ∀ root,
      (resolveUnder root f.directory.text).map (push · f.name) = resolveUnder root f.path ∧
      (g.name ≠ "." →
        (resolveUnder root f.path = resolveUnder root g.path ↔ f.undotted = g.undotted))) ∧
    ("." ∉ Dir.names f.path → "." ∉ Dir.names g.path → f.undotted ≠ g.undotted) ∧
    (f.name = "." → ∀ (t : FileTransfer) storage net peer mode offset elapsed, ∃ error,
      (t.receiveFile storage net peer f.directory.text mode f.name offset elapsed).2.2 =
        .error error) ∧
    (f.name = "." ∨ f.undotted ≠ g.undotted →
      ∀ storage content, storage.Holds g.undotted content →
        ∀ (t : FileTransfer) net peer mode offset elapsed,
          (t.receiveFile storage net peer f.directory.text mode f.name offset elapsed).2.1.Holds
            g.undotted content) ∧
    (f.name ≠ "." → f.undotted = g.undotted →
      ∀ (t : FileTransfer) storage net arriving mode elapsed t' after status,
        t.receiveFile storage net (some arriving) f.directory.text mode f.name 0 elapsed =
          (t', after, .ok status) →
        after.Holds g.undotted (fromWire mode arriving.flatten)) := by
  have wf := reached.wellFormed
  refine ⟨fun plain root => ⟨resolveUnder_directory root takenF plain,
    resolveUnder_path_eq_iff root takenF plain takenG⟩, ?_, ?_, ?_, ?_⟩
  · intro cleanF cleanG same
    rw [FileEntry.undotted_eq_names cleanF, FileEntry.undotted_eq_names cleanG] at same
    refine other ?_
    rw [← (hf.filedIn wf).normal, ← (hg.filedIn wf).normal]
    exact congrArg Dir.text (Dir.ext same)
  · intro dot t storage net peer mode offset elapsed
    rw [dot]
    exact receiveFile_of_dot t storage net peer _ mode offset elapsed
  · intro apart storage content held t net peer mode offset elapsed
    obtain ⟨place, aim, away⟩ := takenF.aim held.ne_nil apart
    exact held.spared away (spares_receiveFile t storage net peer mode offset elapsed aim)
  · intro plain same t storage net arriving mode elapsed t' after status h
    exact holds_of_receiveFile_eq_ok (same ▸ takenF.target plain) h

def dotted : Namespace :=
  (Namespace.empty.addFile 1 "/a/b" 1 ["n1", "n3"]).addFile 2 "/a/./b" 1 ["n2"]

theorem resolveUnder_dotted :
    dotted.Stored (Dir.ofText "/a") ⟨"/a/b", 1, ["n1", "n3"]⟩ ∧
      dotted.Stored (Dir.ofText "/a/.") ⟨"/a/./b", 1, ["n2"]⟩ ∧
      ∃ t' after status,
        FileTransfer.receiveFile { connection := .passive ⟨.v4 127 0 0 1, 7100, {}, true, false⟩ }
            ⟨[(["a"], .directory), (["a", "b"], .file [1])]⟩ { reach := .loopback } (some [[2]])
            "/a/." .binary "b" 0 0 = (t', after, .ok status) ∧
          Storage.Holds ⟨[(["a"], .directory), (["a", "b"], .file [1])]⟩ ["a", "b"] [1] ∧
          after.Holds ["a", "b"] [2] := by
  have reached : dotted.Reached := (Namespace.Reached.empty.addFile 1 _ _ _).addFile 2 _ _ _
  have first : dotted.Stored (Dir.ofText "/a") ⟨"/a/b", 1, ["n1", "n3"]⟩ := by
    refine ⟨(dotted.get? (Dir.ofText "/a")).get (by decide +kernel), ?_, by decide +kernel⟩
    exact (Option.some_get _).symm
  have second : dotted.Stored (Dir.ofText "/a/.") ⟨"/a/./b", 1, ["n2"]⟩ := by
    refine ⟨(dotted.get? (Dir.ofText "/a/.")).get (by decide +kernel), ?_, by decide +kernel⟩
    exact (Option.some_get _).symm
  have takenF : FileEntry.Taken ⟨"/a/./b", 1, ["n2"]⟩ :=
    ⟨by decide +kernel, ["a"], by decide +kernel⟩
  have takenG : FileEntry.Taken ⟨"/a/b", 1, ["n1", "n3"]⟩ :=
    ⟨by decide +kernel, ["a"], by decide +kernel⟩
  obtain ⟨-, -, -, -, overwritten⟩ := resolveUnder_eq_iff_undotted reached
    second first (by decide) takenF takenG
  have held : Storage.Holds ⟨[(["a"], .directory), (["a", "b"], .file [1])]⟩ (["a"] ++ ["b"]) [1] :=
    rfl
  obtain ⟨ready, prepared, cut⟩ := FileTransfer.prepareReceive_of_holds
    (show Location.isFileName "b" = true by decide +kernel) (by decide +kernel)
    (show Location.resolve "/a/." = .ok ["a"] by decide +kernel) held .binary
    (show (0 : UInt64).toNat ≤ Storage.maxLength by decide)
  let listening : FileTransfer :=
    { connection := .passive ⟨.v4 127 0 0 1, 7100, {}, true, false⟩ }
  have connects : listening.Connects { reach := .loopback } (some [[2]]) := .inr ⟨rfl, rfl, rfl⟩
  obtain ⟨t', after, status, ran, -⟩ := FileTransfer.runReceive_of_begin
    (t := (listening.attempt { reach := .loopback }).1) rfl cut .binary 0 [[2]]
  have call := (FileTransfer.receiveFile_of_connects connects prepared).trans ran
  refine ⟨first, second, t', after, status, call, held, ?_⟩
  exact overwritten (by decide +kernel) (by decide +kernel) listening _ { reach := .loopback }
    [[2]] .binary 0 t' after status call

end Archivist
