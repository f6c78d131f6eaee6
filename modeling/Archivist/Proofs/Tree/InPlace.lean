import Archivist.Proofs.Tree.Reached
set_option autoImplicit false

/-!
# Changing a tree in place

An operation reads the tree, may give up, and writes one entry after the other; what it has written
when it gives up stays.  `perform` is each operation in this form, and `on_perform` says that it does
what the operation does on whole trees, so that one which gives up has written nothing.  Any number
of them, those that give up among them, keep a tree whole.
-/

namespace Archivist.Namespace

/-- Reads and writes one tree; a failure does not take back what has been written. -/
abbrev InPlace (α : Type) := ExceptT ArchiveError (StateM Namespace) α

def InPlace.on {α : Type} (x : InPlace α) (ns : Namespace) : Except ArchiveError α × Namespace :=
  (ExceptT.run x).run ns

namespace InPlace

variable {α β : Type}

theorem on_bind (x : InPlace α) (f : α → InPlace β) (ns : Namespace) :
    (x >>= f).on ns =
      match x.on ns with
      | (.ok a, ns') => (f a).on ns'
      | (.error e, ns') => (.error e, ns') := by
  unfold on
  simp only [ExceptT.run_bind, StateT.run_bind]
  rcases (ExceptT.run x).run ns with ⟨_ | _, _⟩
  · rfl
  · rfl

theorem on_get (ns : Namespace) : (get : InPlace Namespace).on ns = (.ok ns, ns) := rfl

theorem on_forM_modify (f : Namespace → Dir → Namespace) (ds : List Dir) (ns : Namespace) :
    (ds.forM fun d => (modify fun ns => f ns d : InPlace Unit)).on ns = (.ok (), ds.foldl f ns) := by
  induction ds generalizing ns with
  | nil => rfl
  | cons d ds ih => exact ih (f ns d)

end InPlace

inductive Change where
  | makeDirs (d : Dir) (created : Instant)
  | addFile (now : Instant) (path : String) (size : Nat) (holders : List String)
  | addReplica (path node : String)
  | removeNode (node : String)
  | rename (now : Instant) (source target : Dir)

namespace Change

def apply (ns : Namespace) : Change → Except ArchiveError Namespace
  | makeDirs d created => .ok (ns.makeDirs d created)
  | addFile now path size holders => .ok (ns.addFile now path size holders)
  | addReplica path node => ns.addReplica path node
  | removeNode node => .ok (ns.removeNode node)
  | rename now source target => ns.rename now source target

def addReplicaInPlace (path node : String) : InPlace Unit := do
  let target := Dir.ofText path
  let ns ← get
  match ns.file? path with
  | none => throw (notFound path)
  | some _ => modify fun ns => ns.update (target.parent?.getD .root) fun info =>
      { info with files := updateFirst target.text (addHolder node) info.files }

/-- Writes the entries below the source one by one, and only then what is above the target. -/
def renameInPlace (now : Instant) (source target : Dir) : InPlace Unit := do
  let ns ← get
  if !ns.exists? source then throw (notFound source.text)
  else if ns.exists? target then throw (.namespace (.alreadyExists target))
  else do
    ((ns.dirs.map (·.1)).filter source.contains).forM fun d =>
      modify fun ns => moveOne source target ns d
    modify fun ns =>
      match target.parent? with
      | some parent => ns.makeDirs parent now
      | none => ns

def perform : Change → InPlace Unit
  | makeDirs d created => modify (·.makeDirs d created)
  | addFile now path size holders => modify (·.addFile now path size holders)
  | addReplica path node => addReplicaInPlace path node
  | removeNode node => modify (·.removeNode node)
  | rename now source target => renameInPlace now source target

theorem on_addReplicaInPlace (path node : String) (ns : Namespace) :
    (addReplicaInPlace path node).on ns =
      match ns.addReplica path node with
      | .ok ns' => (.ok (), ns')
      | .error e => (.error e, ns) := by
  unfold addReplicaInPlace Namespace.addReplica
  dsimp only
  rw [InPlace.on_bind, InPlace.on_get]
  dsimp only
  cases ns.file? path with
  | none => rfl
  | some f => rfl

theorem on_renameInPlace (now : Instant) (source target : Dir) (ns : Namespace) :
    (renameInPlace now source target).on ns =
      match ns.rename now source target with
      | .ok ns' => (.ok (), ns')
      | .error e => (.error e, ns) := by
  unfold renameInPlace Namespace.rename
  rw [InPlace.on_bind, InPlace.on_get]
  dsimp only
  split
  · rfl
  · split
    · rfl
    · rw [InPlace.on_bind, InPlace.on_forM_modify]
      rfl

/-- A change in place does what it does to the whole tree, or gives up and has written nothing. -/
theorem on_perform (c : Change) (ns : Namespace) :
    c.perform.on ns =
      match c.apply ns with
      | .ok ns' => (.ok (), ns')
      | .error e => (.error e, ns) := by
  cases c with
  | makeDirs d created => rfl
  | addFile now path size holders => rfl
  | addReplica path node => exact on_addReplicaInPlace path node ns
  | removeNode node => rfl
  | rename now source target => exact on_renameInPlace now source target ns

def LeavesRoot : Change → Prop
  | rename _ source _ => source ≠ .root
  | _ => True

instance : DecidablePred LeavesRoot := fun c =>
  match c with
  | rename _ source _ => inferInstanceAs (Decidable (source ≠ .root))
  | makeDirs _ _ | addFile _ _ _ _ | addReplica _ _ | removeNode _ => .isTrue trivial

theorem reached_apply {c : Change} (rooted : c.LeavesRoot) {ns ns' : Namespace}
    (h : ns.Reached) (ok : c.apply ns = .ok ns') : ns'.Reached := by
  cases c with
  | makeDirs d created =>
    rw [← Except.ok.inj ok]
    exact h.makeDirs d created
  | addFile now path size holders =>
    rw [← Except.ok.inj ok]
    exact h.addFile now path size holders
  | addReplica path node => exact h.addReplica ok
  | removeNode node =>
    rw [← Except.ok.inj ok]
    exact h.removeNode node
  | rename now source target => exact h.rename rooted ok

theorem reached_perform {c : Change} (rooted : c.LeavesRoot) {ns : Namespace} (h : ns.Reached) :
    (c.perform.on ns).2.Reached := by
  rw [on_perform]
  cases ok : c.apply ns with
  | ok ns' => exact reached_apply rooted h ok
  | error e => exact h

/-- Makes changes one after the other, whether or not those before have given up. -/
def performAll (cs : List Change) (ns : Namespace) : Namespace :=
  cs.foldl (fun ns c => (c.perform.on ns).2) ns

theorem reached_performAll {cs : List Change} (rooted : ∀ c ∈ cs, c.LeavesRoot) {ns : Namespace}
    (h : ns.Reached) : (performAll cs ns).Reached := by
  induction cs generalizing ns with
  | nil => exact h
  | cons c cs ih =>
    have first := reached_perform (rooted c List.mem_cons_self) h
    exact ih (fun x hx => rooted x (List.mem_cons_of_mem _ hx)) first

end Change

end Archivist.Namespace

namespace Archivist

open Namespace

/-- After any changes to the empty tree, whether they succeed or not and as long as none moves the
root, the tree has a root, no directory is listed twice or stands without the one above it, every
file has a path in normal form that leads into its directory, and no path is there twice.  A change
that fails leaves the tree as it was. -/
theorem performAll_leavesRoot (cs : List Change) (rooted : ∀ c ∈ cs, c.LeavesRoot) :
    let ns := Change.performAll cs .empty
    ns.exists? .root = true ∧ ns.keys.Nodup ∧
    (∀ d p, ns.exists? d = true → d.parent? = some p → ns.exists? p = true) ∧
    (∀ e ∈ ns.dirs, ∀ f ∈ e.2.files, (Dir.ofText f.path).text = f.path ∧ f.directory = e.1) ∧
    (ns.allFiles.map (·.path)).Nodup ∧
    ∀ (c : Change) (e : ArchiveError), (c.perform.on ns).1 = .error e →
      (c.perform.on ns).2 = ns := by
  intro ns
  have wf : ns.WellFormed := (Change.reached_performAll rooted .empty).wellFormed
  refine ⟨wf.root, wf.keys, wf.parents, ?_, wf.paths_allFiles, ?_⟩
  · intro e he f hf
    have filed := wf.filed e.1 e.2 ((get?_eq_some_of_mem wf.keys).2 he) f hf
    exact ⟨filed.normal, filed.directory⟩
  · intro c e failed
    rw [Change.on_perform] at failed ⊢
    cases made : c.apply ns with
    | ok ns' =>
      rw [made] at failed
      cases failed
    | error e' => rfl

def reshuffle : List Change :=
  [.addFile 0 "/rls/T/a" 1 ["n1"], .addFile 0 "//rls/T/CD1/b/" 2 [],
    .rename 1 (Dir.ofText "/rls/T") (Dir.ofText "/rls/T/old/T"), .addReplica "/rls/T/a" "n2",
    .addReplica "/rls/T/old/T/CD1/b" "n2"]

theorem performAll_reshuffle :
    let ns := Change.performAll reshuffle .empty
    (∀ c ∈ reshuffle, c.LeavesRoot) ∧ ns.dirs.length = 6 ∧
      ns.allFiles = [⟨"/rls/T/old/T/a", 1, ["n1"]⟩, ⟨"/rls/T/old/T/CD1/b", 2, ["n2"]⟩] ∧
      (ns.allFiles.map (·.path)).Nodup ∧
      ((Change.addReplica "/rls/T/a" "n2").perform.on ns).2 = ns := by
  intro ns
  have rooted : ∀ c ∈ reshuffle, c.LeavesRoot := by decide +kernel
  obtain ⟨-, -, -, -, once, undone⟩ := performAll_leavesRoot reshuffle rooted
  refine ⟨rooted, by decide +kernel, by decide +kernel, once, undone _ (notFound "/rls/T/a") ?_⟩
  decide +kernel

end Archivist
