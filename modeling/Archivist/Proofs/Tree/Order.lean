import Archivist.Proofs.Tree.Reached
import Mathlib.Data.List.Sort
import Mathlib.Data.String.Basic
set_option autoImplicit false

namespace Archivist.Namespace

/-- The directories stand in the order of their texts, none twice. -/
def Ordered (ns : Namespace) : Prop := ns.keys.Pairwise fun d e => d.text < e.text

theorem keys_insertSorted_cons (d : Dir) (info : DirInfo) (x : Dir × DirInfo)
    (es : List (Dir × DirInfo)) :
    (insertSorted d info (x :: es)).map (·.1) =
      if x.1 = d then d :: es.map (·.1)
      else if d.le x.1 then d :: x.1 :: es.map (·.1)
      else x.1 :: (insertSorted d info es).map (·.1) := by
  rw [insertSorted]
  split
  · rfl
  · split <;> rfl

theorem mem_keys_insertSorted {d e : Dir} {info : DirInfo} {es : List (Dir × DirInfo)} :
    e ∈ (insertSorted d info es).map (·.1) ↔ e = d ∨ e ∈ es.map (·.1) := by
  induction es with
  | nil => simp [insertSorted]
  | cons x es ih =>
    rw [keys_insertSorted_cons, List.map_cons]
    split
    · rename_i here
      simp [here]
    · split
      · simp
      · rw [List.mem_cons, ih, List.mem_cons]
        exact or_left_comm

theorem pairwise_insertSorted {d : Dir} {info : DirInfo} {es : List (Dir × DirInfo)}
    (sorted : (es.map (·.1)).Pairwise fun d e => d.text < e.text) :
    ((insertSorted d info es).map (·.1)).Pairwise fun d e => d.text < e.text := by
  induction es with
  | nil => exact List.pairwise_singleton _ _
  | cons x es ih =>
    have all := sorted
    rw [List.map_cons, List.pairwise_cons] at sorted
    obtain ⟨first, rest⟩ := sorted
    rw [keys_insertSorted_cons]
    split
    · rename_i here
      rw [← here]
      exact all
    · rename_i other
      have ne : d.text ≠ x.1.text := fun same => other (Dir.text_inj.1 same).symm
      split
      · -- the new one comes before the first, and so before all
        rename_i before
        have less : d.text < x.1.text := lt_of_le_of_ne (of_decide_eq_true before) ne
        refine List.pairwise_cons.2 ⟨?_, all⟩
        intro e he
        rcases List.mem_cons.1 he with rfl | later
        · exact less
        · exact lt_trans less (first e later)
      · rename_i after
        have less : x.1.text < d.text :=
          lt_of_not_ge fun le => after (decide_eq_true le)
        refine List.pairwise_cons.2 ⟨?_, ih rest⟩
        intro e he
        rcases mem_keys_insertSorted.1 he with rfl | later
        · exact less
        · exact first e later

namespace Ordered

variable {ns ns' : Namespace}

protected theorem insert (h : ns.Ordered) (d : Dir) (info : DirInfo) : (ns.insert d info).Ordered :=
  pairwise_insertSorted h

protected theorem make (h : ns.Ordered) (created : Instant) (d : Dir) :
    (ns.make created d).Ordered := by
  unfold make
  split
  · exact h
  · exact h.insert d _

protected theorem makeDirs (h : ns.Ordered) (d : Dir) (created : Instant) :
    (ns.makeDirs d created).Ordered := by
  unfold makeDirs
  generalize Dir.root :: d.chain = ds
  induction ds generalizing ns with
  | nil => exact h
  | cons x ds ih => exact ih (h.make created x)

protected theorem erase (h : ns.Ordered) (d : Dir) : (ns.erase d).Ordered :=
  h.sublist (List.filter_sublist.map _)

theorem of_keys (h : ns.Ordered) (same : ns'.keys = ns.keys) : ns'.Ordered := by
  rw [Ordered, same]
  exact h

protected theorem moveOne (h : ns.Ordered) (source target d : Dir) :
    (moveOne source target ns d).Ordered := by
  unfold moveOne
  split
  · exact h
  · exact (h.erase d).insert _ _

theorem foldl_moveOne (h : ns.Ordered) (source target : Dir) (ds : List Dir) :
    (ds.foldl (moveOne source target) ns).Ordered := by
  induction ds generalizing ns with
  | nil => exact h
  | cons d ds ih => exact ih (h.moveOne source target d)

protected theorem rename (h : ns.Ordered) {now : Instant} {source target : Dir}
    (ok : ns.rename now source target = .ok ns') : ns'.Ordered := by
  obtain ⟨-, -, rfl⟩ := rename_eq_ok ok
  split
  · exact (h.foldl_moveOne _ _ _).makeDirs _ _
  · exact h.foldl_moveOne _ _ _

protected theorem addReplica (h : ns.Ordered) {path node : String}
    (ok : ns.addReplica path node = .ok ns') : ns'.Ordered := by
  unfold addReplica at ok
  dsimp only at ok
  split at ok
  · cases ok
  · rw [← Except.ok.inj ok]
    exact h.of_keys (keys_update _ _ _)

theorem children (h : ns.Ordered) (d : Dir) :
    (ns.children d).Pairwise fun a b => a.text < b.text :=
  List.Pairwise.filter _ h

end Ordered

theorem Reached.ordered {ns : Namespace} (h : Reached ns) : ns.Ordered := by
  induction h with
  | empty =>
    have hnone : bare.Ordered := List.Pairwise.nil
    exact hnone.makeDirs .root .epoch
  | makeDirs d created _ ih => exact ih.makeDirs d created
  | addFile now path size holders _ ih =>
    unfold Namespace.addFile
    exact (ih.makeDirs _ now).of_keys (keys_update _ _ _)
  | addReplica _ ok ih => exact ih.addReplica ok
  | removeNode node _ ih =>
    rw [removeNode_eq_mapFiles]
    exact ih.of_keys (keys_mapFiles _ _)
  | rename _ _ ok ih => exact ih.rename ok

theorem eq_of_ordered {ds es : List Dir} (hd : ds.Pairwise fun a b => a.text < b.text)
    (he : es.Pairwise fun a b => a.text < b.text) (mem : ∀ a, a ∈ ds ↔ a ∈ es) : ds = es := by
  have irrefl : Std.Irrefl fun a b : Dir => a.text < b.text := ⟨fun a => lt_irrefl a.text⟩
  have asymm : Std.Asymm fun a b : Dir => a.text < b.text := ⟨fun _ _ => lt_asymm⟩
  exact List.Pairwise.eq_of_mem_iff hd he mem

end Archivist.Namespace
