import Archivist.Proofs.Tree.Directory
import Archivist.Storage.Location
set_option autoImplicit false

namespace Archivist

theorem Location.names_eq (s : String) : Location.names s = (Dir.names s).filter (· ≠ ".") := by
  have dot : ∀ p : List Char, String.ofList p = "." ↔ p = ['.'] := by
    intro p
    rw [← String.toList_inj, String.toList_ofList]
    rfl
  unfold Location.names Dir.names
  rw [List.filter_map, List.filter_filter]
  congr 1
  apply List.filter_congr
  intro p _
  simp only [Function.comp, ne_eq, dot, Bool.decide_and, Bool.and_comm]

theorem Location.names_text (d : Dir) : Location.names d.text = d.parts.filter (· ≠ ".") := by
  rw [Location.names_eq, Dir.names_text]

theorem Location.resolve_eq_ok {s : String} {l : Location} (h : Location.resolve s = .ok l) :
    ".." ∉ l ∧ l = Location.names s := by
  unfold Location.resolve at h
  split at h
  · cases h
  · rename_i clean
    rw [← Except.ok.inj h]
    exact ⟨clean, rfl⟩

theorem FileEntry.names_path {f : FileEntry} (h : f.name ≠ "") :
    Dir.names f.path = f.directory.parts ++ [f.name] := by
  have split := List.dropLast_append_getLast (Text.pieces_ne_nil '/' f.path.toList)
  have last : f.name = String.ofList ((Text.pieces '/' f.path.toList).getLast
      (Text.pieces_ne_nil '/' f.path.toList)) := by
    rw [FileEntry.name, List.getLastD_eq_getLast?, List.getLast?_eq_some_getLast
      (Text.pieces_ne_nil '/' f.path.toList)]
    rfl
  have ends : ∃ front, Dir.names f.path = front ++ [f.name] := by
    have filled : (Text.pieces '/' f.path.toList).getLast
        (Text.pieces_ne_nil '/' f.path.toList) ≠ [] := by
      intro empty
      rw [last, empty] at h
      exact h rfl
    refine ⟨((Text.pieces '/' f.path.toList).dropLast.filter (· ≠ [])).map String.ofList, ?_⟩
    rw [Dir.names, ← split, List.filter_append, List.map_append, List.dropLast_concat,
      List.filter_cons_of_pos (by simpa using filled), last]
    rfl
  obtain ⟨front, eq⟩ := ends
  have parent : f.directory.parts = front := by
    have some : (Dir.ofText f.path).parts ≠ [] := by
      change Dir.names f.path ≠ []
      rw [eq]
      simp
    rw [FileEntry.directory, Dir.parent?, if_neg some, Option.getD_some]
    change (Dir.names f.path).dropLast = front
    rw [eq, List.dropLast_concat]
  rw [parent, eq]

theorem FileEntry.resolve_path {f : FileEntry} {parent : Location}
    (name : Location.isFileName f.name = true) (plain : f.name ≠ ".")
    (h : Location.resolve f.directory.text = .ok parent) :
    Location.resolve f.path = .ok (parent ++ [f.name]) := by
  obtain ⟨clean, eq⟩ := Location.resolve_eq_ok h
  simp only [Location.isFileName, Bool.and_eq_true, decide_eq_true_eq] at name
  obtain ⟨⟨filled, -⟩, upward⟩ := name
  have whole : Location.names f.path = parent ++ [f.name] := by
    rw [Location.names_eq, FileEntry.names_path filled, List.filter_append, ← Location.names_text,
      ← eq, List.filter_cons_of_pos (by simpa using plain), List.filter_nil]
  have below : ".." ∉ Location.names f.path := by
    rw [whole, List.mem_append, List.mem_singleton, not_or]
    exact ⟨clean, fun h => upward h.symm⟩
  rw [Location.resolve, if_neg below, whole]

end Archivist
