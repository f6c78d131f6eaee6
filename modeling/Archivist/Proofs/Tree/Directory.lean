import Archivist.Archive.Namespace
import Mathlib.Data.List.Basic
set_option autoImplicit false

namespace Archivist

namespace Text

theorem pieces_append (sep : Char) (a cs : List Char) :
    pieces sep (a ++ sep :: cs) = pieces sep a ++ pieces sep cs := by
  induction a with
  | nil => simp [pieces]
  | cons c a ih =>
    rw [List.cons_append, pieces, pieces]
    by_cases here : c = sep
    · rw [if_pos here, if_pos here, ih, List.cons_append]
    · rw [if_neg here, if_neg here, ih]
      cases found : pieces sep a with
      | nil => exact absurd found (pieces_ne_nil sep a)
      | cons p ps => rfl

end Text

namespace Dir

/-! ## Names in a text -/

def namesIn (cs : List Char) : List String :=
  ((Text.pieces '/' cs).filter (· ≠ [])).map String.ofList

theorem names_eq (s : String) : names s = namesIn s.toList := rfl

def spelled (ps : List String) : List Char := ps.flatMap fun p => '/' :: p.toList

theorem namesIn_append_slash (a cs : List Char) :
    namesIn (a ++ '/' :: cs) = namesIn a ++ namesIn cs := by
  simp only [namesIn, Text.pieces_append, List.filter_append, List.map_append]

theorem namesIn_name {p : String} (h : IsName p) : namesIn p.toList = [p] := by
  have ne : p.toList ≠ [] := by simpa using h.1
  rw [namesIn, Text.pieces_of_not_mem h.2, List.filter_cons_of_pos (by simpa using ne)]
  simp

theorem namesIn_append_spelled (a : List Char) {ps : List String} (h : ∀ p ∈ ps, IsName p) :
    namesIn (a ++ spelled ps) = namesIn a ++ ps := by
  induction ps generalizing a with
  | nil => simp [spelled]
  | cons p ps ih =>
    have rest := ih p.toList fun q hq => h q (by simp [hq])
    have cut : a ++ spelled (p :: ps) = a ++ '/' :: (p.toList ++ spelled ps) := by simp [spelled]
    rw [cut, namesIn_append_slash, rest, namesIn_name (h p (by simp)), List.singleton_append]

theorem namesIn_spelled {ps : List String} (h : ∀ p ∈ ps, IsName p) : namesIn (spelled ps) = ps :=
  namesIn_append_spelled [] h

theorem spelled_append (ps qs : List String) : spelled (ps ++ qs) = spelled ps ++ spelled qs :=
  List.flatMap_append

theorem cons_intercalate_toList (p : String) (ps : List String) :
    '/' :: ("/".intercalate (p :: ps)).toList = spelled (p :: ps) := by
  induction ps generalizing p with
  | nil => simp [spelled]
  | cons q ps ih =>
    rw [String.intercalate_cons_cons, String.toList_append, String.toList_append]
    have rest := ih q
    simp only [spelled, List.flatMap_cons] at rest ⊢
    rw [← rest]
    simp

theorem toList_text {d : Dir} (h : d ≠ root) : d.text.toList = spelled d.parts := by
  cases hp : d.parts with
  | nil => exact absurd (Dir.ext hp) h
  | cons p ps => rw [text, String.toList_append, hp, ← cons_intercalate_toList]; rfl

@[simp] theorem names_text (d : Dir) : names d.text = d.parts := by
  by_cases h : d = root
  · subst h; decide
  · rw [names_eq, toList_text h, namesIn_spelled d.proper]

@[simp] theorem ofText_text (d : Dir) : ofText d.text = d := Dir.ext (names_text d)

theorem text_inj {a b : Dir} : a.text = b.text ↔ a = b := by
  constructor
  · intro h
    rw [← ofText_text a, h, ofText_text]
  · exact congrArg text

/-! ## Above and below -/

theorem parent?_eq_none {d : Dir} : d.parent? = none ↔ d = root := by
  unfold parent?
  by_cases h : d.parts = []
  · have eq : d = root := Dir.ext h
    simp [eq]
  · rw [if_neg h]
    simp only [reduceCtorEq, false_iff]
    rintro rfl
    exact h rfl

theorem parent?_eq_some {d p : Dir} : d.parent? = some p ↔ ∃ n, d.parts = p.parts ++ [n] := by
  unfold parent?
  by_cases h : d.parts = []
  · simp [h]
  · rw [if_neg h, Option.some.injEq]
    constructor
    · rintro rfl
      exact ⟨d.parts.getLast h, (List.dropLast_append_getLast h).symm⟩
    · rintro ⟨n, hn⟩
      apply Dir.ext
      change d.parts.dropLast = p.parts
      rw [hn, List.dropLast_concat]

theorem length_parent {d p : Dir} (h : d.parent? = some p) :
    d.parts.length = p.parts.length + 1 := by
  obtain ⟨n, hn⟩ := parent?_eq_some.1 h
  rw [hn, List.length_append, List.length_singleton]

theorem contains_parent {d p : Dir} (h : d.parent? = some p) : p.contains d = true := by
  obtain ⟨n, hn⟩ := parent?_eq_some.1 h
  exact contains_iff.2 ⟨[n], hn.symm⟩

theorem contains_trans {a b c : Dir} (hab : a.contains b = true) (hbc : b.contains c = true) :
    a.contains c = true :=
  contains_iff.2 ((contains_iff.1 hab).trans (contains_iff.1 hbc))

theorem contains_antisymm {a b : Dir} (hab : a.contains b = true) (hba : b.contains a = true) :
    a = b :=
  Dir.ext ((contains_iff.1 hab).eq_of_length_le (contains_iff.1 hba).length_le)

theorem length_le_of_contains {a b : Dir} (h : a.contains b = true) :
    a.parts.length ≤ b.parts.length :=
  (contains_iff.1 h).length_le

theorem contains_root_iff {d : Dir} : d.contains root = true ↔ d = root := by
  constructor
  · intro h
    exact contains_antisymm h (contains_root d)
  · rintro rfl
    exact contains_self root

theorem contains_total {a b c : Dir} (ha : a.contains c = true) (hb : b.contains c = true) :
    a.contains b = true ∨ b.contains a = true :=
  (List.prefix_or_prefix_of_prefix (contains_iff.1 ha) (contains_iff.1 hb)).imp
    contains_iff.2 contains_iff.2

theorem contains_parent_of_ne {a d p : Dir} (h : a.contains d = true) (ne : a ≠ d)
    (hp : d.parent? = some p) : a.contains p = true := by
  obtain ⟨n, hn⟩ := parent?_eq_some.1 hp
  have pre := contains_iff.1 h
  rw [hn, List.prefix_concat_iff] at pre
  rcases pre with eq | pre
  · exact absurd (Dir.ext (eq.trans hn.symm)) ne
  · exact contains_iff.2 pre

theorem exists_child_of_contains {d e : Dir} (h : d.contains e = true) (ne : e ≠ d) :
    ∃ c : Dir, c.parent? = some d ∧ c.contains e = true := by
  obtain ⟨rest, eq⟩ := contains_iff.1 h
  cases rest with
  | nil =>
    rw [List.append_nil] at eq
    exact absurd (Dir.ext eq.symm) ne
  | cons n rest =>
    have proper : ∀ p ∈ d.parts ++ [n], IsName p := by
      intro p hp
      apply e.proper p
      rw [← eq]
      rcases List.mem_append.1 hp with hd | hn
      · exact List.mem_append_left _ hd
      · rw [List.mem_singleton.1 hn]
        simp
    refine ⟨⟨d.parts ++ [n], proper⟩, parent?_eq_some.2 ⟨n, rfl⟩, contains_iff.2 ⟨rest, ?_⟩⟩
    rw [← eq, List.append_assoc, List.singleton_append]

theorem mem_chain {d e : Dir} : e ∈ d.chain ↔ e ≠ root ∧ e.contains d = true := by
  simp only [chain, List.mem_map, List.mem_range, contains_iff]
  constructor
  · rintro ⟨i, hi, rfl⟩
    refine ⟨?_, List.take_prefix _ _⟩
    intro eq
    have empty : (d.parts.take (i + 1)).length = 0 := congrArg (fun a : Dir => a.parts.length) eq
    rw [List.length_take] at empty
    omega
  · rintro ⟨ne, pre⟩
    have pos : 0 < e.parts.length := by
      rw [List.length_pos_iff]
      intro h
      exact ne (Dir.ext h)
    have bound := pre.length_le
    refine ⟨e.parts.length - 1, by omega, Dir.ext ?_⟩
    change d.parts.take (e.parts.length - 1 + 1) = e.parts
    rw [Nat.sub_add_cancel pos]
    exact (List.prefix_iff_eq_take.1 pre).symm

theorem mem_root_chain {d e : Dir} : e ∈ root :: d.chain ↔ e.contains d = true := by
  rw [List.mem_cons, mem_chain]
  by_cases h : e = root
  · simp [h]
  · simp [h]

/-! ## Moving -/

/-- Moving replaces the names of the source by those of the target. -/
theorem parts_movedTo {source target d : Dir} (ne : source ≠ root)
    (h : source.contains d = true) :
    (Namespace.movedTo source target d).parts =
      target.parts ++ d.parts.drop source.parts.length := by
  obtain ⟨rest, eq⟩ := contains_iff.1 h
  have below : d ≠ root := by
    rintro rfl
    exact ne (contains_root_iff.1 h)
  have proper : ∀ p ∈ rest, IsName p := by
    intro p hp
    exact d.proper p (eq ▸ List.mem_append_right _ hp)
  have cut : d.text.toList.drop source.text.length = spelled rest := by
    rw [← String.length_toList, toList_text below, toList_text ne, ← eq, spelled_append,
      List.drop_left]
  have drop : d.parts.drop source.parts.length = rest := by rw [← eq, List.drop_left]
  have read := namesIn_append_spelled target.text.toList proper
  rw [← names_eq, names_text] at read
  rw [Namespace.movedTo, cut, drop, ← read]
  simp only [ofText, names_eq, String.toList_append, String.toList_ofList]

theorem contains_movedTo {source d : Dir} (target : Dir) (ne : source ≠ root)
    (h : source.contains d = true) : target.contains (Namespace.movedTo source target d) = true :=
  contains_iff.2 ⟨_, (parts_movedTo ne h).symm⟩

theorem movedTo_movedTo {source target d : Dir} (hs : source ≠ root) (ht : target ≠ root)
    (h : source.contains d = true) :
    Namespace.movedTo target source (Namespace.movedTo source target d) = d := by
  apply Dir.ext
  rw [parts_movedTo ht (contains_movedTo target hs h), parts_movedTo hs h, List.drop_left]
  obtain ⟨rest, eq⟩ := contains_iff.1 h
  rw [← eq, List.drop_left]

theorem movedTo_inj {source target d e : Dir} (hs : source ≠ root) (ht : target ≠ root)
    (hd : source.contains d = true) (he : source.contains e = true)
    (eq : Namespace.movedTo source target d = Namespace.movedTo source target e) : d = e := by
  rw [← movedTo_movedTo hs ht hd, eq, movedTo_movedTo hs ht he]

theorem parent?_movedTo {source target d p : Dir} (ne : source ≠ root)
    (h : source.contains p = true) (hp : d.parent? = some p) :
    (Namespace.movedTo source target d).parent? = some (Namespace.movedTo source target p) := by
  obtain ⟨n, hn⟩ := parent?_eq_some.1 hp
  have below := contains_trans h (contains_parent hp)
  have shorter : source.parts.length ≤ p.parts.length := length_le_of_contains h
  refine parent?_eq_some.2 ⟨n, ?_⟩
  rw [parts_movedTo ne below, parts_movedTo ne h, hn, List.drop_append_of_le_length shorter,
    List.append_assoc]

end Dir

namespace FileEntry

/-- A file whose path is written as directories are, right below a directory. -/
structure FiledIn (f : FileEntry) (d : Dir) : Prop where
  normal : (Dir.ofText f.path).text = f.path
  directory : f.directory = d

theorem FiledIn.unique {f : FileEntry} {d e : Dir} (hd : f.FiledIn d) (he : f.FiledIn e) :
    d = e := by
  rw [← hd.directory, he.directory]

theorem FiledIn.of_path {f g : FileEntry} {d : Dir} (h : f.FiledIn d)
    (path : g.path = f.path) : g.FiledIn d := by
  refine ⟨?_, ?_⟩
  · rw [path]
    exact h.normal
  · rw [← h.directory, FileEntry.directory, FileEntry.directory, path]

theorem FiledIn.parts {f : FileEntry} {d : Dir} (h : f.FiledIn d) (ne : d ≠ .root) :
    IsName f.name ∧ (Dir.ofText f.path).parts = d.parts ++ [f.name] := by
  have above : (Dir.ofText f.path).parent? = some d := by
    have dir := h.directory
    unfold FileEntry.directory at dir
    cases found : (Dir.ofText f.path).parent? with
    | none =>
      rw [found] at dir
      exact absurd dir.symm ne
    | some p =>
      rw [found] at dir
      exact congrArg some dir
  obtain ⟨n, hn⟩ := Dir.parent?_eq_some.1 above
  have isName : IsName n := (Dir.ofText f.path).proper n (by simp [hn])
  have nonroot : Dir.ofText f.path ≠ .root := by
    intro eq
    rw [eq] at hn
    simp at hn
  have chars : f.path.toList = Dir.spelled d.parts ++ '/' :: n.toList := by
    rw [← h.normal, Dir.toList_text nonroot, hn, Dir.spelled_append]
    simp [Dir.spelled]
  have name : f.name = n := by
    rw [FileEntry.name, chars, Text.pieces_append, Text.pieces_of_not_mem isName.2,
      List.getLastD_concat, String.ofList_toList]
  rw [name]
  exact ⟨isName, hn⟩

theorem filedIn_of_path {f : FileEntry} {d : Dir} {n : String} (name : IsName n)
    (ne : d ≠ .root) (path : f.path = d.text ++ "/" ++ n) : f.FiledIn d ∧ f.name = n := by
  have proper : ∀ p ∈ [n], IsName p := by simpa using name
  have chars : f.path.toList = d.text.toList ++ Dir.spelled [n] := by
    simp [path, Dir.spelled]
  have parts : (Dir.ofText f.path).parts = d.parts ++ [n] := by
    have read := Dir.namesIn_append_spelled d.text.toList proper
    rw [← Dir.names_eq, Dir.names_text, ← chars] at read
    exact read
  have nonroot : Dir.ofText f.path ≠ .root := by
    intro eq
    rw [eq] at parts
    simp at parts
  refine ⟨⟨?_, ?_⟩, ?_⟩
  · apply String.toList_inj.1
    rw [Dir.toList_text nonroot, parts, Dir.spelled_append, chars, Dir.toList_text ne]
  · rw [FileEntry.directory, Dir.parent?_eq_some.2 ⟨n, parts⟩]
    rfl
  · have cut : d.text.toList ++ Dir.spelled [n] = d.text.toList ++ '/' :: n.toList := by
      simp [Dir.spelled]
    rw [FileEntry.name, chars, cut, Text.pieces_append, Text.pieces_of_not_mem name.2,
      List.getLastD_concat, String.ofList_toList]

end FileEntry
end Archivist
