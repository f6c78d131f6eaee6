import Archivist.Proofs.Tree.Directory
set_option autoImplicit false

/-!
# What texts say of directories

A directory is handled by its names and shown as a text.  The same could be done with the text
alone: two texts with a slash between them name what the second names below the first
(`ofText_append_slash`), the last slash of a text stands between the parent and the name
(`exists_last_slash`), and a directory is contained in another if the text of the other and a slash
stand in front of its own (`contains_iff_text`).  The slash keeps a directory apart from one whose
name goes on where its own ends.  A text is the one of its directory exactly if it is `Normal`.
-/

namespace Archivist

namespace Text

theorem glue_append {sep : Char} {ps qs : List (List Char)} (hp : ps ≠ []) (hq : qs ≠ []) :
    glue sep (ps ++ qs) = glue sep ps ++ sep :: glue sep qs := by
  induction ps with
  | nil => exact absurd rfl hp
  | cons p ps ih =>
    cases ps with
    | nil =>
      obtain ⟨q, qs, rfl⟩ := List.exists_cons_of_ne_nil hq
      rfl
    | cons r rs =>
      have rest := ih (List.cons_ne_nil r rs)
      rw [List.cons_append, List.cons_append, glue, ← List.cons_append, rest, glue,
        List.append_assoc, List.cons_append]

theorem meets_of_nil_mem {sep : Char} {cs : List Char} (h : [] ∈ pieces sep cs) :
    [sep, sep] <:+: sep :: cs ∨ [sep] <:+ sep :: cs := by
  obtain ⟨front, back, cut⟩ := List.append_of_mem h
  have whole : sep :: cs = glue sep (([] :: front) ++ [] :: back) := by
    rw [List.cons_append, ← cut]
    obtain ⟨p, ps, eq⟩ := List.exists_cons_of_ne_nil (pieces_ne_nil sep cs)
    rw [eq, glue, ← eq, glue_pieces, List.nil_append]
  rw [whole, glue_append (List.cons_ne_nil _ _) (List.cons_ne_nil _ _)]
  cases back with
  | nil => exact .inr (List.suffix_append _ _)
  | cons q qs =>
    refine .inl ⟨glue sep ([] :: front), glue sep (q :: qs), ?_⟩
    rw [glue, List.append_assoc]
    rfl

end Text

namespace Dir

variable {d e p : Dir}

/-- A text as directories have them: a slash stands at its front, none at its end unless it is all
of the text, and nowhere two in a row. -/
structure Normal (s : String) : Prop where
  front : ['/'] <+: s.toList
  back : ['/'] <:+ s.toList → s = "/"
  apart : ¬ ['/', '/'] <:+: s.toList

theorem glue_cons_map (p : List Char) (ps : List String) :
    Text.glue '/' (p :: ps.map String.toList) = p ++ spelled ps := by
  induction ps generalizing p with
  | nil => exact (List.append_nil p).symm
  | cons q qs ih =>
    rw [List.map_cons, Text.glue, ih q.toList]
    rfl

theorem pieces_spelled {ps : List String} (h : ∀ p ∈ ps, IsName p) :
    Text.pieces '/' (spelled ps) = [] :: ps.map String.toList := by
  have whole := glue_cons_map [] ps
  rw [List.nil_append] at whole
  rw [← whole]
  refine Text.pieces_glue (List.cons_ne_nil _ _) fun q hq => ?_
  rcases List.mem_cons.1 hq with rfl | hq
  · exact List.not_mem_nil
  · obtain ⟨n, hn, rfl⟩ := List.mem_map.1 hq
    exact (h n hn).2

theorem nil_notMem_pieces_behind {ps : List String} (h : ∀ p ∈ ps, IsName p) {a b : List Char}
    (cut : spelled ps = a ++ '/' :: b) : [] ∉ Text.pieces '/' b := by
  have both := pieces_spelled h
  rw [cut, Text.pieces_append] at both
  obtain ⟨q, qs, eq⟩ := List.exists_cons_of_ne_nil (Text.pieces_ne_nil '/' a)
  rw [eq, List.cons_append] at both
  intro empty
  have among : [] ∈ ps.map String.toList := by
    rw [← (List.cons.inj both).2]
    exact List.mem_append_right qs empty
  obtain ⟨n, hn, hnone⟩ := List.mem_map.1 among
  exact (h n hn).1 (String.toList_eq_nil_iff.1 hnone)

theorem normal_text (d : Dir) : Normal d.text := by
  by_cases top : d = root
  · subst top
    exact ⟨by decide, fun _ => rfl, by decide⟩
  · have chars := toList_text top
    refine ⟨?_, ?_, ?_⟩
    · obtain ⟨n, ns, parts⟩ := List.exists_cons_of_ne_nil fun hnone => top (Dir.ext hnone)
      rw [chars, parts]
      exact ⟨n.toList ++ spelled ns, rfl⟩
    · rintro ⟨a, eq⟩
      exact absurd List.mem_cons_self (nil_notMem_pieces_behind d.proper (chars.symm.trans eq.symm))
    · rintro ⟨a, b, eq⟩
      rw [List.append_assoc] at eq
      exact absurd List.mem_cons_self (nil_notMem_pieces_behind d.proper (chars.symm.trans eq.symm))

theorem text_of_normal {s : String} (h : Normal s) : (ofText s).text = s := by
  by_cases top : s = "/"
  · subst top
    decide
  · obtain ⟨cs, chars⟩ := h.front
    have full : [] ∉ Text.pieces '/' cs := by
      intro empty
      rcases Text.meets_of_nil_mem empty with twice | last
      · exact h.apart (chars ▸ twice)
      · exact top (h.back (chars ▸ last))
    have cut : Text.pieces '/' s.toList = [] :: Text.pieces '/' cs := by
      rw [← chars]
      rfl
    -- only the piece in front of the first slash is empty, and reading drops no other
    have parts : (ofText s).parts.map String.toList = Text.pieces '/' cs := by
      have kept : (Text.pieces '/' cs).filter (· ≠ []) = Text.pieces '/' cs :=
        List.filter_eq_self.2 fun p hp => decide_eq_true fun empty => full (empty ▸ hp)
      change (names s).map String.toList = _
      rw [names_eq, namesIn, cut, List.filter_cons_of_neg (by simp), kept, List.map_map]
      exact List.map_id'' (fun _ => String.toList_ofList) _
    have below : ofText s ≠ root := by
      intro eq
      rw [eq] at parts
      exact Text.pieces_ne_nil '/' cs parts.symm
    apply String.toList_inj.1
    calc
      (ofText s).text.toList = spelled (ofText s).parts := toList_text below
      _ = Text.glue '/' ([] :: (ofText s).parts.map String.toList) := (glue_cons_map [] _).symm
      _ = Text.glue '/' (Text.pieces '/' s.toList) := by rw [parts, cut]
      _ = s.toList := Text.glue_pieces '/' s.toList

theorem text_ofText_eq_iff {s : String} : (ofText s).text = s ↔ Normal s :=
  ⟨fun same => same ▸ normal_text _, text_of_normal⟩

theorem names_append_slash (s t : String) : names (s ++ "/" ++ t) = names s ++ names t := by
  rw [names_eq, String.toList_append, String.toList_append, List.append_assoc]
  exact namesIn_append_slash s.toList t.toList

theorem ofText_append_slash (s t : String) : ofText (s ++ "/" ++ t) = (ofText s).join t :=
  Dir.ext (names_append_slash s t)

theorem join_join (d : Dir) (s t : String) : (d.join s).join t = d.join (s ++ "/" ++ t) := by
  apply Dir.ext
  rw [parts_join, parts_join, parts_join, names_append_slash, List.append_assoc]

theorem contains_join (d : Dir) (s : String) : d.contains (d.join s) = true :=
  contains_iff.2 ⟨names s, rfl⟩

theorem text_eq_slash : d.text = "/" ↔ d = root := text_inj (b := root)

theorem ofText_spelled (d : Dir) : ofText (String.ofList (spelled d.parts)) = d := by
  apply Dir.ext
  change names _ = d.parts
  rw [names_eq, String.toList_ofList, namesIn_spelled d.proper]

theorem exists_last_slash (d : Dir) :
    ∃ front last, d.text = front ++ "/" ++ last ∧ '/' ∉ last.toList ∧ d.name = last ∧
      d.parent? = if d.text = "/" then none else some (ofText front) := by
  cases above : d.parent? with
  | none =>
    obtain rfl := parent?_eq_none.1 above
    exact ⟨"", "", rfl, List.not_mem_nil, rfl, (if_pos rfl).symm⟩
  | some p =>
    obtain ⟨n, parts⟩ := parent?_eq_some.1 above
    have proper : IsName n := d.proper n (by simp [parts])
    have below : d ≠ root := by
      rintro rfl
      cases above
    refine ⟨String.ofList (spelled p.parts), n, ?_, proper.2, ?_, ?_⟩
    · apply String.toList_inj.1
      rw [toList_text below, parts, spelled_append]
      simp [spelled]
    · rw [name, parts, List.getLastD_concat]
    · rw [if_neg fun top => below (text_eq_slash.1 top), ofText_spelled]

/-- A directory contains the root's, itself, and those whose texts go on with a slash behind its. -/
theorem contains_iff_text :
    d.contains e = true ↔
      d.text = "/" ∨ e.text = d.text ∨ ∃ rest, e.text = d.text ++ "/" ++ rest := by
  constructor
  · intro h
    by_cases top : d = root
    · exact .inl (congrArg text top)
    · obtain ⟨rest, parts⟩ := contains_iff.1 h
      cases rest with
      | nil => exact .inr (.inl (congrArg text (Dir.ext (parts.symm.trans (List.append_nil _)))))
      | cons n ns =>
        have lower : e ≠ root := by
          rintro rfl
          exact top (contains_root_iff.1 h)
        refine .inr (.inr ⟨String.ofList (n.toList ++ spelled ns), ?_⟩)
        apply String.toList_inj.1
        rw [toList_text lower, ← parts, spelled_append, ← toList_text top]
        simp [spelled]
  · rintro (top | same | ⟨rest, below⟩)
    · rw [text_eq_slash.1 top]
      exact contains_root e
    · rw [text_inj.1 same]
      exact contains_self d
    · rw [← ofText_text e, below, ofText_append_slash, ofText_text]
      exact contains_join d rest

/-- What is done with a directory, told of its text: where its name and its parent stand, what a
text put behind it leads to, what it contains, and which texts are directories' own. -/
structure ToldByText (d : Dir) (s t : String) : Prop where
  last_slash : ∃ front last, d.text = front ++ "/" ++ last ∧ '/' ∉ last.toList ∧ d.name = last ∧
    d.parent? = if d.text = "/" then none else some (ofText front)
  join : d.join s = ofText (d.text ++ "/" ++ s)
  contains : d.containsText t = true ↔
    d.text = "/" ∨ (ofText t).text = d.text ∨ ∃ rest, (ofText t).text = d.text ++ "/" ++ rest
  normal : (ofText t).text = t ↔ Normal t

theorem toldByText (d : Dir) (s t : String) : d.ToldByText s t where
  last_slash := exists_last_slash d
  join := by rw [ofText_append_slash, ofText_text]
  contains := contains_iff_text
  normal := text_ofText_eq_iff

end Dir
end Archivist
