import Archivist.Path.Pathname
import Archivist.Proofs.Transfer.Naming
set_option autoImplicit false

namespace Archivist

namespace Pathname

/-- A name that leads from a directory to something in it. -/
def LeadsDown (n : String) : Prop := IsName n ∧ n ≠ "." ∧ n ≠ ".."

/-- The path of a location below a root. -/
def path (root : String) (l : Location) : String := l.foldl push root

theorem body_dropWhile (cs : List Char) : body (cs.dropWhile (· = '/')) = body cs := by
  induction cs with
  | nil => rfl
  | cons c cs ih =>
    by_cases slash : c = '/'
    · rw [List.dropWhile_cons_of_pos (by simpa using slash), ih, slash]
      simp [body, Text.pieces]
    · rw [List.dropWhile_cons_of_neg (by simpa using slash)]

theorem foldlM_ofPiece (text base : String) (ps : List (List Char)) :
    (ps.map PathPart.ofPiece).foldlM (follow text) base =
      if ['.', '.'] ∈ ps then .error (.invalidPath text)
      else .ok (path base (ps.map String.ofList)) := by
  induction ps generalizing base with
  | nil => rfl
  | cons p ps ih =>
    rw [List.map_cons, List.foldlM_cons]
    by_cases up : p = ['.', '.']
    · subst up
      rw [if_pos List.mem_cons_self]
      rfl
    · rw [PathPart.ofPiece, if_neg up]
      refine (ih (push base (String.ofList p))).trans (if_congr ?_ rfl rfl)
      rw [List.mem_cons]
      exact (or_iff_right fun same => up same.symm).symm

/-- A text leads to the path of its location, and one without a location nowhere. -/
theorem resolveUnder_eq (root text : String) :
    resolveUnder root text = (Location.resolve text).map (path root) := by
  have relative : (text.toList.dropWhile (· = '/')).head? ≠ some '/' := by
    intro slash
    have stopped := List.head?_dropWhile_not (fun c : Char => decide (c = '/')) text.toList
    rw [slash] at stopped
    simp at stopped
  have start : ∀ ps : List (List Char),
      (front (text.toList.dropWhile (· = '/')) ++ ps.map PathPart.ofPiece).foldlM
        (follow text) root = (ps.map PathPart.ofPiece).foldlM (follow text) root := by
    intro ps
    rw [front, if_neg relative]
    split <;> rfl
  have climbs : ['.', '.'] ∈ body text.toList ↔ ".." ∈ Location.names text := by
    rw [Location.names, ← body, List.mem_map]
    constructor
    · exact fun h => ⟨_, h, rfl⟩
    · rintro ⟨p, h, eq⟩
      have same := congrArg String.toList eq
      rw [String.toList_ofList] at same
      rwa [same] at h
  rw [resolveUnder, parts, String.toList_ofList, start, body_dropWhile, foldlM_ofPiece,
    Location.resolve, ← if_congr climbs rfl rfl]
  split <;> rfl

theorem toList_push {base s : String} (ne : base ≠ "") (relative : s.toList.head? ≠ some '/') :
    ∃ b, (base.toList = b ∨ base.toList = b ++ ['/']) ∧
      (push base s).toList = b ++ '/' :: s.toList := by
  rw [push, if_neg relative]
  by_cases slash : base.toList.getLast? = some '/'
  · obtain ⟨b, eq⟩ := List.getLast?_eq_some_iff.1 slash
    refine ⟨b, .inr eq, ?_⟩
    rw [if_pos (.inr slash), String.toList_append, eq, List.append_assoc]
    rfl
  · refine ⟨base.toList, .inl rfl, ?_⟩
    rw [if_neg (not_or.2 ⟨ne, slash⟩), String.toList_append, String.toList_append,
      List.append_assoc]
    rfl

theorem push_empty {s : String} (relative : s.toList.head? ≠ some '/') : push "" s = s := by
  rw [push, if_neg relative, if_pos (.inl rfl), String.empty_append]

theorem toList_prefix_push (base : String) {s : String} (relative : s.toList.head? ≠ some '/') :
    base.toList <+: (push base s).toList := by
  by_cases ne : base = ""
  · rw [ne]
    exact List.nil_prefix
  · obtain ⟨b, cut, eq⟩ := toList_push ne relative
    rw [eq]
    rcases cut with same | slash
    · exact ⟨'/' :: s.toList, by rw [same]⟩
    · exact ⟨s.toList, by rw [slash, List.append_assoc]; rfl⟩

theorem front_append (cs ds : List Char) :
    front (cs ++ '/' :: ds) = if cs = [] then [.top] else front cs := by
  cases cs with
  | nil => rfl
  | cons c cs =>
    rw [if_neg (List.cons_ne_nil c cs), front, front, Text.pieces_append]
    obtain ⟨p, ps, eq⟩ := List.exists_cons_of_ne_nil (Text.pieces_ne_nil '/' (c :: cs))
    rw [eq]
    rfl

theorem body_append (cs ds : List Char) : body (cs ++ '/' :: ds) = body cs ++ body ds := by
  rw [body, Text.pieces_append, List.filter_append]
  rfl

theorem parts_push_of_ne {base s : String} (ne : base ≠ "")
    (relative : s.toList.head? ≠ some '/') :
    parts (push base s) = parts base ++ (body s.toList).map PathPart.ofPiece := by
  obtain ⟨b, cut, eq⟩ := toList_push ne relative
  rw [parts, parts, eq, front_append, body_append, List.map_append, ← List.append_assoc]
  congr 2
  · rcases cut with rfl | slash
    · rw [if_neg fun hnone => ne (String.toList_eq_nil_iff.1 hnone)]
    · rw [slash, front_append]
  · rcases cut with rfl | slash
    · rfl
    · rw [slash, body_append]
      change _ = List.map PathPart.ofPiece (body b ++ [])
      rw [List.append_nil]

theorem head?_ne_of_notMem {n : String} (h : '/' ∉ n.toList) : n.toList.head? ≠ some '/' :=
  fun first => h (List.mem_of_head? first)

theorem LeadsDown.body {n : String} (h : LeadsDown n) : body n.toList = [n.toList] := by
  have other : n.toList ≠ ['.'] := fun dot => h.2.1 (String.toList_inj.1 dot)
  rw [Pathname.body, Text.pieces_of_not_mem h.1.2,
    List.filter_cons_of_pos (by simpa using ⟨h.1.1, other⟩), List.filter_nil]

theorem LeadsDown.ofPiece {n : String} (h : LeadsDown n) : PathPart.ofPiece n.toList = .name n := by
  have other : n.toList ≠ ['.', '.'] := fun dots => h.2.2 (String.toList_inj.1 dots)
  rw [PathPart.ofPiece, if_neg other, String.ofList_toList]

theorem LeadsDown.parts_push {n : String} (h : LeadsDown n) (base : String) :
    parts (push base n) = parts base ++ [.name n] := by
  have relative := head?_ne_of_notMem h.1.2
  by_cases ne : base = ""
  · have other : n.toList ≠ ['.'] := fun dot => h.2.1 (String.toList_inj.1 dot)
    have plain : front n.toList = [] := by
      rw [front, if_neg relative, Text.pieces_of_not_mem h.1.2, if_neg]
      simpa using other
    rw [ne, push_empty relative, parts, plain, h.body, List.map_singleton, h.ofPiece]
    rfl
  · rw [parts_push_of_ne ne relative, h.body, List.map_singleton, h.ofPiece]

/-- A dot is a part only if it stands alone. -/
theorem parts_push_dot (base : String) :
    parts (push base ".") = parts base ∨ parts (push base ".") = parts base ++ [.here] := by
  by_cases ne : base = ""
  · subst ne
    exact .inr (by decide)
  · refine .inl ?_
    rw [parts_push_of_ne ne (by decide)]
    exact List.append_nil _

theorem path_concat (root : String) (l : Location) (n : String) :
    path root (l ++ [n]) = push (path root l) n := by
  rw [path, path, List.foldl_append]
  rfl

/-- The parts of the path of a location are those of the root and its names. -/
theorem parts_path (root : String) {l : Location} (down : ∀ n ∈ l, LeadsDown n) :
    parts (path root l) = parts root ++ l.map .name := by
  induction l generalizing root with
  | nil => exact (List.append_nil _).symm
  | cons n l ih =>
    have first : LeadsDown n := down n List.mem_cons_self
    have rest := ih (push root n) fun m hm => down m (List.mem_cons_of_mem n hm)
    rw [path, List.foldl_cons, ← path, rest, first.parts_push, List.append_assoc]
    rfl

theorem toList_prefix_path (root : String) {l : Location} (down : ∀ n ∈ l, LeadsDown n) :
    root.toList <+: (path root l).toList := by
  induction l generalizing root with
  | nil => exact List.prefix_rfl
  | cons n l ih =>
    have first : LeadsDown n := down n List.mem_cons_self
    exact (toList_prefix_push root (head?_ne_of_notMem first.1.2)).trans
      (ih (push root n) fun m hm => down m (List.mem_cons_of_mem n hm))

theorem path_inj (root : String) {l m : Location} (hl : ∀ n ∈ l, LeadsDown n)
    (hm : ∀ n ∈ m, LeadsDown n) : path root l = path root m ↔ l = m := by
  refine ⟨fun same => ?_, congrArg _⟩
  have parted := congrArg parts same
  rw [parts_path root hl, parts_path root hm] at parted
  exact List.map_injective_iff.2 (fun _ _ eq => PathPart.name.inj eq) (List.append_cancel_left parted)

theorem getLast?_pieces_push (base : String) {n : String} (slash : '/' ∉ n.toList) :
    (Text.pieces '/' (push base n).toList).getLast? = some n.toList := by
  have relative := head?_ne_of_notMem slash
  by_cases ne : base = ""
  · rw [ne, push_empty relative, Text.pieces_of_not_mem slash]
    rfl
  · obtain ⟨b, -, eq⟩ := toList_push ne relative
    rw [eq, Text.pieces_append, Text.pieces_of_not_mem slash, List.getLast?_concat]

theorem LeadsDown.endsOpen_push {n : String} (h : LeadsDown n) (base : String) :
    endsOpen (push base n) = false := by
  have other : n.toList ≠ ['.'] := fun dot => h.2.1 (String.toList_inj.1 dot)
  rw [endsOpen, getLast?_pieces_push base h.1.2]
  simpa using ⟨h.1.1, other⟩

theorem endsOpen_push_dot (base : String) : endsOpen (push base ".") = true := by
  rw [endsOpen, getLast?_pieces_push base (by decide)]
  decide

theorem leadsDown_of_isFileName {name : String} (named : Location.isFileName name = true)
    (plain : name ≠ ".") : LeadsDown name := by
  simp only [Location.isFileName, Bool.and_eq_true, decide_eq_true_eq] at named
  obtain ⟨⟨filled, slash⟩, up⟩ := named
  exact ⟨⟨filled, by simpa using slash⟩, plain, up⟩

theorem leadsDown_concat {l : Location} {name : String} (down : ∀ n ∈ l, LeadsDown n)
    (last : LeadsDown name) : ∀ n ∈ l ++ [name], LeadsDown n := by
  intro n hn
  rcases List.mem_append.1 hn with above | here
  · exact down n above
  · rwa [List.mem_singleton.1 here]

theorem leadsDown_of_resolve {text : String} {l : Location} (h : Location.resolve text = .ok l) :
    ∀ n ∈ l, LeadsDown n := by
  obtain ⟨clean, rfl⟩ := Location.resolve_eq_ok h
  intro n hn
  have named := hn
  rw [Location.names_eq, List.mem_filter, decide_eq_true_iff] at named
  exact ⟨Dir.isName_of_mem_names named.1, named.2, fun up => clean (up ▸ hn)⟩

end Pathname
end Archivist
