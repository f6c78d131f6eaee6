set_option autoImplicit false

namespace Archivist.Text

/-- What stands between the separators; a text without a separator is its only piece. -/
def pieces (sep : Char) : List Char → List (List Char)
  | [] => [[]]
  | c :: cs =>
    if c = sep then [] :: pieces sep cs
    else
      match pieces sep cs with
      | [] => [[c]]
      | p :: ps => (c :: p) :: ps

def glue (sep : Char) : List (List Char) → List Char
  | [] => []
  | [p] => p
  | p :: q :: ps => p ++ sep :: glue sep (q :: ps)

theorem pieces_ne_nil (sep : Char) (cs : List Char) : pieces sep cs ≠ [] := by
  cases cs with
  | nil => simp [pieces]
  | cons c cs =>
    unfold pieces
    split
    · simp
    · split <;> simp

theorem not_mem_of_mem_pieces {sep : Char} {cs p : List Char} (h : p ∈ pieces sep cs) :
    sep ∉ p := by
  induction cs generalizing p with
  | nil => simp [pieces] at h; simp [h]
  | cons c cs ih =>
    unfold pieces at h
    split at h
    · rcases List.mem_cons.1 h with rfl | h
      · simp
      · exact ih h
    · rename_i hc
      split at h
      · rcases List.mem_singleton.1 h with rfl
        simpa using fun e => hc e.symm
      · rename_i q qs hq
        rcases List.mem_cons.1 h with rfl | h
        · have hq' : q ∈ pieces sep cs := by simp [hq]
          simp only [List.mem_cons, not_or]
          exact ⟨fun e => hc e.symm, ih hq'⟩
        · exact ih (by simp [hq, h])

theorem glue_pieces (sep : Char) (cs : List Char) : glue sep (pieces sep cs) = cs := by
  induction cs with
  | nil => rfl
  | cons c cs ih =>
    unfold pieces
    split
    · rename_i hc
      cases hp : pieces sep cs with
      | nil => exact absurd hp (pieces_ne_nil sep cs)
      | cons q qs => rw [hp] at ih; simp [glue, ih, hc]
    · split
      · rename_i hp; exact absurd hp (pieces_ne_nil sep cs)
      · rename_i q qs hp
        rw [hp] at ih
        cases qs with
        | nil => simp_all [glue]
        | cons r rs => simp only [glue, List.cons_append] at ih ⊢; rw [ih]

theorem pieces_of_not_mem {sep : Char} {p : List Char} (h : sep ∉ p) : pieces sep p = [p] := by
  induction p with
  | nil => rfl
  | cons c cs ih =>
    have hc : c ≠ sep := fun e => h (by simp [e])
    simp [pieces, hc, ih (fun m => h (by simp [m]))]

theorem pieces_append_sep {sep : Char} {p cs : List Char} (h : sep ∉ p) :
    pieces sep (p ++ sep :: cs) = p :: pieces sep cs := by
  induction p with
  | nil => simp [pieces]
  | cons c p ih =>
    have hc : c ≠ sep := fun e => h (by simp [e])
    simp [pieces, hc, ih (fun m => h (by simp [m]))]

theorem pieces_glue {sep : Char} : ∀ {ps : List (List Char)}, ps ≠ [] → (∀ p ∈ ps, sep ∉ p) →
    pieces sep (glue sep ps) = ps
  | [], h, _ => absurd rfl h
  | [p], _, h => pieces_of_not_mem (h p (by simp))
  | p :: q :: ps, _, h => by
    rw [glue, pieces_append_sep (h p (by simp)),
      pieces_glue (by simp) (fun r hr => h r (by simp_all))]

end Archivist.Text
