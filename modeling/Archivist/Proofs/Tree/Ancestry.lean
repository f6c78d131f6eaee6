import Archivist.Proofs.Tree.Adding
import Archivist.Proofs.Tree.Spelling
import Mathlib.Order.Preorder.Chain
set_option autoImplicit false

namespace Archivist

namespace Dir

variable {d e : Dir} {n : Nat}

/-- The directory to which a number of steps to the parent lead; there is none above the root. -/
def up (d : Dir) : Nat → Option Dir
  | 0 => some d
  | n + 1 => (d.up n).bind parent?

theorem up_succ_eq_some : d.up (n + 1) = some e ↔ ∃ c, d.up n = some c ∧ c.parent? = some e :=
  Option.bind_eq_some_iff

theorem up_eq_some :
    d.up n = some e ↔ e.contains d = true ∧ d.parts.length = e.parts.length + n := by
  induction n generalizing e with
  | zero =>
    constructor
    · intro h
      obtain rfl : d = e := Option.some.inj h
      exact ⟨contains_self d, rfl⟩
    · rintro ⟨above, depth⟩
      have same : e = d := Dir.ext ((contains_iff.1 above).eq_of_length depth.symm)
      exact congrArg some same.symm
  | succ n ih =>
    rw [up_succ_eq_some]
    constructor
    · rintro ⟨c, reached, parent⟩
      obtain ⟨above, depth⟩ := ih.1 reached
      have higher := length_parent parent
      exact ⟨contains_trans (contains_parent parent) above, by omega⟩
    · rintro ⟨above, depth⟩
      have ne : d ≠ e := by
        rintro rfl
        omega
      -- the last step comes from the child of `e` on the way down to `d`
      obtain ⟨c, parent, below⟩ := exists_child_of_contains above ne
      have higher := length_parent parent
      exact ⟨c, ih.2 ⟨below, by omega⟩, parent⟩

theorem contains_iff_up : e.contains d = true ↔ ∃ n, d.up n = some e := by
  constructor
  · intro above
    obtain ⟨n, depth⟩ := Nat.exists_eq_add_of_le (length_le_of_contains above)
    exact ⟨n, up_eq_some.2 ⟨above, depth⟩⟩
  · rintro ⟨n, reached⟩
    exact (up_eq_some.1 reached).1

def Encloses (d e : Dir) : Prop := d.containsText e.text = true

theorem encloses_iff : d.Encloses e ↔ d.contains e = true := by
  rw [Encloses, containsText, ofText_text]

instance : IsPartialOrder Dir Encloses where
  refl d := encloses_iff.2 (contains_self d)
  trans _ _ _ hab hbc := encloses_iff.2 (contains_trans (encloses_iff.1 hab) (encloses_iff.1 hbc))
  antisymm _ _ hab hba := contains_antisymm (encloses_iff.1 hab) (encloses_iff.1 hba)

theorem isChain_encloses (t : String) : IsChain Encloses {e | e.containsText t = true} := by
  intro a ha b hb _
  exact (contains_total ha hb).imp encloses_iff.2 encloses_iff.2

end Dir

open Dir in
/-- What is done with a directory could be read off its text.  A directory contains a path exactly
if a number of steps to the parent lead to it from the path's own directory; so containment is a
partial order in which the directories that contain a path form a chain.  A name that is put behind
a directory is the name of a child of it, two texts are put behind it as one with a slash between
them, and the text of a directory is read as that directory. -/
theorem containsText_iff_up (d : Dir) (s t : String) :
    d.ToldByText s t ∧
    (d.containsText t = true ↔ ∃ n, (ofText t).up n = some d) ∧
    (IsPartialOrder Dir Encloses ∧ IsChain Encloses {e | e.containsText t = true}) ∧
    (IsName s → (d.join s).parent? = some d ∧ (d.join s).name = s) ∧
    (d.join s).join t = d.join (s ++ "/" ++ t) ∧
    ofText (ofText t).text = ofText t := by
  refine ⟨toldByText d s t, contains_iff_up, ⟨inferInstance, isChain_encloses t⟩, ?_,
    join_join d s t, ofText_text _⟩
  intro name
  exact ⟨parent?_join_name d name, name_join_name d name⟩

def shortTitle : Dir := Dir.ofText "/rls/TITLE"

theorem containsText_shortTitle :
    IsName "CD1" ∧ (shortTitle.join "CD1").parent? = some shortTitle ∧
      (shortTitle.join "CD1").name = "CD1" ∧
      (∃ n, (Dir.ofText "rls//TITLE/CD1/").up n = some shortTitle) ∧
      shortTitle.containsText "/rls/TITLE2" = false ∧
      ∀ n, (Dir.ofText "/rls/TITLE2").up n ≠ some shortTitle := by
  have name : IsName "CD1" := by decide
  obtain ⟨-, above, -, child, -⟩ :=
    containsText_iff_up shortTitle "CD1" "rls//TITLE/CD1/"
  obtain ⟨-, beside, -⟩ := containsText_iff_up shortTitle "CD1" "/rls/TITLE2"
  have apart : shortTitle.containsText "/rls/TITLE2" = false := by decide +kernel
  refine ⟨name, (child name).1, (child name).2, above.1 (by decide +kernel), apart, ?_⟩
  intro n reached
  have inside := beside.2 ⟨n, reached⟩
  rw [apart] at inside
  cases inside

end Archivist
