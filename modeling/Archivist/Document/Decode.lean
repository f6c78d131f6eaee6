import Archivist.Document.Basic
import Archivist.Word
set_option autoImplicit false

/-!
# From documents to settings

A `Decoder` turns a document into a value of the domain.  Records are decoded field by field in
the order of the text, so of several complaints the one that stands first wins; a list may stand
for a record, its items being the fields in their declared order.
-/

namespace Archivist

/-- Why a document is refused: its shape is wrong, or a well-shaped value breaks a rule. -/
inductive Fault (ε : Type) where
  | malformed
  | refused (e : ε)
deriving DecidableEq, Repr

structure Dialect where
  /-- A list that stands for a record may have items beyond the record's last field. -/
  spareItems : Bool
  /-- What may stand beside a choice that is written as a record with one entry. -/
  isUnit : Document → Bool

abbrev Decoder (ε α : Type) := Document → Except (Fault ε) α

namespace Decoder

variable {ε α : Type}

def text : Decoder ε String
  | .text s => .ok s
  | _ => .error .malformed

def bool : Decoder ε Bool
  | .bool b => .ok b
  | _ => .error .malformed

def natBelow (bound : Nat) : Decoder ε Nat
  | .integer n => if 0 ≤ n ∧ n.toNat < bound then .ok n.toNat else .error .malformed
  | _ => .error .malformed

def nat64 : Decoder ε Nat := natBelow Word.bound64
def nat32 : Decoder ε Nat := natBelow Word.bound32
def nat16 : Decoder ε Nat := natBelow Word.bound16

def optional (item : Decoder ε α) : Decoder ε (Option α)
  | .null => .ok none
  | d => (item d).map some

def listOf (item : Decoder ε α) : Decoder ε (List α)
  | .list ds => ds.mapM item
  | _ => .error .malformed

/-- One of some named choices, written as its name or as a record whose only entry has it. -/
def choice (dialect : Dialect) (choices : List (String × α)) : Decoder ε α
  | .text s => pick s
  | .record [(some s, d)] => do
      let a ← pick s
      if dialect.isUnit d then .ok a else .error .malformed
  | _ => .error .malformed
where
  pick (s : String) : Except (Fault ε) α :=
    match choices.lookup s with
    | some a => .ok a
    | none => .error .malformed

end Decoder

/-- The fields of a record in their declared order: each adds what it reads to a draft. -/
structure Layout (ε σ : Type) where
  fields : List (String × (σ → Decoder ε σ))

namespace Layout

variable {ε σ : Type}

def field {α : Type} (name : String) (item : Decoder ε α) (put : σ → α → σ) :
    String × (σ → Decoder ε σ) :=
  (name, fun draft d => (item d).map (put draft))

def fillEntries (layout : Layout ε σ) :
    List String → σ → List (Option String × Document) → Except (Fault ε) σ
  | _, draft, [] => .ok draft
  | _, _, (none, _) :: _ => .error .malformed
  | seen, draft, (some name, d) :: rest =>
    match layout.fields.lookup name with
    | none => if d.intact then layout.fillEntries seen draft rest else .error .malformed
    | some add =>
      if name ∈ seen then .error .malformed
      else do layout.fillEntries (name :: seen) (← add draft d) rest

def fillItems (dialect : Dialect) :
    List (String × (σ → Decoder ε σ)) → σ → List Document → Except (Fault ε) σ
  | _, draft, [] => .ok draft
  | [], draft, _ :: _ => if dialect.spareItems then .ok draft else .error .malformed
  | f :: fs, draft, d :: ds => do fillItems dialect fs (← f.2 draft d) ds

/-- Reads the fields of a record into a draft: unknown names are passed over, a repeated field
is a fault. -/
def fill (layout : Layout ε σ) (dialect : Dialect) (draft : σ) : Decoder ε σ
  | .record entries => layout.fillEntries [] draft entries
  | .list items => fillItems dialect layout.fields draft items
  | _ => .error .malformed

end Layout

def required {ε α : Type} : Option α → Except (Fault ε) α
  | some a => .ok a
  | none => .error .malformed

end Archivist
