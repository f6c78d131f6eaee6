import Archivist.Credentials.Der
set_option autoImplicit false

namespace Archivist

open Der

inductive CertificateFault where
  | oldVersion
  | malformed
deriving DecidableEq, Repr

structure Certificate where
  publicKey : Der.Bytes

namespace Certificate

def given {α : Type} : Option α → Except CertificateFault α
  | some a => .ok a
  | none => .error .malformed

def knownExtensions : List UInt8 := [15, 17, 19, 30, 31, 37]

def extensionFamily : Der.Bytes := [0x55, 0x1d]

def known? : Der.Bytes → Option UInt8
  | [a, b, c] => if [a, b] = extensionFamily ∧ c ∈ knownExtensions then some c else none
  | _ => none

/-- Looks at an extension: a critical one must be known, and a known one comes once. -/
def addExtension (seen : List UInt8) (bs : Der.Bytes) : Except CertificateFault (List UInt8) := do
  let (name, rest) ← given (expect? objectName bs)
  let (critical, rest) ←
    if isNext boolean rest then do
      let (v, rest) ← given (expect? boolean rest)
      if v = [0xff] then pure (true, rest) else if v = [0] then pure (false, rest)
      else throw .malformed
    else pure (false, rest)
  let value ← given (only? octetString rest)
  match known? name with
  | none => if critical then throw .malformed else return seen
  | some n =>
    if n ∈ seen then throw .malformed
    match n with
    | 15 => given ((only? bitString value).map fun _ => ())
    | 31 => pure ()
    | _ => given ((only? sequenceTag value).map fun _ => ())
    return n :: seen

def checkExtensions (bs : Der.Bytes) : Except CertificateFault Unit := do
  let tagged ← given (only? (field 3) bs)
  let list ← given (only? sequenceTag tagged)
  let elements ← given (all? (list.length + 1) list)
  let _ ← elements.foldlM (fun seen e =>
    if e.tag = sequenceTag then addExtension seen e.value else throw .malformed) []

def parts (der : Der.Bytes) : Except CertificateFault (Der.Bytes × Der.Bytes × Der.Bytes) := do
  let body ← given (only? sequenceTag der)
  let (signed, rest) ← given (expect? sequenceTag body)
  let (algorithm, rest) ← given (expect? sequenceTag rest)
  let signature ← given (only? bitString rest)
  return (signed, algorithm, signature)

def checkVersion (bs : Der.Bytes) : Except CertificateFault Der.Bytes :=
  match expect? (field 0) bs with
  | none => .error .oldVersion
  | some (v, rest) => if only? integer v = some [2] then .ok rest else .error .oldVersion

def ofDer (der : Der.Bytes) : Except CertificateFault Certificate := do
  let (signed, algorithm, signature) ← parts der
  let _ ← given (wholeBits? signature)
  let rest ← checkVersion signed
  let (_, rest) ← given (expect? integer rest)
  let (inner, rest) ← given (expect? sequenceTag rest)
  if inner ≠ algorithm then throw .malformed
  let (_, rest) ← given (expect? sequenceTag rest)
  let (_, rest) ← given (expect? sequenceTag rest)
  let (_, rest) ← given (expect? sequenceTag rest)
  let (publicKey, rest) ← given (expect? sequenceTag rest)
  if rest ≠ [] then checkExtensions rest
  return ⟨publicKey⟩

/-- True for a certificate of the first version, which has neither a version nor extensions. -/
def isFirstVersion (der : Der.Bytes) : Bool :=
  match (do
    let (signed, _, _) ← parts der
    let (_, rest) ← given (expect? integer signed)
    let (_, rest) ← given (expect? sequenceTag rest)
    let (_, rest) ← given (expect? sequenceTag rest)
    let (_, rest) ← given (expect? sequenceTag rest)
    let (_, rest) ← given (expect? sequenceTag rest)
    let (_, rest) ← given (expect? sequenceTag rest)
    return rest) with
  | .ok [] => true
  | _ => false

def isRoot (der : Der.Bytes) : Bool :=
  match ofDer der with
  | .ok _ => true
  | .error .oldVersion => isFirstVersion der
  | .error .malformed => false

end Certificate
end Archivist
