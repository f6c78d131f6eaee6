import Archivist.Credentials.Der
import Archivist.Credentials.Pem
set_option autoImplicit false

namespace Archivist.PrivateKey

open Der

def curveName : Der.Bytes := [0x2a, 0x86, 0x48, 0xce, 0x3d, 0x02, 0x01]
def curve256 : Der.Bytes := [0x2a, 0x86, 0x48, 0xce, 0x3d, 0x03, 0x01, 0x07]
def curve384 : Der.Bytes := [0x2b, 0x81, 0x04, 0x00, 0x22]
def edwardsName : Der.Bytes := [0x2b, 0x65, 0x70]
def rsaName : Der.Bytes := [0x2a, 0x86, 0x48, 0x86, 0xf7, 0x0d, 0x01, 0x01, 0x01]

def curveKind (curve : Der.Bytes) : Der.Bytes :=
  write objectName curveName ++ write objectName curve

def rsaKind : Der.Bytes := write objectName rsaName ++ [0x05, 0x00]

def publicInfo (kind key : Der.Bytes) : Der.Bytes :=
  write sequenceTag kind ++ write bitString (0 :: key)

def curves : List (Nat × Der.Bytes) := [(32, curve256), (48, curve384)]

def onCurve? (curve? : Option Der.Bytes) (bs : Der.Bytes) : Option Der.Bytes := do
  let body ← only? sequenceTag bs
  let (version, rest) ← expect? integer body
  if version ≠ [1] then none
  let (secret, rest) ← expect? octetString rest
  let curve ← match curve? with
    | some c => some c
    | none => curves.lookup secret.length
  if curves.lookup secret.length ≠ some curve then none
  let rest ←
    if isNext (field 0) rest then do
      let (named, rest) ← expect? (field 0) rest
      if named = write objectName curve then some rest else none
    else some rest
  let tagged ← only? (field 1) rest
  let key ← wholeBits? (← only? bitString tagged)
  if key.length = 2 * secret.length + 1 ∧ key.head? = some 4 then
    some (publicInfo (curveKind curve) key)
  else none

def significant : Der.Bytes → Der.Bytes
  | 0 :: rest => rest
  | bs => bs

/-- Reads a key of two primes, of 2048 to 4096 bits. -/
def ofPrimes? (bs : Der.Bytes) : Option Der.Bytes := do
  let body ← only? sequenceTag bs
  let elements ← all? (body.length + 1) body
  if elements.length ≠ 9 ∨ elements.any (·.tag ≠ integer) then none
  match elements.map (·.value) with
  | version :: n :: e :: _ =>
    let size := (significant n).length
    if version = [0] ∧ 256 ≤ size ∧ size ≤ 512 then
      some (publicInfo rsaKind (write sequenceTag (write integer n ++ write integer e)))
    else none
  | _ => none

/-- Reads a key in the form that names its kind; the inner `none` is an unwritten public half. -/
def wrapped? (bs : Der.Bytes) : Option (Option Der.Bytes) := do
  let body ← only? sequenceTag bs
  let (version, rest) ← expect? integer body
  let (kind, rest) ← expect? sequenceTag rest
  let (key, rest) ← expect? octetString rest
  let rest ←
    if isNext (field 0) rest then (expect? (field 0) rest).map (·.2) else some rest
  if kind = write objectName edwardsName then
    let secret ← only? octetString key
    if secret.length = 32 ∧ (version = [0] ∨ version = [1]) then some none else none
  else if version ≠ [0] ∨ rest ≠ [] then none
  else if kind = rsaKind then (ofPrimes? key).map some
  else if kind = curveKind curve256 then (onCurve? (some curve256) key).map some
  else if kind = curveKind curve384 then (onCurve? (some curve384) key).map some
  else none

def usable? (key : Pem.PemSection) : Option (Option Der.Bytes) :=
  match key.kind with
  | .pkcs1Key => (ofPrimes? key.content).map some
  | .sec1Key => (onCurve? none key.content).map some
  | .pkcs8Key => wrapped? key.content
  | .certificate | .other => none

end Archivist.PrivateKey
