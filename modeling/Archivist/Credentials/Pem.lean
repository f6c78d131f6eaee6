import Archivist.Credentials.Base64
import Archivist.Text.Pieces
set_option autoImplicit false

namespace Archivist.Pem

inductive Kind where
  | certificate
  | pkcs1Key
  | pkcs8Key
  | sec1Key
  /-- Something that is neither a certificate nor a key. -/
  | other
deriving DecidableEq, Repr

def kinds : List (String × Kind) :=
  [("CERTIFICATE", .certificate), ("RSA PRIVATE KEY", .pkcs1Key), ("PRIVATE KEY", .pkcs8Key),
    ("EC PRIVATE KEY", .sec1Key), ("PUBLIC KEY", .other), ("X509 CRL", .other),
    ("CERTIFICATE REQUEST", .other), ("ECHCONFIG", .other)]

inductive PemFault where
  | badBeginning
  | noEnd
  | badContent
deriving DecidableEq, Repr

def PemFault.message : PemFault → String
  | .badBeginning => "malformed section start"
  | .noEnd => "section without an end"
  | .badContent => "malformed base64"

structure PemSection where
  kind : Kind
  content : List UInt8

def beginMark : List Char := "-----BEGIN ".toList

def label? (line : List Char) : Option (List Char) :=
  let text := (line.reverse.dropWhile fun c => c = ' ').reverse
  let dashes := (text.reverse.takeWhile (· = '-')).length
  if dashes = 5 then some ((text.take (text.length - 5)).drop beginMark.length) else none

def endMark (label : List Char) : List Char := "-----END ".toList ++ label ++ "-----".toList

abbrev Found := Except PemFault PemSection

/-- Reads sections line by line; `inside` is the label of the open section and `content` what has
been gathered. -/
def sectionsFrom : List (List Char) → Option (List Char) → List Char → List Found
  | [], none, _ => []
  | [], some _, _ => [.error .noEnd]
  | line :: rest, inside, content =>
    if beginMark.isPrefixOf line then
      match label? line with
      | none => [.error .badBeginning]
      | some label => sectionsFrom rest (some label) content
    else
      match inside with
      | none => sectionsFrom rest none content
      | some label =>
        if (endMark label).isPrefixOf line then
          match kinds.lookup (String.ofList label) with
          | none => sectionsFrom rest none []
          | some kind =>
            match Base64.decode? content with
            | none => [.error .badContent]
            | some bytes => .ok ⟨kind, bytes⟩ :: sectionsFrom rest none []
        else sectionsFrom rest (some label) (content ++ line)

/-- The sections of a text; lines end at either of the two line end characters. -/
def sections (text : String) : List Found :=
  sectionsFrom ((Text.pieces '\n' text.toList).flatMap (Text.pieces '\r')) none []

def certificates (text : String) : Except PemFault (List (List UInt8)) := do
  let found ← (sections text).mapM id
  return (found.filter (·.kind = .certificate)).map (·.content)

def firstKey : List Found → Except PemFault (Option PemSection)
  | [] => .ok none
  | .error e :: _ => .error e
  | .ok s :: rest =>
    match s.kind with
    | .pkcs1Key | .pkcs8Key | .sec1Key => .ok (some s)
    | .certificate | .other => firstKey rest

def key (text : String) : Except PemFault (Option PemSection) := firstKey (sections text)

end Archivist.Pem
