import Archivist.Credentials.Certificate
import Archivist.Credentials.PrivateKey
import Archivist.Transfer.Error
set_option autoImplicit false

namespace Archivist

inductive TlsRole where
  | client
  | server
deriving DecidableEq, Repr

structure Credentials where
  roots : String
  chain : String
  key : String
  requireClientAuth : Bool
  role : Option TlsRole := none

namespace Credentials

def roleOr (c : Credentials) (usual : TlsRole) : TlsRole := c.role.getD usual

def loadCertificates (pem : String) : Except TransferError (List Der.Bytes) :=
  match Pem.certificates pem with
  | .error e => .error (.tls s!"malformed certificate PEM: {e.message}")
  | .ok [] => .error (.tls "no certificates found in PEM")
  | .ok cs => .ok cs

def loadKey (pem : String) : Except TransferError Pem.PemSection :=
  match Pem.key pem with
  | .error e => .error (.tls s!"malformed key PEM: {e.message}")
  | .ok none => .error (.tls "no private key found in PEM")
  | .ok (some k) => .ok k

def loadRoots (pem : String) : Except TransferError Unit := do
  let cs ← loadCertificates pem
  if cs.all Certificate.isRoot then return ()
  else throw (.tls "failed to add CA cert: not a usable certificate")

/-- A key belongs to the first certificate of a chain if that one is for its public half. -/
def fits (chain : List Der.Bytes) (key : Pem.PemSection) : Bool :=
  match chain, PrivateKey.usable? key with
  | der :: _, some half =>
    match Certificate.ofDer der, half with
    | .ok c, some own => c.publicKey = own
    | .ok _, none => true
    | .error _, _ => false
  | _, _ => false

def connector (c : Credentials) : Except TransferError Unit := do
  loadRoots c.roots
  if c.chain = "" then return ()
  let chain ← loadCertificates c.chain
  let key ← loadKey c.key
  if fits chain key then return ()
  else throw (.tls "failed to create client config: key and certificate do not fit")

def acceptor (c : Credentials) : Except TransferError Unit := do
  let chain ← loadCertificates c.chain
  let key ← loadKey c.key
  if c.requireClientAuth then loadRoots c.roots
  if fits chain key then return ()
  else throw (.tls "failed to set server cert: key and certificate do not fit")

end Credentials
end Archivist
