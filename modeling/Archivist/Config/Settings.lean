import Archivist.Archive.Error
import Archivist.Archive.Section
import Archivist.Net.Connection
set_option autoImplicit false

namespace Archivist

structure TransferSettings where
  connection : SocketSettings := {}
  passivePorts : PortRange := .any
deriving DecidableEq

structure Settings where
  /-- Seconds between two cycles. -/
  cycleSeconds : Nat := 600
  maxJobs : Nat := 4
  transfer : TransferSettings := {}
  sections : List Section := []
deriving DecidableEq

namespace Settings

def section? (s : Settings) (name : String) : Option Section :=
  s.sections.find? (·.name = name)

def checkSection (x : Section) : Except ConfigFault Unit := do
  if x.copies = 0 then throw (.noCopies x.name)
  match x.target with
  | some target => if x.path.contains target then throw (.targetInside x.name target)
  | none => pure ()

def checkSections : List String → List Section → Except ConfigFault Unit
  | _, [] => .ok ()
  | seen, x :: xs => do
    if seen.contains x.name then throw (.repeatedSection x.name)
    checkSection x
    checkSections (x.name :: seen) xs

def check (s : Settings) : Except ConfigFault Unit := do
  if s.cycleSeconds = 0 then throw .cycleTime
  if s.maxJobs = 0 then throw .concurrency
  if s.transfer.connection.timeoutMs = 0 then throw .timeout
  checkSections [] s.sections

end Settings
end Archivist
