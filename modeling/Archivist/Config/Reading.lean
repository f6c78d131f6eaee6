import Archivist.Config.Settings
import Archivist.Document.Decode
set_option autoImplicit false

namespace Archivist

abbrev Reads (α : Type) := Decoder TransferError α

namespace Reads

def dir : Reads Dir := fun d => (Decoder.text d).map Dir.ofText

def placement (dialect : Dialect) : Reads Placement :=
  Decoder.choice dialect [("most_free", .mostFree), ("affinity", .affinity)]

structure SectionDraft where
  name : Option String := none
  path : Option Dir := none
  placement : Option Placement := none
  rest : Section := { name := "", path := .root, placement := .mostFree }

def sectionLayout (dialect : Dialect) : Layout TransferError SectionDraft where
  fields := [
    Layout.field "name" Decoder.text fun s x => { s with name := some x },
    Layout.field "path" dir fun s x => { s with path := some x },
    Layout.field "type" (placement dialect) fun s x => { s with placement := some x },
    Layout.field "num_of_slaves" Decoder.nat64 fun s x =>
      { s with rest := { s.rest with copies := x } },
    Layout.field "archive_after_secs" Decoder.nat64 fun s x =>
      { s with rest := { s.rest with minAge := x } },
    Layout.field "priority" Decoder.nat32 fun s x =>
      { s with rest := { s.rest with priority := x } },
    Layout.field "scan_subdirs" Decoder.bool fun s x => { s with rest := { s.rest with deep := x } },
    Layout.field "slaves" (Decoder.listOf Decoder.text) fun s x =>
      { s with rest := { s.rest with nodes := x } },
    Layout.field "ignore" (Decoder.listOf Decoder.text) fun s x =>
      { s with rest := { s.rest with ignored := x } },
    Layout.field "move_to" (Decoder.optional dir) fun s x =>
      { s with rest := { s.rest with target := x } }]

def section_ (dialect : Dialect) : Reads Section := fun d => do
  let draft ← (sectionLayout dialect).fill dialect {} d
  let name ← required draft.name
  let path ← required draft.path
  let placement ← required draft.placement
  return { draft.rest with name, path, placement }

def rangeLayout : Layout TransferError (Option Nat × Option Nat) where
  fields := [
    Layout.field "start" Decoder.nat16 fun s x => (some x, s.2),
    Layout.field "end" Decoder.nat16 fun s x => (s.1, some x)]

def portRange (dialect : Dialect) : Reads PortRange := fun d => do
  let ends ← rangeLayout.fill dialect (none, none) d
  let first ← required ends.1
  let last ← required ends.2
  match PortRange.make first.toUInt16 last.toUInt16 with
  | .ok r => .ok r
  | .error e => .error (.refused e)

def socketLayout : Layout TransferError SocketSettings where
  fields := [
    Layout.field "timeout_ms" Decoder.nat64 fun s x => { s with timeoutMs := x },
    Layout.field "send_buffer_size" (Decoder.optional Decoder.nat64) fun s x =>
      { s with sendBuffer := x },
    Layout.field "recv_buffer_size" (Decoder.optional Decoder.nat64) fun s x =>
      { s with receiveBuffer := x },
    Layout.field "keepalive" Decoder.bool fun s x => { s with keepAlive := x },
    Layout.field "nodelay" Decoder.bool fun s x => { s with noDelay := x }]

def socketSettings (dialect : Dialect) : Reads SocketSettings := socketLayout.fill dialect {}

def transferLayout (dialect : Dialect) : Layout TransferError TransferSettings where
  fields := [
    Layout.field "connection" (socketSettings dialect) fun s x => { s with connection := x },
    Layout.field "passive_ports" (portRange dialect) fun s x => { s with passivePorts := x }]

def transferSettings (dialect : Dialect) : Reads TransferSettings :=
  (transferLayout dialect).fill dialect {}

def settingsLayout (dialect : Dialect) : Layout TransferError Settings where
  fields := [
    Layout.field "cycle_time_secs" Decoder.nat64 fun s x => { s with cycleSeconds := x },
    Layout.field "max_concurrent_jobs" Decoder.nat64 fun s x => { s with maxJobs := x },
    Layout.field "transfer" (transferSettings dialect) fun s x => { s with transfer := x },
    Layout.field "sections" (Decoder.listOf (section_ dialect)) fun s x => { s with sections := x }]

def settings (dialect : Dialect) : Reads Settings := (settingsLayout dialect).fill dialect {}

end Reads
end Archivist
