import Archivist.Config.Settings
import Archivist.Json.Writer
set_option autoImplicit false

namespace Archivist

def Json.nat (n : Nat) : Json := .integer n

def Json.texts (ss : List String) : Json := .list (ss.map .text)

def Json.orNull {α : Type} (f : α → Json) : Option α → Json
  | some a => f a
  | none => .null

def Placement.json : Placement → Json
  | .mostFree => .text "most_free"
  | .affinity => .text "affinity"

def Dir.json (d : Dir) : Json := .text d.text

def Section.json (s : Section) : Json :=
  .record [("name", .text s.name), ("path", s.path.json), ("type", s.placement.json),
    ("num_of_slaves", .nat s.copies), ("archive_after_secs", .nat s.minAge),
    ("priority", .nat s.priority), ("scan_subdirs", .bool s.deep), ("slaves", .texts s.nodes),
    ("ignore", .texts s.ignored), ("move_to", .orNull Dir.json s.target)]

def PortRange.json (r : PortRange) : Json :=
  .record [("start", .nat r.first.toNat), ("end", .nat r.last.toNat)]

def SocketSettings.json (s : SocketSettings) : Json :=
  .record [("timeout_ms", .nat s.timeoutMs), ("send_buffer_size", .orNull .nat s.sendBuffer),
    ("recv_buffer_size", .orNull .nat s.receiveBuffer), ("keepalive", .bool s.keepAlive),
    ("nodelay", .bool s.noDelay)]

def TransferSettings.json (s : TransferSettings) : Json :=
  .record [("connection", s.connection.json), ("passive_ports", s.passivePorts.json)]

def Settings.json (s : Settings) : Json :=
  .record [("cycle_time_secs", .nat s.cycleSeconds), ("max_concurrent_jobs", .nat s.maxJobs),
    ("transfer", s.transfer.json), ("sections", .list (s.sections.map Section.json))]

end Archivist
