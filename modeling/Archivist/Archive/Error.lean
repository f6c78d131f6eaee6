import Archivist.Path.Dir
import Archivist.Transfer.Error
set_option autoImplicit false

namespace Archivist

inductive NamespaceFault where
  | notFound (what : String)
  | alreadyExists (d : Dir)
  | other (message : String)
deriving DecidableEq

inductive ConfigFault where
  | cycleTime
  | concurrency
  | timeout
  | repeatedSection (name : String)
  | noCopies (section_ : String)
  | targetInside (section_ : String) (target : Dir)
  | other (message : String)
deriving DecidableEq

inductive Owner where
  /-- A run of a handler of this process, by the order in which the handlers were made. -/
  | run (n : Nat)
  /-- An owner from outside, by its 128-bit number. -/
  | external (n : Nat)
deriving DecidableEq, Inhabited

inductive RegistryFault where
  | ownedBy (d : Dir) (holder owner : Owner)
  | notRegistered (d : Dir) (owner : Owner)
  | other (message : String)
deriving DecidableEq

inductive StateFault where
  | noDirectory
  | noDestinations
  | emptyDestinations
  | frozen
  | noRuntime
  | executorClosed
  | noPassivePort (node : String)
  | unexpectedReply (node reply : String)
  | checksum (path : String) (sent stored : UInt32)
  | other (message : String)
deriving DecidableEq

inductive ArchiveError where
  | duplicate (d : Dir)
  | nodeUnavailable (node : String)
  | transport (e : TransferError)
  | inconsistency (f : RegistryFault)
  | state (f : StateFault)
  | namespace (f : NamespaceFault)
  | config (f : ConfigFault)
deriving DecidableEq

def NamespaceFault.message : NamespaceFault → String
  | .notFound what => s!"{what} not found"
  | .alreadyExists d => s!"{d.text} already exists"
  | .other m => m

def ConfigFault.message : ConfigFault → String
  | .cycleTime => "cycle_time_secs must be positive"
  | .concurrency => "max_concurrent_jobs must be at least 1"
  | .timeout => "transfer timeout must be positive"
  | .repeatedSection name => s!"section {name} configured twice"
  | .noCopies name => s!"section {name}: num_of_slaves must be at least 1"
  | .targetInside name target => s!"section {name}: move_to {target.text} lies inside the section"
  | .other m => m

namespace Owner

def hex (width n : Nat) : String :=
  let ds := Nat.toDigits 16 n
  String.ofList (List.replicate (width - ds.length) '0' ++ ds)

/-- An owner from outside has its number in groups of hexadecimal digits; the numbers of this
process's own runs are drawn at random, so only that is told. -/
def text : Owner → String
  | .run _ => "random"
  | .external n =>
    let ds := (hex 32 n).toList
    "-".intercalate ([(0, 8), (8, 4), (12, 4), (16, 4), (20, 12)].map fun (start, count) =>
      String.ofList ((ds.drop start).take count))

end Owner

def RegistryFault.message : RegistryFault → String
  | .ownedBy d holder owner => s!"{d.text} is owned by handler {holder.text}, not {owner.text}"
  | .notRegistered d owner => s!"{d.text} is not registered (handler {owner.text})"
  | .other m => m

def hex8 (n : UInt32) : String := Owner.hex 8 n.toNat

def StateFault.message : StateFault → String
  | .noDirectory => "no directory assigned"
  | .noDestinations => "destinations not resolved"
  | .emptyDestinations => "empty destination set"
  | .frozen => "destinations already frozen"
  | .noRuntime => "no async runtime to run jobs on"
  | .executorClosed => "executor shut down"
  | .noPassivePort node => s!"{node} opened a passive channel without a port"
  | .unexpectedReply node reply => s!"unexpected open reply from {node}: {reply}"
  | .checksum path sent stored =>
    s!"checksum mismatch for {path}: sent {hex8 sent}, stored {hex8 stored}"
  | .other m => m

namespace ArchiveError

def message : ArchiveError → String
  | .duplicate d => s!"directory {d.text} is already being archived"
  | .nodeUnavailable node => s!"slave {node} unavailable"
  | .transport e => s!"transport failure: {e.message}"
  | .inconsistency f => s!"internal consistency fault: {f.message}"
  | .state f => s!"invalid policy state: {f.message}"
  | .namespace f => s!"namespace error: {f.message}"
  | .config f => s!"config error: {f.message}"

def isInternalFault : ArchiveError → Bool
  | .inconsistency _ => true
  | _ => false

def isNodeUnavailable : ArchiveError → Bool
  | .nodeUnavailable _ => true
  | .transport e => e.isUnreachable
  | _ => false

end ArchiveError
end Archivist
