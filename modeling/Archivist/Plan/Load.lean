import Archivist.Config.Load
import Archivist.Plan.Snapshot
set_option autoImplicit false

namespace Archivist.Snapshot

structure LoadFailure where
  context : String
  cause : LoadError
deriving DecidableEq

def parse (text : String) : Except LoadError Snapshot :=
  (Json.decode (Reads.snapshot Json.dialect) text).mapError LoadError.ofFault

def load (files : Files) (path : String) : Except LoadFailure Snapshot := do
  let text ← (files.text path).mapError fun e => ⟨s!"reading snapshot {path}", .io e⟩
  (parse text).mapError fun e => ⟨s!"parsing snapshot {path}", e⟩

end Archivist.Snapshot
