import Archivist.Word
set_option autoImplicit false

namespace Archivist

/-- Nanoseconds since the epoch. -/
abbrev Instant := Int

namespace Instant

def epoch : Instant := 0

def second : Int := 1000000000

/-- The instant some seconds before another; one that would lie before the first that can be
told is replaced by the epoch. -/
def before (now : Instant) (seconds : Nat) : Instant :=
  if now / second - seconds < -(Word.bound63 : Int) then epoch else now - seconds * second

def ageSeconds (now created : Instant) : Nat := ((now - created) / second).toNat

end Instant

structure Clock where
  now : Instant
deriving Inhabited

def Clock.standard : Clock := ⟨1795123200 * Instant.second⟩

def Clock.read (c : Clock) : Instant × Clock := (c.now, ⟨c.now + 1⟩)

end Archivist
