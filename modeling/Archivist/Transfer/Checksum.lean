set_option autoImplicit false

namespace Archivist.Checksum

def polynomial : UInt32 := 0xEDB88320

def shift (r : UInt32) : UInt32 :=
  if r &&& 1 = 0 then r >>> 1 else (r >>> 1) ^^^ polynomial

def step (r : UInt32) (b : UInt8) : UInt32 :=
  shift (shift (shift (shift (shift (shift (shift (shift (r ^^^ b.toUInt32))))))))

def start : UInt32 := 0xFFFFFFFF

def update (r : UInt32) (bs : List UInt8) : UInt32 := bs.foldl step r

def sum (r : UInt32) : UInt32 := r ^^^ 0xFFFFFFFF

def crc32 (bs : List UInt8) : UInt32 := sum (update start bs)

theorem update_append (r : UInt32) (xs ys : List UInt8) :
    update r (xs ++ ys) = update (update r xs) ys := by
  simp [update]

end Archivist.Checksum
