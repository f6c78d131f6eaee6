set_option autoImplicit false

namespace Archivist.Word

abbrev bound16 : Nat := 65536
abbrev bound32 : Nat := 4294967296

abbrev bound63 : Nat := 9223372036854775808
abbrev bound64 : Nat := 18446744073709551616

end Archivist.Word
