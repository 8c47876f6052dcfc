/-!
# Limits and sizes
-/

namespace Wirepack
set_option autoImplicit false

/-- What a caller may choose. The initial capacity has no bearing on the bytes written. -/
structure Config where
  /-- The size of the buffer that encoding starts with. -/
  initialCapacity : Nat := 1024
  /-- The largest number of elements an array may have when it is read. -/
  maxCollection : Nat := 10000000
  deriving DecidableEq, Repr

end Wirepack
