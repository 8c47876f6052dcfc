/-!
# Zigzag mapping

Signed integers are mapped to unsigned ones so that small magnitudes stay small:
0, -1, 1, -2, 2, … become 0, 1, 2, 3, 4, …
-/

namespace Wirepack.Zigzag
set_option autoImplicit false

def encode32 (n : Int32) : UInt32 := ((n <<< 1) ^^^ (n >>> 31)).toUInt32

def decode32 (u : UInt32) : Int32 := (u >>> 1).toInt32 ^^^ -(u &&& 1).toInt32

def encode64 (n : Int64) : UInt64 := ((n <<< 1) ^^^ (n >>> 63)).toUInt64

def decode64 (u : UInt64) : Int64 := (u >>> 1).toInt64 ^^^ -(u &&& 1).toInt64

end Wirepack.Zigzag
