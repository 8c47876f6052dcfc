/-!
# Numbers as floats of another width

The double nearest to an integer or to a single-precision float, and the single-precision float
nearest to a double. All are rounded by the rules of the format, ties to the even neighbour; a
single-precision float loses nothing as a double.
-/

namespace Wirepack.Double
set_option autoImplicit false

open Float.Model (Format UnpackedFloat)

/-- The double nearest to an integer. -/
def ofInt (value : Int) : Float := .ofModel (.ofInt value)

/-- The sign, digits and exponent of a float, rounded to those of the format. -/
def rescaled (format : Format) : UnpackedFloat → UnpackedFloat
  | .finite sign mantissa exponent _ => .round format sign mantissa exponent
  | special => special

/-- A single-precision float as a double. -/
def ofSingle (value : Float32) : Float := .ofModel (.pack (rescaled .binary64 value.toModel.unpack))

/-- The single-precision float nearest to a double. -/
def toSingle (value : Float) : Float32 := .ofModel (.pack (rescaled .binary32 value.toModel.unpack))

end Wirepack.Double
