/-!
# Fixed-point floats

A float travels as the integer part of ten thousand times its value. The product is
formed in the float's own precision and truncated toward zero; it saturates at the
ends of the 64-bit range, and NaN becomes zero.
-/

namespace Wirepack.FixedPoint
set_option autoImplicit false

def quantize32 (value : Float32) : Int64 := (value * 10000.0).toModel.toInt64

def quantize64 (value : Float) : Int64 := (value * 10000.0).toModel.toInt64

def dequantize64 (quantized : Int64) : Float := quantized.toFloat / 10000.0

/-- Divides in double precision and rounds the quotient once more. -/
def dequantize32 (quantized : Int64) : Float32 := (dequantize64 quantized).toFloat32

end Wirepack.FixedPoint
