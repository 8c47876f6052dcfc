/-!
# Byte strings

Payloads are plain lists of bytes. This file also fixes the two-digit lowercase
form in which a byte is shown.
-/

namespace Wirepack
set_option autoImplicit false

/-- A byte string. -/
abbrev Bytes := List UInt8

namespace Bytes

/-- The lowercase hexadecimal digit of a number below sixteen. -/
def hexDigit (n : Nat) : Char := Nat.digitChar (n % 16)

/-- The two digits of a byte, high half first. -/
def hexPair (byte : UInt8) : List Char :=
  [hexDigit (byte.toNat / 16), hexDigit byte.toNat]

/-- All bytes in order, two digits each, with nothing between them. -/
def toHex (data : Bytes) : String := String.ofList (data.flatMap hexPair)

theorem length_toHex (data : Bytes) : (toHex data).toList.length = data.length * 2 := by
  rw [toHex, String.toList_ofList]
  induction data with
  | nil => rfl
  | cons byte data ih =>
    rw [List.flatMap_cons, List.length_append, ih, List.length_cons]
    show 2 + data.length * 2 = (data.length + 1) * 2
    omega

end Bytes

end Wirepack
