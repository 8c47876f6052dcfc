import Wirepack.Bytes

/-!
# Hex dumps

Bytes are shown sixteen a row, each row headed by the offset of its first byte. Offsets have 64 bits and
wrap around past them.
-/

namespace Wirepack.Hexdump
set_option autoImplicit false

/-- The number of bytes in a full row. -/
def width : Nat := 16

/-- An offset in hexadecimal, of eight digits or more. -/
def offsetText (offset : UInt64) : List Char :=
  let digits := Nat.toDigits 16 offset.toNat
  List.replicate (8 - digits.length) '0' ++ digits

/-- The characters from `start` up to `stop`, which must be in the text. -/
def slice (text : List Char) (start stop : Nat) (_ : start ≤ stop ∧ stop ≤ text.length) : List Char :=
  text.extract start stop

/-- The hex text of bytes, cut into the two digits of each. -/
def pairs (chunk : Bytes) : List (List Char) :=
  List.ofFn fun j : Fin chunk.length =>
    slice (Bytes.toHex chunk).toList (j * 2) (j * 2 + 2) (by
      have inside := j.isLt
      rw [Bytes.length_toHex]
      omega)

/-- One row: the offset of its first byte, then its bytes. -/
def row (offset : UInt64) (chunk : Bytes) : String :=
  String.ofList (offsetText offset ++ [' ', ' '] ++ [' '].intercalate (pairs chunk))

/-- The bytes of each row. -/
def chunks (data : Bytes) : List Bytes :=
  match data with
  | [] => []
  | first :: rest => (first :: rest.take (width - 1)) :: chunks (rest.drop (width - 1))
termination_by data.length
decreasing_by
  rw [List.length_drop, List.length_cons]
  omega

/-- The rows of a byte string whose first byte has the offset `base`. -/
def rows (base : UInt64) (data : Bytes) : List String :=
  (chunks data).zipIdx.map fun (chunk, i) => row (base + UInt64.ofNat (i * width)) chunk

end Wirepack.Hexdump
