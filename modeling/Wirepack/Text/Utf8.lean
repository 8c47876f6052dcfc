import Wirepack.Bytes

/-!
# UTF-8 text as bytes

`encode` and `decode` convert between strings and byte strings. Where `decode`
refuses, it names the first defect: how many bytes hold before it, and whether the
data broke a sequence or ended inside one.
-/

namespace Wirepack.Utf8
set_option autoImplicit false

/-- The UTF-8 bytes of a string. -/
def encode (text : String) : Bytes := text.toUTF8.data.toList

/-- The string with these UTF-8 bytes, if there is one. -/
def decode? (data : Bytes) : Option String := String.fromUTF8? ⟨data.toArray⟩

/-- Why a byte string is not UTF-8. -/
inductive Defect where
  /-- The `length` bytes from `index` on start no character. -/
  | invalid (length index : Nat)
  /-- The data ends inside the character that starts at `index`. -/
  | incomplete (index : Nat)
  /-- Any other finding, in words. -/
  | other (text : String)
  deriving DecidableEq, Repr

def Defect.message : Defect → String
  | .invalid length index => s!"invalid utf-8 sequence of {length} bytes from index {index}"
  | .incomplete index => s!"incomplete utf-8 byte sequence from index {index}"
  | .other text => text

/-- The ranges that the bytes after `lead` must lie in; none when `lead` starts no
character of two or more bytes. The first range excludes over-long forms,
surrogates and values past the last code point. -/
def trailRanges (lead : UInt8) : List (UInt8 × UInt8) :=
  if 0xC2 ≤ lead ∧ lead ≤ 0xDF then [(0x80, 0xBF)]
  else if lead = 0xE0 then [(0xA0, 0xBF), (0x80, 0xBF)]
  else if lead = 0xED then [(0x80, 0x9F), (0x80, 0xBF)]
  else if 0xE1 ≤ lead ∧ lead ≤ 0xEF then [(0x80, 0xBF), (0x80, 0xBF)]
  else if lead = 0xF0 then [(0x90, 0xBF), (0x80, 0xBF), (0x80, 0xBF)]
  else if 0xF1 ≤ lead ∧ lead ≤ 0xF3 then [(0x80, 0xBF), (0x80, 0xBF), (0x80, 0xBF)]
  else if lead = 0xF4 then [(0x80, 0x8F), (0x80, 0xBF), (0x80, 0xBF)]
  else []

/-- Where reading stops. `start` is the index of the current character, `seen` the
number of its bytes already read and `pending` the ranges of those still due. Data
that is UTF-8 throughout is reported as incomplete at its end. -/
def stop (start seen : Nat) : List (UInt8 × UInt8) → Bytes → Defect
  | _, [] => .incomplete start
  | [], lead :: rest =>
    if lead < 0x80 then stop (start + 1) 0 [] rest
    else match trailRanges lead with
      | [] => .invalid 1 start
      | due => stop start 1 due rest
  | (low, high) :: due, byte :: rest =>
    if low ≤ byte ∧ byte ≤ high then
      match due with
      | [] => stop (start + seen + 1) 0 [] rest
      | due => stop start (seen + 1) due rest
    else .invalid seen start

/-- The string with these bytes, or the first defect. -/
def decode (data : Bytes) : Except Defect String :=
  match decode? data with
  | some text => .ok text
  | none => .error (stop 0 0 [] data)

end Wirepack.Utf8
