import Wirepack.Keyed

/-!
# JSON values

Numbers keep their kind: an integer of at most 64 bits, or a double. Objects list their
members as written; of several with one key the last counts.
-/

namespace Wirepack
set_option autoImplicit false

/-- A JSON number. Integers range from -2^63 to 2^64 - 1, and doubles are finite. -/
inductive Json.Number where
  | integer (value : Int)
  | double (value : Float)
  deriving DecidableEq

/-- A JSON value. -/
inductive Json where
  | null
  | bool (value : Bool)
  | number (value : Json.Number)
  | string (text : String)
  | array (items : List Json)
  | object (members : List (String × Json))

namespace Json

mutual

/-- Two values are compared part by part. -/
def decEq : (a b : Json) → Decidable (a = b)
  | .null, .null => .isTrue rfl
  | .bool a, .bool b => decidable_of_iff (a = b) (by simp)
  | .number a, .number b => decidable_of_iff (a = b) (by simp)
  | .string a, .string b => decidable_of_iff (a = b) (by simp)
  | .array a, .array b =>
    have := decEqItems a b
    decidable_of_iff (a = b) (by simp)
  | .object a, .object b =>
    have := decEqMembers a b
    decidable_of_iff (a = b) (by simp)
  | .null, .bool _ | .null, .number _ | .null, .string _ | .null, .array _ | .null, .object _
  | .bool _, .null | .bool _, .number _ | .bool _, .string _ | .bool _, .array _ | .bool _, .object _
  | .number _, .null | .number _, .bool _ | .number _, .string _ | .number _, .array _ | .number _, .object _
  | .string _, .null | .string _, .bool _ | .string _, .number _ | .string _, .array _ | .string _, .object _
  | .array _, .null | .array _, .bool _ | .array _, .number _ | .array _, .string _ | .array _, .object _
  | .object _, .null | .object _, .bool _ | .object _, .number _ | .object _, .string _ | .object _, .array _ =>
    .isFalse (by simp)

def decEqItems : (a b : List Json) → Decidable (a = b)
  | [], [] => .isTrue rfl
  | [], _ :: _ | _ :: _, [] => .isFalse (by simp)
  | a :: rest, b :: rest' =>
    have := decEq a b
    have := decEqItems rest rest'
    decidable_of_iff (a = b ∧ rest = rest') (by simp)

def decEqMembers : (a b : List (String × Json)) → Decidable (a = b)
  | [], [] => .isTrue rfl
  | [], _ :: _ | _ :: _, [] => .isFalse (by simp)
  | (key, a) :: rest, (key', b) :: rest' =>
    have := decEq a b
    have := decEqMembers rest rest'
    decidable_of_iff (key = key' ∧ a = b ∧ rest = rest') (by simp [and_assoc])

end

instance : DecidableEq Json := decEq

/-- The value of the last member of that key. -/
def member? (members : List (String × Json)) (key : String) : Option Json :=
  Keyed.get? members.reverse key

theorem sizeOf_member_lt {members : List (String × Json)} {key : String} {value : Json}
    (found : member? members key = some value) : sizeOf value < sizeOf members := by
  have member : (key, value) ∈ members := List.mem_reverse.1 (Keyed.mem_of_get? found)
  have := List.sizeOf_lt_of_mem member
  simp only [Prod.mk.sizeOf_spec] at this
  omega

/-- The integer a value holds, if it fits 64 bits with sign. -/
def asInt64? : Json → Option Int64
  | .number (.integer n) => if -0x8000000000000000 ≤ n ∧ n < 0x8000000000000000 then some (Int64.ofInt n) else none
  | _ => none

/-- The nearest double to a number. -/
def Number.toFloat : Number → Float
  | .integer n => if n < 0 then (Int64.ofInt n).toFloat else (UInt64.ofNat n.toNat).toFloat
  | .double x => x

/-- The double a value holds, integers included. -/
def asFloat? : Json → Option Float
  | .number n => some n.toFloat
  | _ => none

/-- A double, or null if it is not finite. -/
def ofFloat (value : Float) : Json := if value.isFinite then .number (.double value) else .null

def ofInt (value : Int) : Json := .number (.integer value)

/-- What kind of value this is, in words. -/
def kind : Json → String
  | .null => "null"
  | .bool _ => "bool"
  | .number (.integer _) => "number"
  | .number (.double _) => "number (fractional)"
  | .string _ => "string"
  | .array _ => "array"
  | .object _ => "object"

end Json

end Wirepack
