/-!
# Shortest decimals

Among the decimals that round back to a given float, `shortest` finds the one with the
fewest digits and, of those, the nearest. `FloatText` says how such a decimal is written.
-/

namespace Wirepack
set_option autoImplicit false

/-- The number `digits * 10 ^ exponent`. -/
structure Decimal where
  digits : Nat
  exponent : Int
  deriving DecidableEq, Repr

/-- A positive float as `mantissa * 2 ^ exponent`. The floats just above and below it are
one unit of the mantissa away; below, half a unit if `narrow`. -/
structure Binary where
  mantissa : Nat
  exponent : Int
  narrow : Bool
  deriving DecidableEq, Repr

/-- Which of two equally near decimals is taken. -/
inductive Tie where
  | up
  | toEven
  deriving DecidableEq, Repr

namespace Binary

/-- A float of `width` stored mantissa bits with the smallest exponent `lowest`, from its
bits without the sign. -/
def ofBits (width : Nat) (lowest : Int) (bits : Nat) : Binary :=
  let fraction := bits % Nat.pow 2 width
  let scale := bits / Nat.pow 2 width
  if scale = 0 then ⟨fraction, lowest, false⟩
  else ⟨Nat.pow 2 width + fraction, lowest + (scale - 1 : Nat), fraction = 0 ∧ 1 < scale⟩

def ofFloat (value : Float) : Binary := ofBits 52 (-1074) (value.toBits.toNat % 0x8000000000000000)

def ofFloat32 (value : Float32) : Binary := ofBits 23 (-149) (value.toBits.toNat % 0x80000000)

/-- The factors `(num, den)` for which `x * 2 ^ b.exponent / 10 ^ place` is
`4 * x * num / den`; the four leaves room for quarters of a mantissa unit. -/
def scaling (b : Binary) (place : Int) : Nat × Nat :=
  let shift := b.exponent - 2
  (Nat.pow 2 shift.toNat * Nat.pow 10 (-place).toNat, Nat.pow 2 (-shift).toNat * Nat.pow 10 place.toNat)

/-- Whether the float is at least `10 ^ place`. -/
def reaches (b : Binary) (place : Int) : Bool :=
  let (num, den) := b.scaling place
  den ≤ 4 * b.mantissa * num

/-- The place of the leading decimal digit: the greatest power of ten not above the
float. The estimate from the leading bit is off by one at most. -/
def leadingPlace (b : Binary) : Int :=
  let estimate := Int.fdiv ((b.mantissa.log2 + b.exponent) * 30103) 100000
  if b.reaches (estimate + 1) then estimate + 1
  else if b.reaches estimate then estimate
  else estimate - 1

/-- Whether `candidate * 10 ^ place` rounds to the float. The ends of the interval, half
way to the neighbours, do so only if the mantissa is even. -/
def accepts (b : Binary) (place : Int) (candidate : Nat) : Bool :=
  let (num, den) := b.scaling place
  let low := (4 * b.mantissa - if b.narrow then 1 else 2) * num
  let high := (4 * b.mantissa + 2) * num
  let point := candidate * den
  if b.mantissa % 2 = 0 then low ≤ point ∧ point ≤ high else low < point ∧ point < high

/-- The decimal on the grid of `10 ^ place` that rounds to the float and is nearest to it,
if there is one. -/
def onGrid? (b : Binary) (tie : Tie) (place : Int) : Option Decimal :=
  let (num, den) := b.scaling place
  let below := 4 * b.mantissa * num / den
  match b.accepts place below, b.accepts place (below + 1) with
  | false, false => none
  | true, false => some ⟨below, place⟩
  | false, true => some ⟨below + 1, place⟩
  | true, true =>
    let twice := 8 * b.mantissa * num
    let middle := (2 * below + 1) * den
    let above := middle < twice ∨ (middle = twice ∧ (tie = .up ∨ below % 2 = 1))
    some ⟨if above then below + 1 else below, place⟩

/-- Searches finer and finer grids, `left` of them after that of `place`. -/
def search (b : Binary) (tie : Tie) (place : Int) : Nat → Decimal
  | 0 =>
    let (num, den) := b.scaling place
    ⟨4 * b.mantissa * num / den, place⟩
  | left + 1 =>
    match b.onGrid? tie place with
    | some d => d
    | none => b.search tie (place - 1) left

end Binary

namespace Decimal

/-- The same number without zeros at the end of its digits; `bound` limits how many are
taken away. -/
def trim : Nat → Decimal → Decimal
  | 0, d => d
  | bound + 1, d => if d.digits % 10 = 0 then trim bound ⟨d.digits / 10, d.exponent + 1⟩ else d

/-- The shortest decimal that rounds to a positive float. Seventeen digits always do. -/
def shortest (b : Binary) (tie : Tie) : Decimal := trim 20 (b.search tie b.leadingPlace 20)

/-- The nearest double. -/
def toFloat (d : Decimal) : Float := Float.ofScientific d.digits (d.exponent < 0) d.exponent.natAbs

end Decimal

/-- How floats are written: those whose leading digit stands at a place from `lowest` to
`highest` in full, with a digit on each side of the point; all others with an exponent. -/
structure FloatText where
  lowest : Int
  highest : Int

namespace FloatText

/-- Doubles in documents. -/
def double : FloatText := ⟨-5, 15⟩

/-- Single-precision floats in documents. -/
def single : FloatText := ⟨-6, 12⟩

/-- A positive decimal in full, where `place` is that of its leading digit. -/
def plain (digits : List Char) (place : Int) : List Char :=
  match place with
  | .ofNat whole =>
    let front := digits.take (whole + 1)
    let back := digits.drop (whole + 1)
    front ++ List.replicate (whole + 1 - front.length) '0' ++ '.' :: (if back.isEmpty then ['0'] else back)
  | .negSucc zeros => '0' :: '.' :: List.replicate zeros '0' ++ digits

/-- A positive decimal with an exponent. -/
def scientific (digits : List Char) (place : Int) : List Char :=
  let fraction := digits.drop 1
  let sign := if place < 0 then '-' else '+'
  digits.take 1 ++ (if fraction.isEmpty then [] else '.' :: fraction) ++
    'e' :: sign :: (toString place.natAbs).toList

/-- The text of a positive decimal. -/
def write (format : FloatText) (d : Decimal) : String :=
  let digits := Nat.toDigits 10 d.digits
  let place := d.exponent + (digits.length - 1 : Nat)
  String.ofList <|
    if format.lowest ≤ place ∧ place ≤ format.highest then plain digits place
    else scientific digits place

/-- The text of a float given by its sign and magnitude. -/
def signed (format : FloatText) (negative : Bool) (magnitude : Binary) : String :=
  let text :=
    if magnitude.mantissa = 0 then "0.0" else format.write (Decimal.shortest magnitude .toEven)
  if negative then "-" ++ text else text

/-- The text of a finite double. -/
def ofFloat (value : Float) : String :=
  double.signed (0x8000000000000000 ≤ value.toBits.toNat) (Binary.ofFloat value)

/-- The text of a finite single-precision float. -/
def ofFloat32 (value : Float32) : String :=
  single.signed (0x80000000 ≤ value.toBits.toNat) (Binary.ofFloat32 value)

end FloatText

/-- The double nearest to the shortest decimal of a finite single-precision float, so that
1.1 in single precision becomes 1.1 and not its exact value 1.10000002384185791015625. -/
def Decimal.widen (value : Float32) : Float :=
  let magnitude := Binary.ofFloat32 value
  let positive := if magnitude.mantissa = 0 then 0.0 else (shortest magnitude .up).toFloat
  if 0x80000000 ≤ value.toBits.toNat then -positive else positive

end Wirepack
