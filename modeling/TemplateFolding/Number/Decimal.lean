import TemplateFolding.Number.Binary
import TemplateFolding.Text.Basic

/-!
# Writing numbers in decimal

`shortest` finds the fewest digits that read back as the given number and, among those, the nearest
to it. `fixed` rounds the exact value to a number of places, a tie going to the even neighbour.
-/

namespace TemplateFolding

/-- The digits of a number in base ten. -/
def decimalDigits (n : Nat) : Text :=
  Nat.toDigits 10 n

namespace Binary

/-! ## Fixed places -/

/-- The quotient rounded to the nearest integer, a tie to the even one. -/
def roundDiv (num den : Nat) : Nat :=
  let q := num / den
  let r := num % den
  if 2 * r < den then q
  else if den < 2 * r then q + 1
  else if q % 2 = 0 then q else q + 1

/-- The number with `places` digits after the point. -/
def fixed (b : Binary) (places : Nat) : Text :=
  let scaled := roundDiv (b.numerator * Nat.pow 10 places) b.denominator
  let whole := decimalDigits (scaled / Nat.pow 10 places)
  let part := decimalDigits (scaled % Nat.pow 10 places)
  (if b.negative then ['-'] else []) ++ whole ++
    if places = 0 then [] else '.' :: List.replicate (places - part.length) '0' ++ part

/-! ## Shortest digits -/

/-- The number `digits · 10 ^ exponent`. -/
structure Scientific where
  digits : Nat
  exponent : Int
deriving DecidableEq

/-- The least `k` from `k` on, within `fuel` steps, for which the fraction times `10 ^ k` is at
least one. -/
def leadingZeros (num den : Nat) : (fuel k : Nat) → Nat
  | 0, k => k
  | fuel + 1, k => if den ≤ num * Nat.pow 10 k then k else leadingZeros num den fuel (k + 1)

/-- The power of ten of the first digit. -/
def magnitude (b : Binary) : Int :=
  let num := b.numerator
  let den := b.denominator
  if den ≤ num then (decimalDigits (num / den)).length - 1
  else -(leadingZeros num den 400 1 : Int)

/-- Four times the numerator of the least value that reads back as the number. Below a power of two
the neighbour is nearer. -/
def lowerBound (b : Binary) : Nat :=
  4 * b.numerator -
    (if b.mantissa = Nat.pow 2 52 ∧ minExponent < b.exponent then 1 else 2) * b.unit

/-- Four times the numerator of the largest value that reads back as the number. -/
def upperBound (b : Binary) : Nat :=
  4 * b.numerator + 2 * b.unit

/-- Whether a numerator over four times the denominator lies in the interval of values that read
back as the number. The ends belong to it iff the mantissa is even. -/
def readsBack (b : Binary) (scale x : Nat) : Bool :=
  let lower := b.lowerBound * scale
  let upper := b.upperBound * scale
  if b.mantissa % 2 = 0 then decide (lower ≤ x ∧ x ≤ upper) else decide (lower < x ∧ x < upper)

/-- The multiple of `10 ^ exponent` nearest to the number, among its two neighbours on that grid
that read back as it. -/
def onGrid? (b : Binary) (exponent : Int) : Option Scientific :=
  let scale := Nat.pow 10 (-exponent).toNat
  let cell := 4 * b.denominator * Nat.pow 10 exponent.toNat
  let value := 4 * b.numerator * scale
  let below := value / cell
  let fits (d : Nat) := b.readsBack scale (d * cell)
  match fits below, fits (below + 1) with
  | true, true =>
    if value - below * cell ≤ (below + 1) * cell - value then some ⟨below, exponent⟩
    else some ⟨below + 1, exponent⟩
  | true, false => some ⟨below, exponent⟩
  | false, true => some ⟨below + 1, exponent⟩
  | false, false => none

/-- Tries `count` more digits from `digits` digits on. -/
def shortestFrom (b : Binary) (magnitude : Int) : (count digits : Nat) → Scientific
  | 0, digits => ⟨b.numerator / b.denominator, digits⟩
  | count + 1, digits =>
    match b.onGrid? (magnitude - digits) with
    | some s => s
    | none => shortestFrom b magnitude count (digits + 1)

/-- The fewest digits that read back as the number; seventeen always do. -/
def shortest (b : Binary) : Scientific :=
  if b.mantissa = 0 then ⟨0, 0⟩ else shortestFrom b b.magnitude 17 0

end Binary

/-! ## Notation -/

/-- How a format writes numbers: which powers of ten of the first digit are written positionally,
and whether a positive exponent has a sign. -/
structure NumberStyle where
  minPositional : Int := -5
  maxPositional : Int := 15
  signedExponent : Bool

/-- A number in shortest form. Positional notation has at least one digit on either side of the
point. -/
def NumberStyle.write (style : NumberStyle) (b : Binary) : Text :=
  let s := b.shortest
  let written := decimalDigits s.digits
  let stripped := (written.reverse.dropWhile (· == '0')).reverse
  let digits := if stripped.isEmpty then ['0'] else stripped
  let power : Int := if s.digits = 0 then 0 else s.exponent + written.length - 1
  let body :=
    if style.minPositional ≤ power ∧ power ≤ style.maxPositional then
      if power < 0 then "0.".toList ++ List.replicate ((-power).toNat - 1) '0' ++ digits
      else
        let whole := power.toNat + 1
        let part := digits.drop whole
        digits.take whole ++ List.replicate (whole - digits.length) '0' ++ '.' ::
          if part.isEmpty then ['0'] else part
    else
      digits.take 1 ++ (if digits.length = 1 then [] else '.' :: digits.drop 1) ++ 'e' ::
        (if power < 0 then ['-'] else if style.signedExponent then ['+'] else []) ++
        decimalDigits power.natAbs
  if b.negative then '-' :: body else body

end TemplateFolding
