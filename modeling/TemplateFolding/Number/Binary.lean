/-!
# Binary fractions

A finite floating-point number is a sign, a mantissa and a power of two. The functions that write
numbers work on this form in exact arithmetic.
-/

namespace TemplateFolding

/-- The number `± mantissa · 2 ^ exponent`. A mantissa of the form `2 ^ 52` marks a number whose
lower neighbour is nearer than its upper one, unless its exponent is the least. -/
structure Binary where
  negative : Bool
  mantissa : Nat
  exponent : Int
deriving DecidableEq

namespace Binary

/-- The least exponent of a double-precision number. -/
def minExponent : Int := -1074

/-- The value of a double-precision number. Numbers that are not finite do not occur. -/
def ofFloat (x : Float) : Binary :=
  let bits : Nat := x.toBits.toNat
  let fraction := bits % Nat.pow 2 52
  let biased : Nat := bits / Nat.pow 2 52 % Nat.pow 2 11
  let negative := bits / Nat.pow 2 63 = 1
  if biased = 0 then ⟨negative, fraction, minExponent⟩
  else ⟨negative, Nat.pow 2 52 + fraction, minExponent + (biased - 1 : Nat)⟩

/-- The numerator of the absolute value over `denominator`. -/
def numerator (b : Binary) : Nat :=
  b.mantissa * Nat.pow 2 b.exponent.toNat

/-- The power of two that the absolute value is divided by. -/
def denominator (b : Binary) : Nat :=
  Nat.pow 2 (-b.exponent).toNat

/-- The distance to the next larger mantissa, over `denominator`. -/
def unit (b : Binary) : Nat :=
  Nat.pow 2 b.exponent.toNat

end Binary

end TemplateFolding
