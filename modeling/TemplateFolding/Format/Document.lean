import TemplateFolding.Number.Decimal

/-!
# Documents

A report in structured form, before a format is chosen: values, lists, and records whose fields
keep their order.
-/

namespace TemplateFolding

/-- A structured value. -/
inductive Document where
  | bool (b : Bool)
  | nat (n : Nat)
  | number (x : Binary)
  | text (t : Text)
  | list (items : List Document)
  | record (fields : List (String × Document))

/-- The text of a truth value in either format. -/
def boolText (b : Bool) : Text :=
  (if b then "true" else "false").toList

/-- So many spaces. -/
def spaces (n : Nat) : Text :=
  List.replicate n ' '

/-- The digits of a number in base sixteen, filled up with zeros to a width. -/
def hexDigits (upper : Bool) (width n : Nat) : Text :=
  let digits := Nat.toDigits 16 n
  List.replicate (width - digits.length) '0' ++ if upper then digits.map Char.toUpper else digits

end TemplateFolding
