import TemplateFolding.Format.Document

/-!
# Documents as YAML

Block style throughout: the items of a list stand below its key without further indentation, the
fields of a record are indented by two. Only an empty list is written inline.

A text is written plain if it then reads back as the same text. Otherwise it is single-quoted, a
text with line feeds becomes a literal block, and a text that neither form can hold is
double-quoted with escapes.
-/

namespace TemplateFolding.Yaml

open Text

/-- Exponents have no plus sign: `1e16`. -/
def numberStyle : NumberStyle := { signedExponent := false }

/-! ## Character classes -/

/-- Whether a character is written as it is in every style. Tabs and carriage returns are not. -/
def isPrintable (c : Char) : Bool :=
  let n := c.toNat
  n == 0x0A || decide (0x20 ≤ n ∧ n ≤ 0x7E) || decide (0xA0 ≤ n ∧ n ≤ 0xD7FF) ||
    (decide (0xE000 ≤ n ∧ n ≤ 0xFFFD) && n != 0xFEFF) || decide (0x10000 ≤ n)

/-- Whether a character breaks a line. -/
def isBreak (c : Char) : Bool :=
  c == '\n' || c == '\r' || c == '\u0085' || c == '\u2028' || c == '\u2029'

/-- Whether a blank, a break or the end of the text stands here. -/
def isGap : Option Char → Bool
  | none => true
  | some c => c == ' ' || c == '\t' || c == '\x00' || isBreak c

/-! ## Texts that read as something else -/

/-- The value of digits in a base, if there is at least one and each is a digit of the base. -/
def digitsValue? (base : Nat) (t : Text) : Option Nat :=
  if t.isEmpty then none
  else t.foldl (fun acc c => acc.bind fun n =>
    let d := if '0' ≤ c ∧ c ≤ '9' then some (c.toNat - '0'.toNat)
      else if 'a' ≤ c ∧ c ≤ 'f' then some (c.toNat - 'a'.toNat + 10)
      else if 'A' ≤ c ∧ c ≤ 'F' then some (c.toNat - 'A'.toNat + 10)
      else none
    d.bind fun d => if d < base then some (n * base + d) else none) (some 0)

/-- Whether the text has the form of a number with a base mark after a sign, below a limit. -/
def hasBaseForm (sign : Text) (limit : Nat) (t : Text) : Bool :=
  [("0x", 16), ("0o", 8), ("0b", 2)].any fun (mark, base) =>
    ((expect? (sign ++ mark.toList) t).bind (digitsValue? base)).any fun n => decide (n < limit)

/-- The text without one plus sign. -/
def dropPlus (t : Text) : Text :=
  (expect? ['+'] t).getD t

/-- The text without one sign. -/
def dropSign : Text → Text
  | '+' :: t => t
  | '-' :: t => t
  | t => t

/-- Whether the text is digits after a leading zero, which is no number. -/
def isZeroPadded (t : Text) : Bool :=
  match dropSign t with
  | '0' :: c :: rest => (c :: rest).all Char.isDigit
  | _ => false

/-- Whether the text reads as an integer with a base mark. One without a mark reads as a decimal
number in any case. -/
def isMarkedInteger (t : Text) : Bool :=
  hasBaseForm [] (Nat.pow 2 128) (dropPlus t) || hasBaseForm ['-'] (Nat.pow 2 127 + 1) t

/-- Whether `digits · 10 ^ exponent` is too large for a double-precision number. -/
def overflows (digits : Nat) (exponent : Int) : Bool :=
  let magnitude := exponent + (decimalDigits digits).length
  if digits = 0 ∨ magnitude < 0 then false
  else if 400 < magnitude then true
  else decide ((Nat.pow 2 1024 - Nat.pow 2 970) * Nat.pow 10 (-exponent).toNat ≤
    digits * Nat.pow 10 exponent.toNat)

/-- The exponent that a text after the digits of a number stands for. -/
def exponentOf? : Text → Option Int
  | [] => some 0
  | c :: rest =>
    if c = 'e' ∨ c = 'E' then
      (digitsValue? 10 (dropSign rest)).map fun n => if rest.head? = some '-' then -n else n
    else none

/-- Whether the text, after an optional minus sign, is a decimal number with an optional point and
exponent that is not too large. -/
def isDecimal (t : Text) : Bool :=
  let t := (expect? ['-'] t).getD t
  let whole := t.takeWhile Char.isDigit
  let rest := t.dropWhile Char.isDigit
  let part := match rest with
    | '.' :: rest => rest.takeWhile Char.isDigit
    | _ => []
  let rest := match rest with
    | '.' :: rest => rest.dropWhile Char.isDigit
    | _ => rest
  match digitsValue? 10 (whole ++ part), exponentOf? rest with
  | some digits, some exponent => !overflows digits (exponent - part.length)
  | _, _ => false

/-- The spellings of infinity. -/
def infinities : List String := [".inf", ".Inf", ".INF"]

/-- Whether the text reads as a decimal number, or as one that is not finite. -/
def isFloat (t : Text) : Bool :=
  let s := String.ofList t
  let unsigned := dropPlus t
  [".nan", ".NaN", ".NAN"].contains s || infinities.contains (String.ofList unsigned) ||
    (infinities.map ("-" ++ ·)).contains s ||
    !(t.head? == some '+' && (unsigned.head? == some '+' || unsigned.head? == some '-')) &&
      isDecimal unsigned

/-- Whether the text would read as something else than text. -/
def readsAsOther (t : Text) : Bool :=
  ["", "~", "null", "Null", "NULL", "true", "True", "TRUE", "false", "False", "FALSE"].contains
      (String.ofList t) ||
    isMarkedInteger t || isZeroPadded t || isFloat t

/-! ## Styles -/

/-- The characters that no plain text starts with. -/
def indicators : Text := "#,[]\x7b\x7d&*!|>'\"%@`".toList

/-- Whether a mark stands somewhere after the first character where a plain text cannot have it: a
colon before a gap, or a number sign after one. -/
def hasInnerMark : Text → Bool
  | [] => false
  | [_] => false
  | a :: b :: rest =>
    (b == ':' && isGap rest.head?) || (b == '#' && isGap (some a)) || hasInnerMark (b :: rest)

/-- Whether the text starts or contains something that has a meaning of its own in a block. -/
def hasIndicator (t : Text) : Bool :=
  (expect? "---".toList t).isSome || (expect? "...".toList t).isSome || hasInnerMark t ||
    match t with
    | [] => false
    | c :: rest =>
      indicators.contains c || ((c == '?' || c == ':' || c == '-') && isGap rest.head?)

/-- Whether two characters of the given kinds stand side by side. -/
def hasPair (first second : Char → Bool) : Text → Bool
  | a :: b :: rest => (first a && second b) || hasPair first second (b :: rest)
  | _ => false

/-- How a text is written. -/
inductive Style where
  | plain
  | singleQuoted
  | doubleQuoted
  | literal
deriving DecidableEq

/-- Whether quotes are enough to protect the text: it has neither special characters nor a space
before a line break. -/
def isTame (t : Text) : Bool :=
  t.all isPrintable && !hasPair (· == ' ') isBreak t

/-- The style that a text is written in. -/
def styleOf (t : Text) : Style :=
  let single := if isTame t && !hasPair isBreak (· == ' ') t then .singleQuoted else .doubleQuoted
  if t.contains '\n' then
    if isTame t && t.getLast? != some ' ' then .literal else .doubleQuoted
  else if readsAsOther t then single
  else if isTame t && !t.any isBreak && t.head? != some ' ' && t.getLast? != some ' ' &&
      !hasIndicator t then .plain
  else single

/-! ## Writing texts -/

/-- Text with every line after a break indented. With `fresh` set, a line starts here. -/
def indentLines (indent : Nat) (fresh : Bool) : Text → Text
  | [] => []
  | c :: cs =>
    if isBreak c then c :: indentLines indent true cs
    else (if fresh then spaces indent else []) ++ c :: indentLines indent false cs

/-- A character inside double quotes. -/
def escape (c : Char) : Text :=
  if isPrintable c && !isBreak c && c != '"' && c != '\\' then [c]
  else
    let named := [('\x00', '0'), ('\x07', 'a'), ('\x08', 'b'), ('\t', 't'), ('\n', 'n'), ('\x0B', 'v'),
      ('\x0C', 'f'), ('\r', 'r'), ('\x1B', 'e'), ('"', '"'), ('\\', '\\'), ('\u0085', 'N'),
      ('\u2028', 'L'), ('\u2029', 'P')]
    match named.find? (·.1 == c) with
    | some (_, name) => ['\\', name]
    | none =>
      let n := c.toNat
      if n ≤ 0xFF then '\\' :: 'x' :: hexDigits true 2 n
      else if n ≤ 0xFFFF then '\\' :: 'u' :: hexDigits true 4 n
      else '\\' :: 'U' :: hexDigits true 8 n

/-- What stands after the bar of a literal block: the indentation if the first line does not show
it, and what happens to line feeds at the end. -/
def literalHints (t : Text) : Text :=
  (if t.head?.any fun c => c == ' ' || isBreak c then ['2'] else []) ++
    match t.reverse with
    | [] => ['-']
    | c :: rest =>
      if !isBreak c then ['-']
      else if rest.isEmpty || rest.head?.any isBreak then ['+']
      else []

/-- A text as the value of a field, its further lines indented. -/
def writeText (indent : Nat) (t : Text) : Text :=
  match styleOf t with
  | .plain => t
  | .singleQuoted =>
    let body := t.flatMap fun c => if c = '\x27' then ['\x27', '\x27'] else [c]
    '\x27' :: indentLines indent false body ++
      (if t.getLast?.any isBreak then spaces indent else []) ++ ['\x27']
  | .doubleQuoted => '"' :: t.flatMap escape ++ ['"']
  | .literal => '|' :: literalHints t ++ '\n' :: indentLines indent true t

/-! ## Writing documents -/

/-- The text with a line feed at its end, unless it ends in a break already. -/
def endLine (t : Text) : Text :=
  if t.getLast?.any isBreak then t else t ++ ['\n']

mutual

/-- What follows the colon after a key at an indentation, through the end of the line. -/
def writeValue (indent : Nat) : Document → Text
  | .bool b => ' ' :: boolText b ++ ['\n']
  | .nat n => ' ' :: decimalDigits n ++ ['\n']
  | .number x => ' ' :: numberStyle.write x ++ ['\n']
  | .text t => ' ' :: endLine (writeText (indent + 2) t)
  | .list [] => " []\n".toList
  | .list (item :: items) => '\n' :: writeItem indent item ++ writeItems indent items
  | .record fields => '\n' :: writeFields (indent + 2) fields

/-- An item of a list at an indentation. The first field of a record stands beside the dash. -/
def writeItem (indent : Nat) : Document → Text
  | .record (field :: fields) =>
    spaces indent ++ '-' :: ' ' :: writeField (indent + 2) field ++ writeFields (indent + 2) fields
  | d => spaces indent ++ '-' :: writeValue indent d

/-- The items of a list. -/
def writeItems (indent : Nat) : List Document → Text
  | [] => []
  | item :: items => writeItem indent item ++ writeItems indent items

/-- A field without the indentation before it. -/
def writeField (indent : Nat) : String × Document → Text
  | (key, value) => key.toList ++ ':' :: writeValue indent value

/-- The fields of a record. -/
def writeFields (indent : Nat) : List (String × Document) → Text
  | [] => []
  | field :: fields => spaces indent ++ writeField indent field ++ writeFields indent fields

end

/-- A record as a YAML document. -/
def render : Document → Text
  | .record fields => writeFields 0 fields
  | d => (writeValue 0 d).drop 1

end TemplateFolding.Yaml
