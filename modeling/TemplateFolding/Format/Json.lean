import TemplateFolding.Format.Document

/-!
# Documents as JSON

Two spaces for each level, every item and field on a line of its own, nothing between the brackets
of an empty list or record. Control characters are escaped, all others are written as they are.
-/

namespace TemplateFolding.Json

/-- Large exponents have a sign: `1e+16`. -/
def numberStyle : NumberStyle := { signedExponent := true }

/-- A character inside quotes. -/
def escape (c : Char) : Text :=
  if c = '"' then ['\\', '"']
  else if c = '\\' then ['\\', '\\']
  else if c = '\x08' then ['\\', 'b']
  else if c = '\x0C' then ['\\', 'f']
  else if c = '\n' then ['\\', 'n']
  else if c = '\r' then ['\\', 'r']
  else if c = '\t' then ['\\', 't']
  else if c.toNat < 0x20 then ['\\', 'u'] ++ hexDigits false 4 c.toNat
  else [c]

/-- A text in quotes. -/
def quote (t : Text) : Text :=
  '"' :: t.flatMap escape ++ ['"']

/-- The start of a line at a level. -/
def newline (level : Nat) : Text :=
  '\n' :: spaces (2 * level)

mutual

/-- A document whose first line is at a level. -/
def write (level : Nat) : Document → Text
  | .bool b => boolText b
  | .nat n => decimalDigits n
  | .number x => numberStyle.write x
  | .text t => quote t
  | .list [] => ['[', ']']
  | .list (item :: items) =>
    '[' :: newline (level + 1) ++ write (level + 1) item ++ writeItems (level + 1) items ++
      newline level ++ [']']
  | .record [] => ['\x7b', '\x7d']
  | .record (field :: fields) =>
    '\x7b' :: newline (level + 1) ++ writeField (level + 1) field ++
      writeFields (level + 1) fields ++ newline level ++ ['\x7d']

/-- The items after the first, each after a comma. -/
def writeItems (level : Nat) : List Document → Text
  | [] => []
  | item :: items => ',' :: newline level ++ write level item ++ writeItems level items

/-- A field. -/
def writeField (level : Nat) : String × Document → Text
  | (key, value) => quote key.toList ++ [':', ' '] ++ write level value

/-- The fields after the first, each after a comma. -/
def writeFields (level : Nat) : List (String × Document) → Text
  | [] => []
  | field :: fields => ',' :: newline level ++ writeField level field ++ writeFields level fields

end

/-- A document as JSON. -/
def render (d : Document) : Text :=
  write 0 d

end TemplateFolding.Json
