import TemplateFolding.Text.Basic

/-!
# The bytes of a text

A text is stored in UTF-8, and a position in what is stored counts bytes. Not every such position
stands between two characters. `byteSlice?` reads the text between two positions and refuses those
that are out of order, lie beyond the end or are inside a character.
-/

namespace TemplateFolding.Text

/-- The text in UTF-8. -/
def utf8 (t : Text) : List UInt8 :=
  t.flatMap String.utf8EncodeChar

/-- The text before a byte position and the text after it. -/
def splitBytes? : (position : Nat) → Text → Option (Text × Text)
  | 0, t => some ([], t)
  | _ + 1, [] => none
  | n + 1, c :: cs =>
    if c.utf8Size ≤ n + 1 then
      (splitBytes? (n + 1 - c.utf8Size) cs).map fun (front, rest) => (c :: front, rest)
    else none

/-- The text between two byte positions. -/
def byteSlice? (t : Text) (start stop : Nat) : Option Text :=
  if start ≤ stop then do
    let (_, rest) ← t.splitBytes? start
    let (part, _) ← rest.splitBytes? (stop - start)
    return part
  else none

end TemplateFolding.Text
