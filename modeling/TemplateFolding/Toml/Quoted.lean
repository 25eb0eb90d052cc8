import TemplateFolding.Toml.Scalar

/-!
# Quoted text of a TOML document

Text stands between two marks. Between double quotes a backslash escapes; between single quotes
nothing does. A mark written three times opens text that may run over several lines.
-/

namespace TemplateFolding.Toml

open Text

/-- Whether a character is a space or a tab. -/
def isSpace (c : Char) : Bool :=
  c == ' ' || c == '\t'

/-- The text without its leading spaces and tabs. -/
def skipSpaces (t : Text) : Text :=
  t.dropWhile isSpace

/-- Whether a character may stand in a comment or in quoted text as itself: all but the control
characters, of which only the tab may. -/
def isPlain (c : Char) : Bool :=
  c == '\t' || (decide (0x20 ≤ c.toNat) && c != '\x7F')

/-- The text without one line ending at its front. -/
def skipLineEnding : Text → Text
  | '\n' :: rest => rest
  | '\r' :: '\n' :: rest => rest
  | t => t

/-- How a text is quoted. -/
structure Quote where
  mark : Char
  multiline : Bool

/-- The character that an escape of one letter stands for. -/
def shortEscape? : Char → Option Char
  | 'b' => some '\x08'
  | 'f' => some '\x0C'
  | 'n' => some '\n'
  | 'r' => some '\r'
  | 't' => some '\t'
  | '\\' => some '\\'
  | '"' => some '"'
  | _ => none

/-- The character with a code point in hexadecimal digits. -/
def codePoint? (digits : Text) : Option Char := do
  let values ← digits.mapM (digitValue? 16)
  let n := ofDigits 16 values
  if n.isValidChar then some (Char.ofNat n) else none

/-- Whether nothing but spaces is left on the line. -/
def endsLine (t : Text) : Bool :=
  match skipSpaces t with
  | '\n' :: _ => true
  | '\r' :: '\n' :: _ => true
  | _ => false

/-- Marks in front of the closing ones: up to two of them belong to the text. Takes what follows
three marks. -/
def spareMarks (mark : Char) (t : Text) : Text × Text :=
  match expect? [mark, mark] t, expect? [mark] t with
  | some rest, _ => ([mark, mark], rest)
  | none, some rest => ([mark], rest)
  | none, none => ([], t)

/-- Puts a character in front of the text that was read. -/
def prepend (c : Char) (read : Option (Text × Text)) : Option (Text × Text) :=
  read.map fun (t, rest) => (c :: t, rest)

theorem exists_of_prepend {c : Char} {read : Option (Text × Text)} {t rest : Text}
    (h : prepend c read = some (t, rest)) : ∃ t', read = some (t', rest) := by
  obtain ⟨⟨t', rest'⟩, hread, heq⟩ := Option.map_eq_some_iff.1 h
  simp only [Prod.mk.injEq] at heq
  exact ⟨t', heq.2 ▸ hread⟩

/-- Reads quoted text up to its closing marks. A backslash at the end of a line joins it with the
next word: while `joining`, spaces and line endings are left out. -/
def Quote.read (q : Quote) (joining : Bool) : Text → Option (Text × Text)
  | [] => none
  | c :: rest =>
    if c = q.mark then
      if q.multiline then
        match expect? [q.mark, q.mark] rest with
        | some rest' => some (spareMarks q.mark rest')
        | none => prepend c (q.read false rest)
      else some ([], rest)
    else if c = '\\' ∧ q.mark = '"' then
      match rest with
      | 'u' :: a :: b :: d :: e :: rest' =>
        (codePoint? [a, b, d, e]).bind fun x =>
          prepend x (q.read false rest')
      | 'U' :: a :: b :: d :: e :: f :: g :: h :: i :: rest' =>
        (codePoint? [a, b, d, e, f, g, h, i]).bind fun x =>
          prepend x (q.read false rest')
      | e :: rest' =>
        match shortEscape? e with
        | some x => prepend x (q.read false rest')
        | none => if q.multiline && endsLine (e :: rest') then q.read true rest' else none
      | [] => none
    else if c = '\n' then
      if !q.multiline then none
      else if joining then q.read true rest
      else prepend c (q.read false rest)
    else if c = '\r' then
      if q.multiline ∧ rest.head? = some '\n' then q.read joining rest else none
    else if joining && isSpace c then q.read true rest
    else if isPlain c then prepend c (q.read false rest)
    else none

/-- Reads quoted text that starts with a mark. Where it may run over several lines, a line ending
right after the opening marks is left out. -/
def readQuoted : Text → Option (Text × Text)
  | '"' :: '"' :: '"' :: rest => Quote.read ⟨'"', true⟩ false (skipLineEnding rest)
  | '"' :: rest => Quote.read ⟨'"', false⟩ false rest
  | '\x27' :: '\x27' :: '\x27' :: rest => Quote.read ⟨'\x27', true⟩ false (skipLineEnding rest)
  | '\x27' :: rest => Quote.read ⟨'\x27', false⟩ false rest
  | _ => none

/-! ## Small laws -/

theorem length_skipSpaces_le (t : Text) : (skipSpaces t).length ≤ t.length :=
  length_dropWhile_le _ t

theorem length_skipLineEnding_le (t : Text) : (skipLineEnding t).length ≤ t.length := by
  unfold skipLineEnding
  split
  · exact Nat.le_succ _
  · exact Nat.le_add_right _ 2
  · exact Nat.le_refl _

theorem length_spareMarks_le (mark : Char) (t : Text) :
    (spareMarks mark t).2.length ≤ t.length := by
  unfold spareMarks
  split
  · next h =>
    simp only [expect?_eq_some_iff.1 h, List.length_append]
    omega
  · next h =>
    simp only [expect?_eq_some_iff.1 h, List.length_append]
    omega
  · simp

theorem Quote.length_read {q : Quote} {joining : Bool} {t a r : Text}
    (h : q.read joining t = some (a, r)) : r.length < t.length := by
  fun_induction q.read joining t generalizing a r <;>
    simp only [List.length_cons, List.length_nil] <;>
    grind [→ exists_of_prepend, expect?_eq_some_iff, length_spareMarks_le,
      Option.bind_eq_some_iff]

theorem length_readQuoted {t a r : Text} (h : readQuoted t = some (a, r)) :
    r.length < t.length := by
  unfold readQuoted at h
  split at h
  · next rest =>
    have := Quote.length_read h
    have := length_skipLineEnding_le rest
    simp only [List.length_cons]
    omega
  · have := Quote.length_read h
    simp only [List.length_cons]
    omega
  · next rest =>
    have := Quote.length_read h
    have := length_skipLineEnding_le rest
    simp only [List.length_cons]
    omega
  · have := Quote.length_read h
    simp only [List.length_cons]
    omega
  · simp at h

end TemplateFolding.Toml
