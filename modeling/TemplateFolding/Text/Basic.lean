/-!
# Text

Text is a list of characters. Columns count characters and every reader takes characters off the
front, so the list is the form all of the library works on; a `String` appears only where text
enters or leaves it.

This file also holds the two blank classes: `isBlank`, the White_Space property, which trimming
and normalizing use, and `isLayout`, the ASCII blanks that may stand between the tokens of a
declaration.
-/

namespace TemplateFolding

/-- A sequence of characters. -/
abbrev Text := List Char

namespace Text

/-- Size of the text in UTF-8 bytes. -/
def byteLength (t : Text) : Nat :=
  t.foldl (fun n c => n + c.utf8Size) 0

/-! ## Blanks -/

/-- The closed ranges of code points that have the White_Space property. -/
def blankRanges : List (Nat × Nat) :=
  [(0x09, 0x0D), (0x20, 0x20), (0x85, 0x85), (0xA0, 0xA0), (0x1680, 0x1680), (0x2000, 0x200A),
    (0x2028, 0x2029), (0x202F, 0x202F), (0x205F, 0x205F), (0x3000, 0x3000)]

/-- Whether a character has the White_Space property. -/
def isBlank (c : Char) : Bool :=
  blankRanges.any fun (lo, hi) => decide (lo ≤ c.toNat ∧ c.toNat ≤ hi)

/-- Whether a character may stand between two tokens: space, tab, line feed, form feed or
carriage return. The vertical tab is not one of them. -/
def isLayout (c : Char) : Bool :=
  c == ' ' || c == '\t' || c == '\n' || c == '\x0C' || c == '\r'

/-- The text without its leading layout. -/
def skipLayout (t : Text) : Text :=
  t.dropWhile isLayout

/-- The text without leading blanks. -/
def trimStart (t : Text) : Text :=
  t.dropWhile isBlank

/-- The text without trailing blanks. -/
def trimEnd (t : Text) : Text :=
  (t.reverse.dropWhile isBlank).reverse

/-- The text without leading and trailing blanks. -/
def trim (t : Text) : Text :=
  trimEnd (trimStart t)

/-- Writes one space for each run of blanks. In the middle of a run (`inRun`) that space has been
written already. -/
def collapseFrom (inRun : Bool) : Text → Text
  | [] => []
  | c :: cs =>
    if isBlank c then
      if inRun then collapseFrom true cs else ' ' :: collapseFrom true cs
    else
      c :: collapseFrom false cs

/-- The text on one line: each run of blanks is one space, and none is left at either end. -/
def normalize (t : Text) : Text :=
  trim (collapseFrom false t)

/-! ## Taking words off the front -/

/-- What follows `word`, if the text starts with it. -/
def expect? : (word t : Text) → Option Text
  | [], t => some t
  | _ :: _, [] => none
  | w :: ws, c :: cs => if w = c then expect? ws cs else none

/-! ## Joining -/

/-- The texts in order, with `separator` between each two of them. -/
def join (separator : Text) : List Text → Text
  | [] => []
  | [t] => t
  | t :: u :: ts => t ++ separator ++ join separator (u :: ts)

/-! ## Small laws -/

theorem expect?_eq_some_iff {word t rest : Text} :
    expect? word t = some rest ↔ t = word ++ rest := by
  fun_induction expect? word t with
  | case1 t => simp [eq_comm]
  | case2 => simp
  | case3 w cs ws ih => simp [ih]
  | case4 w ws c cs hne =>
    simp only [reduceCtorEq, List.cons_append, List.cons.injEq, false_iff, not_and]
    exact fun h => absurd h.symm hne

theorem length_skipLayout_le (t : Text) : (skipLayout t).length ≤ t.length :=
  (List.dropWhile_sublist _).length_le

end Text

end TemplateFolding
