import TemplateFolding.Number.Decimal
import TemplateFolding.Toml.Item

/-!
# Scalars of a TOML document

A truth value, a number or a moment is written as one word, the longest run of word characters.
Nothing that may follow a value is a word character, so the word is judged as a whole. Only a moment
may hold a space, between its date and its time.
-/

namespace TemplateFolding.Toml

open Text

/-! ## Numerals -/

/-- The value of a digit in a base of at most sixteen. -/
def digitValue? (base : Nat) (c : Char) : Option Nat :=
  let value :=
    if '0' ≤ c ∧ c ≤ '9' then some (c.toNat - '0'.toNat)
    else if 'a' ≤ c ∧ c ≤ 'f' then some (c.toNat - 'a'.toNat + 10)
    else if 'A' ≤ c ∧ c ≤ 'F' then some (c.toNat - 'A'.toNat + 10)
    else none
  value.filter (· < base)

/-- The digits of a numeral. One underscore may stand between two digits. -/
def digits? (base : Nat) : Text → Option (List Nat)
  | [] => none
  | [c] => (digitValue? base c).map ([·])
  | c :: '_' :: rest => do some ((← digitValue? base c) :: (← digits? base rest))
  | c :: d :: rest => do some ((← digitValue? base c) :: (← digits? base (d :: rest)))

/-- The number with the given digits. -/
def ofDigits (base : Nat) (digits : List Nat) : Nat :=
  digits.foldl (fun n d => n * base + d) 0

/-- The number that a numeral stands for. -/
def numeral? (base : Nat) (t : Text) : Option Nat :=
  (digits? base t).map (ofDigits base)

/-- The digits of a decimal numeral without leading zeros. -/
def plainDigits? : Text → Option (List Nat)
  | '0' :: _ :: _ => none
  | t => digits? 10 t

/-- Whether there is a minus sign, and what follows the sign. -/
def splitSign : Text → Bool × Text
  | '-' :: rest => (true, rest)
  | '+' :: rest => (false, rest)
  | t => (false, t)

/-- The number with its sign. -/
def signed (negative : Bool) (n : Nat) : Int :=
  if negative then -n else n

/-- The integer that a word stands for. It has to fit into 64 bits. -/
def integer? (word : Text) : Option Int :=
  let value : Option Int :=
    match word with
    | '0' :: 'x' :: rest => (numeral? 16 rest).map Int.ofNat
    | '0' :: 'o' :: rest => (numeral? 8 rest).map Int.ofNat
    | '0' :: 'b' :: rest => (numeral? 2 rest).map Int.ofNat
    | _ =>
      let (negative, rest) := splitSign word
      (plainDigits? rest).map fun digits => signed negative (ofDigits 10 digits)
  value.filter fun n => -(Nat.pow 2 63 : Int) ≤ n ∧ n < Nat.pow 2 63

/-! ## Reals -/

/-- Whether a character marks an exponent. -/
def isExponentMark (c : Char) : Bool :=
  c == 'e' || c == 'E'

/-- The exponent at the end of a word. Without one it is zero. -/
def exponent? : Text → Option Int
  | [] => some 0
  | _ :: rest =>
    let (negative, rest) := splitSign rest
    (numeral? 10 rest).map (signed negative)

/-- The number that a word without its sign stands for. It has a fraction or an exponent. -/
def decimal? (word : Text) : Option Binary.Scientific :=
  let body := word.takeWhile fun c => !isExponentMark c
  let tail := word.dropWhile fun c => !isExponentMark c
  match body.dropWhile (· != '.') with
  | [] =>
    if tail.isEmpty then none
    else do some ⟨ofDigits 10 (← plainDigits? body), ← exponent? tail⟩
  | _ :: places => do
    let whole ← plainDigits? (body.takeWhile (· != '.'))
    let places ← digits? 10 places
    some ⟨ofDigits 10 (whole ++ places), (← exponent? tail) - places.length⟩

/-- The least number that rounds to infinity in double precision. -/
def doubleLimit : Nat := Nat.pow 2 1024 - Nat.pow 2 970

/-- Whether a number rounds to infinity in double precision. The position of its first digit decides
that, unless it is close to the limit. -/
def isTooLarge (s : Binary.Scientific) : Bool :=
  let first := (decimalDigits s.digits).length + s.exponent
  if s.digits = 0 ∨ first < 300 then false
  else if 320 < first then true
  else doubleLimit * Nat.pow 10 (-s.exponent).toNat ≤ s.digits * Nat.pow 10 s.exponent.toNat

/-- Whether a word is a real. A positive one must not be too large. -/
def isReal (word : Text) : Bool :=
  let (negative, rest) := splitSign word
  rest == ['i', 'n', 'f'] || rest == ['n', 'a', 'n'] ||
    (decimal? rest).any fun s => negative || !isTooLarge s

/-! ## Moments -/

/-- Whether two characters are the digits of a number between two bounds. -/
def isPair (lo hi : Nat) (a b : Char) : Bool :=
  (numeral? 10 [a, b]).any fun n => lo ≤ n ∧ n ≤ hi

/-- The number of days in a month. -/
def daysIn (year month : Nat) : Nat :=
  if month = 2 then
    if year % 4 = 0 ∧ (year % 100 ≠ 0 ∨ year % 400 = 0) then 29 else 28
  else if month = 4 ∨ month = 6 ∨ month = 9 ∨ month = 11 then 30
  else 31

/-- Whether a word is a date such as `1979-05-27`. -/
def isDate : Text → Bool
  | [y₁, y₂, y₃, y₄, '-', m₁, m₂, '-', d₁, d₂] =>
    match numeral? 10 [y₁, y₂, y₃, y₄], numeral? 10 [m₁, m₂] with
    | some year, some month => isPair 1 12 m₁ m₂ && isPair 1 (daysIn year month) d₁ d₂
    | _, _ => false
  | _ => false

/-- Whether a text is the offset of a time, or empty. -/
def isOffset : Text → Bool
  | [] => true
  | [c] => c == 'Z' || c == 'z'
  | [sign, h₁, h₂, ':', m₁, m₂] =>
    (sign == '+' || sign == '-') && isPair 0 23 h₁ h₂ && isPair 0 59 m₁ m₂
  | _ => false

/-- The text after the places of a second, if there are some. -/
def afterPlaces? : Text → Option Text
  | '.' :: rest =>
    if (rest.takeWhile Char.isDigit).isEmpty then none else some (rest.dropWhile Char.isDigit)
  | t => some t

/-- Whether a word is a time such as `07:32:00.5`, followed by what `tail` allows. A minute may have
a leap second. -/
def isTime (tail : Text → Bool) : Text → Bool
  | h₁ :: h₂ :: ':' :: m₁ :: m₂ :: ':' :: s₁ :: s₂ :: rest =>
    isPair 0 23 h₁ h₂ && isPair 0 59 m₁ m₂ && isPair 0 60 s₁ s₂ && (afterPlaces? rest).any tail
  | _ => false

/-- Whether a word is a moment: a date, a time, or both with a letter between them. Only a time
with a date has an offset. -/
def isMoment (word : Text) : Bool :=
  isDate word || isTime List.isEmpty word ||
    match word.drop 10 with
    | c :: time => (c == 'T' || c == 't') && isDate (word.take 10) && isTime isOffset time
    | [] => false

/-! ## Words -/

/-- Whether a character may stand in the word of a scalar. -/
def isWordChar (c : Char) : Bool :=
  c.isAlphanum || c == '+' || c == '-' || c == '.' || c == '_' || c == ':'

/-- The scalar that a word stands for. -/
def ofWord? (word : Text) : Option Item :=
  if word = ['t', 'r', 'u', 'e'] then some (.bool true)
  else if word = ['f', 'a', 'l', 's', 'e'] then some (.bool false)
  else if isMoment word then some .moment
  else if isReal word then some .real
  else (integer? word).map .integer

/-- The text after the time that follows a date and one space. -/
def afterTime? : Text → Option Text
  | ' ' :: rest =>
    if isTime isOffset (rest.takeWhile isWordChar) then some (rest.dropWhile isWordChar) else none
  | _ => none

/-- Reads the scalar that is written as a word. -/
def readWord (t : Text) : Option (Item × Text) :=
  let word := t.takeWhile isWordChar
  let rest := t.dropWhile isWordChar
  if isDate word then some (.moment, (afterTime? rest).getD rest)
  else (ofWord? word).map (·, rest)

/-! ## Small laws -/

theorem length_dropWhile_le (p : Char → Bool) (t : Text) :
    (t.dropWhile p).length ≤ t.length :=
  (List.dropWhile_sublist _).length_le

/-- What follows a run of characters is shorter if the run is not empty. -/
theorem length_dropWhile_lt {p : Char → Bool} {t : Text} (h : t.takeWhile p ≠ []) :
    (t.dropWhile p).length < t.length := by
  have hlen := congrArg List.length (List.takeWhile_append_dropWhile (p := p) (l := t))
  have hpos := List.length_pos_iff.2 h
  rw [List.length_append] at hlen
  omega

theorem ofWord?_nil : ofWord? [] = none := by
  decide +kernel

theorem length_afterTime? {t rest : Text} (h : afterTime? t = some rest) :
    rest.length ≤ t.length := by
  unfold afterTime? at h
  split at h
  · next tail =>
    split at h
    · simp only [Option.some.injEq] at h
      have := length_dropWhile_le isWordChar tail
      simp only [← h, List.length_cons]
      omega
    · simp at h
  · simp at h

theorem length_readWord {t rest : Text} {item : Item} (h : readWord t = some (item, rest)) :
    rest.length < t.length := by
  have hne : t.takeWhile isWordChar ≠ [] := by
    intro hnil
    simp [readWord, hnil, isDate, ofWord?_nil] at h
  have hlt := length_dropWhile_lt hne
  simp only [readWord] at h
  split at h
  · simp only [Option.some.injEq, Prod.mk.injEq] at h
    obtain ⟨_, rfl⟩ := h
    cases ha : afterTime? (t.dropWhile isWordChar) with
    | none => simpa using hlt
    | some r =>
      have := length_afterTime? ha
      simp only [Option.getD_some]
      omega
  · simp only [Option.map_eq_some_iff, Prod.mk.injEq] at h
    obtain ⟨_, _, _, rfl⟩ := h
    exact hlt

end TemplateFolding.Toml
