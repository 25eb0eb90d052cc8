import TemplateFolding.Template.Declaration
import TemplateFolding.Text.Bytes

/-!
# Reading lists in place

`Reader`s take characters off the front of a text. Here the lists of a text are read in place: a
cursor walks over its bytes, and names, defaults and values are slices between two positions of the
cursor. All tokens are ASCII, so a byte is judged like the character with its number.

An attempt that fails leaves the cursor where it gave up, and whoever tries something else puts it
back first. The cursor also counts the lists that are open. A slice that is not between characters
cannot be taken at all: that is a fault, and reading ends with it.
-/

namespace TemplateFolding

open Text Parameter

/-- A byte position in a text, and the number of lists that are open there. -/
structure Cursor where
  position : Nat := 0
  depth : Nat := 0
deriving DecidableEq

/-- Why reading in place cannot go on. -/
inductive CursorFault where
  /-- The text between two positions cannot be taken. -/
  | slice (start stop : Nat)
  /-- A loop takes more rounds than the text allows. -/
  | stuck
deriving DecidableEq

/-- An attempt to read something from where the cursor stands. -/
def Attempt (α : Type) : Type :=
  Cursor → Except CursorFault (Option α × Cursor)

/-- The characters with the numbers of the bytes from a position on. -/
def Text.bytesFrom (source : Text) (position : Nat) : Text :=
  (source.utf8.drop position).map fun byte => Char.ofNat byte.toNat

namespace Attempt

variable {α : Type}

instance : Monad Attempt where
  pure a := fun c => .ok (some a, c)
  bind m k := fun c =>
    match m c with
    | .error fault => .error fault
    | .ok (none, c) => .ok (none, c)
    | .ok (some a, c) => k a c

/-! ## Moving the cursor -/

/-- Gives up. -/
def fail : Attempt α := fun c => .ok (none, c)

/-- Ends reading. -/
def fault (f : CursorFault) : Attempt α := fun _ => .error f

/-- Where the cursor stands. -/
def position : Attempt Nat := fun c => .ok (some c.position, c)

/-- How many lists are open. -/
def depth : Attempt Nat := fun c => .ok (some c.depth, c)

/-- Puts the cursor at a position. -/
def seek (position : Nat) : Attempt Unit := fun c => .ok (some (), { c with position })

/-- Counts so many lists as open. -/
def setDepth (depth : Nat) : Attempt Unit := fun c => .ok (some (), { c with depth })

/-- What an attempt reads, if it does not fail. -/
def optional (m : Attempt α) : Attempt (Option α) := fun c =>
  match m c with
  | .error fault => .error fault
  | .ok (a?, c) => .ok (some a?, c)

/-- The first of two attempts that does not fail, both from where the cursor stands. -/
def firstOf (m m' : Attempt α) : Attempt α := do
  let start ← position
  match ← optional m with
  | some a => return a
  | none =>
    seek start
    m'

/-! ## Tokens -/

variable (source : Text)

/-- The byte at the cursor. -/
def peek : Attempt (Option Char) := do
  return (source.bytesFrom (← position)).head?

/-- The text between two positions. -/
def slice (start stop : Nat) : Attempt Text :=
  match source.byteSlice? start stop with
  | some part => return part
  | none => fault (.slice start stop)

/-- Passes over bytes and takes them. -/
def takeWhile (p : Char → Bool) : Attempt Text := do
  let start ← position
  let stop := start + ((source.bytesFrom start).takeWhile p).length
  seek stop
  slice source start stop

/-- Passes over layout. -/
def skipLayout : Attempt Unit := do
  let _ ← takeWhile source isLayout

/-- Passes over a word. -/
def word (w : Text) : Attempt Unit := do
  let start ← position
  let rest ← slice source start source.byteLength
  if w.isPrefixOf rest then seek (start + w.byteLength) else fail

/-- Passes over one byte. -/
def byte (c : Char) : Attempt Unit := do
  if (← peek source) = some c then seek ((← position) + 1) else fail

/-- Whether a parameter may end at the cursor. -/
def atEnd (standalone : Bool) : Attempt Bool := do
  let start ← position
  if source.byteLength < start then fault (.slice start source.byteLength)
  else return Parameter.atEnd standalone (source.bytesFrom start)

/-- Passes over `typename` or `class` as a whole word. -/
def typeKeyword : Attempt Unit := do
  let start ← position
  firstOf (word source "typename".toList) (word source "class".toList)
  if (← peek source).any isIdentifier then
    seek start
    fail
  else return ()

/-! ## Groups and runs

Groups are passed over byte by byte. A byte of a wider character is like any other byte there, so
inside a group the cursor does stand within characters. Every round takes a byte. -/

/-- Passes over one byte, whatever it is. -/
def step : Attempt Unit := do
  seek ((← position) + 1)

/-- Passes over bytes until so many parentheses are closed. -/
def closeParens : (rounds opened : Nat) → Attempt Unit
  | _, 0 => return ()
  | 0, _ + 1 => fault .stuck
  | rounds + 1, opened + 1 => do
    match ← peek source with
    | none => fail
    | some b =>
      step
      closeParens rounds
        (if b = '(' then opened + 2 else if b = ')' then opened else opened + 1)

/-- Passes over `(...)`, where angle brackets are plain bytes. -/
def parenGroup : Attempt Unit := do
  byte source '('
  closeParens source (source.byteLength + 1) 1

/-- Passes over bytes and `(...)` until so many angle brackets are closed. -/
def closeAngles : (rounds opened : Nat) → Attempt Unit
  | _, 0 => return ()
  | 0, _ + 1 => fault .stuck
  | rounds + 1, opened + 1 => do
    match ← peek source with
    | none => fail
    | some b =>
      if b = '(' then
        parenGroup source
        closeAngles rounds (opened + 1)
      else
        step
        closeAngles rounds
          (if b = '<' then opened + 2 else if b = '>' then opened else opened + 1)

/-- Passes over `<...>`. -/
def angleGroup : Attempt Unit := do
  byte source '<'
  closeAngles source (source.byteLength + 1) 1

/-- Whether a byte outside all groups neither opens one nor ends the run. -/
def isPlain (grouped : Bool) (b : Char) : Bool :=
  !isEnd b && b != '<' && !(grouped && b == '(')

/-- Passes over groups and plain bytes up to a `,` or `>` outside all groups. -/
def passRun (grouped : Bool) : (rounds : Nat) → Attempt Unit
  | 0 => fault .stuck
  | rounds + 1 => do
    match ← peek source with
    | none => return ()
    | some b =>
      if isEnd b then return ()
      else if b = '<' then
        angleGroup source
        passRun grouped rounds
      else if grouped ∧ b = '(' then
        parenGroup source
        passRun grouped rounds
      else
        let _ ← takeWhile source (isPlain grouped)
        passRun grouped rounds

/-- Takes a run with closed groups that is not blank. -/
def filledRun (grouped : Bool) : Attempt Text := do
  let start ← position
  passRun source grouped (source.byteLength + 1)
  let part ← slice source start (← position)
  if (trim part).isEmpty then fail else return part

/-- Takes everything up to the next `,` or `>`, if it is not blank. -/
def looseRun : Attempt Text := do
  let part ← takeWhile source (!isEnd ·)
  if (trim part).isEmpty then fail else return part

/-! ## Parameters -/

/-- What an attempt reads, if a parameter may end behind it. -/
def ending (standalone : Bool) (m : Attempt α) : Attempt α := do
  let a ← m
  if ← atEnd source standalone then return a else fail

/-- `("class" | "typename") name "=" run`. -/
def typeWithDefault : Attempt TypeSpec := do
  typeKeyword source
  let name ← takeWhile source isNameChar
  byte source '='
  skipLayout source
  let run ← filledRun source false
  return ⟨false, trim name, trim run⟩

/-- `("class" | "typename") ["..."] name`. -/
def typeWithoutDefault : Attempt TypeSpec := do
  typeKeyword source
  skipLayout source
  let pack ← optional (word source "...".toList)
  skipLayout source
  let name ← takeWhile source isNameChar
  return ⟨pack.isSome, trim name, []⟩

/-- A type parameter with a default or without one. -/
def typeParameter (standalone : Bool) : Attempt TypeSpec :=
  firstOf (ending source standalone (typeWithDefault source))
    (firstOf (ending source standalone (typeWithoutDefault source)) fail)

/-- A nested list and the type parameter after it. -/
def templateParameter (standalone : Bool) (nested : Attempt (List Parameter)) :
    Attempt Parameter := do
  let params ← nested
  skipLayout source
  let spec ← typeParameter source standalone
  return .template params spec

/-- A run with closed groups, or else a loose run. -/
def nonTypeParameter (standalone : Bool) : Attempt Parameter := do
  let run ← firstOf (ending source standalone (filledRun source true)) (looseRun source)
  return .nonType (trim run)

/-- One parameter, the first of the three forms that fits. -/
def parameter (standalone : Bool) (nested : Attempt (List Parameter)) : Attempt Parameter :=
  firstOf (do return .type (← typeParameter source standalone))
    (firstOf (templateParameter source standalone nested)
      (firstOf (ending source standalone (nonTypeParameter source standalone)) fail))

/-! ## Lists -/

/-- Parameters with commas between them and the closing `>`. -/
def commaList (item : Attempt Parameter) : (rounds : Nat) → Attempt (List Parameter)
  | 0 => fault .stuck
  | rounds + 1 => do
    let p ← item
    skipLayout source
    match ← peek source with
    | some ',' =>
      byte source ','
      skipLayout source
      let ps ← commaList item rounds
      return p :: ps
    | some '>' =>
      byte source '>'
      return [p]
    | _ => fail

/-- The keyword and what stands in angle brackets behind it. Every parameter takes a byte, so there
are fewer rounds than bytes. -/
def keywordList (item : Attempt Parameter) : Attempt (List Parameter) := do
  word source keyword
  skipLayout source
  byte source '<'
  skipLayout source
  if (← optional (byte source '>')).isSome then return []
  else commaList source item (source.byteLength + 1)

/-- `template<...>` with its parameters. The cursor stays where it is if there is none, or if too
many lists are open already. -/
def parameterList (standalone : Bool) : (levels : Nat) → Attempt (List Parameter)
  | 0 => fault .stuck
  | levels + 1 => do
    let start ← position
    let outer ← depth
    if maxNesting ≤ outer then fail
    else
      setDepth (outer + 1)
      let params? ← optional
        (keywordList source (parameter source standalone (parameterList standalone levels)))
      setDepth ((← depth) - 1)
      match params? with
      | some params => return params
      | none =>
        seek start
        fail

/-- The list at the cursor. -/
def nextList : Attempt (List Parameter) :=
  parameterList source false (maxNesting + 1)

/-- What `count` attempts to take a list give, each from where the last one left the cursor, and
where it stands after each. -/
def takeLists : (count : Nat) → Cursor →
    Except CursorFault (List (Option (List Parameter) × Cursor))
  | 0, _ => .ok []
  | count + 1, c => do
    let (params?, c) ← nextList source c
    return (params?, c) :: (← takeLists count c)

end Attempt

end TemplateFolding
