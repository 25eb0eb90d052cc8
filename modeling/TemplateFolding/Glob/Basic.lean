import TemplateFolding.Text.Basic

/-!
# Globs

A glob is a pattern for whole paths. `*` and `?` stand for any characters, `[...]` for a class, and
`{...,...}` for alternatives, which nest; a backslash takes the next character literally. `**` as a
whole component stands for any number of directories; anywhere else it is no more than `*`.

A bracket that opens a class which is never closed is an error, or stands for itself where that is
asked for.
-/

namespace TemplateFolding

namespace Glob

/-- One element of a glob. -/
inductive Token where
  | literal (c : Char)
  /-- `?`. -/
  | any
  /-- `*`. -/
  | star
  /-- `**` before a slash at the start. -/
  | leadingDirs
  /-- `**` after a slash at the end. -/
  | trailingDirs
  /-- `**` between slashes. -/
  | innerDirs
  /-- A set of characters given by closed ranges, or all others. -/
  | charClass (negated : Bool) (ranges : List (Char × Char))
  | alternatives (branches : List (List Token))

/-- What is wrong with a glob. -/
inductive Fault where
  | unclosedClass
  | invalidRange (lo hi : Char)
  | unclosedAlternatives
  | unopenedAlternatives
  | danglingEscape
deriving DecidableEq

/-- The fault in words. -/
def Fault.describe : Fault → String
  | .unclosedClass => "unclosed character class; missing ']'"
  | .invalidRange lo hi =>
    "invalid range; '" ++ String.ofList [lo] ++ "' > '" ++ String.ofList [hi] ++ "'"
  | .unclosedAlternatives =>
    "unclosed alternate group; missing '\x7d' (maybe escape '\x7b' with '[\x7b]'?)"
  | .unopenedAlternatives =>
    "unopened alternate group; missing '\x7b' (maybe escape '\x7d' with '[\x7d]'?)"
  | .danglingEscape => "dangling '\\'"

/-- A group of alternatives that has been opened: what stands before it, and the branches that are
complete. Both are kept in reverse. -/
structure Group where
  before : List Token
  branches : List (List Token)

/-- What has been read: the tokens of the current branch in reverse, and the open groups from the
innermost out. -/
structure State where
  tokens : List Token := []
  groups : List Group := []

/-- A class that is being read, its ranges in reverse. -/
structure ClassState where
  negated : Bool
  ranges : List (Char × Char) := []
  first : Bool := true
  /-- A hyphen has been read that may continue the last range. -/
  inRange : Bool := false

namespace State

/-- Adds a token to the current branch. -/
def push (s : State) (t : Token) : State :=
  { s with tokens := t :: s.tokens }

/-- Opens a group. -/
def openGroup (s : State) : State :=
  { tokens := [], groups := ⟨s.tokens, []⟩ :: s.groups }

/-- Ends a branch, or adds a comma outside groups. -/
def comma (s : State) : State :=
  match s.groups with
  | [] => s.push (.literal ',')
  | g :: rest => { tokens := [], groups := { g with branches := s.tokens.reverse :: g.branches } :: rest }

/-- Closes the innermost group. -/
def closeGroup (s : State) : Except Fault State :=
  match s.groups with
  | [] => .error .unopenedAlternatives
  | g :: rest =>
    .ok { tokens := .alternatives (s.tokens.reverse :: g.branches).reverse :: g.before, groups := rest }

/-- Puts `**` in the place of the slash before it, given whether it ends its branch. Next to another
`**` it says nothing new. -/
def foldDirs (s : State) (ends : Bool) : State :=
  match s.tokens with
  | .leadingDirs :: _ => s
  | .trailingDirs :: _ => s
  | _ :: rest => { s with tokens := (if ends then .trailingDirs else .innerDirs) :: rest }
  | [] => s

/-- `**` where it is not a whole component. -/
def twoStars (s : State) : State :=
  (s.push .star).push .star

end State

namespace ClassState

/-- Ends the last range at a character. -/
def closeRange (k : ClassState) (c : Char) : Except Fault ClassState :=
  match k.ranges with
  | (lo, _) :: rest =>
    if c < lo then .error (.invalidRange lo c)
    else .ok { k with ranges := (lo, c) :: rest, first := false, inRange := false }
  | [] => .ok k

/-- Adds a character of its own. -/
def add (k : ClassState) (c : Char) : ClassState :=
  { k with ranges := (c, c) :: k.ranges, first := false, inRange := false }

/-- The token of a class that is complete. A hyphen left over stands for itself. -/
def token (k : ClassState) : Token :=
  .charClass k.negated (if k.inRange then ('-', '-') :: k.ranges else k.ranges).reverse

end ClassState

/-- What the reader is in the middle of. -/
inductive Mode where
  | outside
  /-- Just after a backslash. -/
  | escape
  /-- Just after the bracket that opens a class. -/
  | classStart
  | inClass (k : ClassState)
  /-- Just after a star, with the character before it. -/
  | afterStar (before : Option Char)
  /-- Just after two stars, with the character before them. -/
  | afterStars (before : Option Char)

/-- The reader between two characters. -/
structure Reading where
  mode : Mode := .outside
  previous : Option Char := none
  state : State := {}
  /-- While in a class, the characters after its bracket, in reverse. -/
  sinceBracket : Text := []

/-- A character of a class. It closes the class, or changes what is known of it. -/
def classStep (k : ClassState) (s : State) (c : Char) : Except Fault Reading := do
  if c = ']' ∧ !k.first then return { previous := c, state := s.push k.token }
  else
    let k ←
      if c = '-' ∧ !k.first ∧ !k.inRange then pure { k with inRange := true }
      else if k.inRange then k.closeRange c
      else pure (k.add c)
    return { mode := .inClass k, previous := c, state := s }

/-- A character outside classes. A bracket opens a class only if there are `classes`. -/
def plainStep (classes : Bool) (previous : Option Char) (s : State) (c : Char) :
    Except Fault Reading :=
  if c = '?' then .ok { previous := c, state := s.push .any }
  else if c = '*' then .ok { mode := .afterStar previous, previous := c, state := s }
  else if c = '[' ∧ classes then .ok { mode := .classStart, previous := c, state := s }
  else if c = '\x7b' then .ok { previous := c, state := s.openGroup }
  else if c = '\x7d' then s.closeGroup.map fun s => { previous := c, state := s }
  else if c = ',' then .ok { previous := c, state := s.comma }
  else if c = '\\' then .ok { mode := .escape, previous := c, state := s }
  else .ok { previous := c, state := s.push (.literal c) }

/-- Whether `**` with these characters around it, the end of the glob being none, is a whole
component: it starts its branch or follows a slash or the start of the branch, and a slash or the
end of the branch follows. -/
def isComponent (s : State) (before next : Option Char) : Bool :=
  let starts := s.tokens.isEmpty || before == some '/' ||
    (!s.groups.isEmpty && (before == some ',' || before == some '\x7b'))
  let ends := next == none || next == some '/' ||
    (!s.tokens.isEmpty && !s.groups.isEmpty && (next == some ',' || next == some '\x7d'))
  starts && ends

/-- The state after `**` with these characters around it. -/
def afterDirs (s : State) (before next : Option Char) : State :=
  if isComponent s before next then
    if s.tokens.isEmpty then s.push .leadingDirs else s.foldDirs (next != some '/')
  else s.twoStars

/-- Reads one character. -/
def step (classes : Bool) (r : Reading) (c : Char) : Except Fault Reading :=
  let inside (next : Reading) : Reading := { next with sinceBracket := c :: r.sinceBracket }
  match r.mode with
  | .outside => plainStep classes r.previous r.state c
  | .escape => .ok { previous := c, state := r.state.push (.literal c) }
  | .classStart =>
    if c = '!' ∨ c = '^' then
      .ok (inside { mode := .inClass { negated := true }, previous := c, state := r.state })
    else (classStep { negated := false } r.state c).map inside
  | .inClass k => (classStep k r.state c).map inside
  | .afterStar before =>
    if c = '*' then .ok { mode := .afterStars before, previous := c, state := r.state }
    else plainStep classes r.previous (r.state.push .star) c
  | .afterStars before =>
    let s := afterDirs r.state before c
    -- the slash after `**` belongs to it
    if c = '/' ∧ isComponent r.state before c then .ok { previous := c, state := s }
    else plainStep classes r.previous s c

/-- What has been read once the glob ends. -/
def finish (r : Reading) : Except Fault State :=
  match r.mode with
  | .outside => .ok r.state
  | .escape => .error .danglingEscape
  | .classStart => .error .unclosedClass
  | .inClass _ => .error .unclosedClass
  | .afterStar _ => .ok (r.state.push .star)
  | .afterStars before => .ok (afterDirs r.state before none)

/-- The reader just after the bracket of a class that is not closed, which stands for itself. -/
def Reading.afterBracket (r : Reading) : Reading :=
  { previous := '[', state := r.state.push (.literal '[') }

/-- What has been read once the glob ends, where a bracket that is not closed stands for itself. What
follows such a bracket is read again: nothing in it can close a class. -/
def finishOpen (r : Reading) : Except Fault State := do
  match r.mode with
  | .classStart | .inClass _ =>
    finish (← r.sinceBracket.reverse.foldlM (step false) r.afterBracket)
  | _ => finish r

end Glob

/-- A glob that has been read. -/
structure Glob where
  tokens : List Glob.Token

/-- What is wrong with a glob, and the glob as written. -/
structure GlobError where
  glob : Text
  fault : Glob.Fault
deriving DecidableEq

/-- The error in words. -/
def GlobError.message (e : GlobError) : String :=
  "error parsing glob '" ++ String.ofList e.glob ++ "': " ++ e.fault.describe

/-- The glob of a text, given how its reading ends. -/
def Glob.readWith (finish : Glob.Reading → Except Glob.Fault Glob.State) (t : Text) :
    Except GlobError Glob :=
  match t.foldlM (Glob.step true) {} >>= finish with
  | .error fault => .error ⟨t, fault⟩
  | .ok s => if s.groups.isEmpty then .ok ⟨s.tokens.reverse⟩ else .error ⟨t, .unclosedAlternatives⟩

/-- Reads a glob. -/
def Glob.parse (t : Text) : Except GlobError Glob :=
  Glob.readWith Glob.finish t

/-- Reads a glob in which a bracket that is not closed stands for itself. -/
def Glob.parseOpen (t : Text) : Except GlobError Glob :=
  Glob.readWith Glob.finishOpen t

end TemplateFolding
