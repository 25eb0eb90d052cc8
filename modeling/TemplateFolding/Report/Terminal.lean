import TemplateFolding.Text.Basic

/-!
# Styled output

Output for a terminal is a sequence of texts and style switches. Written with colours, a switch
becomes an escape sequence that first resets the style; written plainly, switches leave no trace.
-/

namespace TemplateFolding

/-- A foreground colour. -/
inductive Colour where
  | red
  | green
  | yellow
  | magenta
  | cyan
deriving DecidableEq

/-- How text is shown. -/
structure Style where
  colour : Option Colour := none
  bold : Bool := false
  dimmed : Bool := false
  underlined : Bool := false
deriving DecidableEq

/-- A piece of styled output. -/
inductive Piece where
  | text (t : Text)
  | switch (style : Style)
  | reset
deriving DecidableEq

namespace Colour

/-- The number of the colour among the foreground colours. -/
def code : Colour → Nat
  | .red => 31
  | .green => 32
  | .yellow => 33
  | .magenta => 35
  | .cyan => 36

end Colour

/-- The escape sequence with a number. -/
def escapeCode (n : Nat) : Text :=
  '\x1B' :: '[' :: Nat.toDigits 10 n ++ ['m']

/-- The escape sequences that put a style in force: a reset, the attributes, the colour. -/
def Style.codes (s : Style) : Text :=
  escapeCode 0 ++ (if s.bold then escapeCode 1 else []) ++ (if s.dimmed then escapeCode 2 else []) ++
    (if s.underlined then escapeCode 4 else []) ++
    (match s.colour with
    | some c => escapeCode c.code
    | none => [])

namespace Piece

/-- One piece as written, with colours or plainly. -/
def write (colours : Bool) : Piece → Text
  | .text t => t
  | .switch style => if colours then style.codes else []
  | .reset => if colours then escapeCode 0 else []

/-- All pieces as written. -/
def writeAll (colours : Bool) (ps : List Piece) : Text :=
  ps.flatMap (write colours)

/-- Plain text given as a string. -/
def plain (s : String) : Piece := .text s.toList

/-- Text in a style, and back to normal. -/
def styled (style : Style) (t : Text) : List Piece :=
  [.switch style, .text t, .reset]

end Piece

end TemplateFolding
