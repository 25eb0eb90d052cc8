/-!
# Editor settings

The settings of the host editor that folding depends on. Wrapping at the window edge gives no
stable width to fold against, so soft wrap is supported at the preferred line length only.
-/

namespace TemplateFolding

/-- The settings of a host editor. -/
structure Settings where
  softWrap : Bool := false
  softWrapAtPreferredLineLength : Bool := false
  preferredLineLength : Nat := 80
  /-- The cursor treats leading soft tabs as one unit. This must be off while folding. -/
  atomicSoftTabs : Bool := true
deriving DecidableEq

/-- Soft wrap at the window edge is on. -/
inductive UnsupportedSoftWrap where
  | unsupportedSoftWrap
deriving DecidableEq

/-- The refusal in words. -/
def UnsupportedSoftWrap.message : UnsupportedSoftWrap → String
  | .unsupportedSoftWrap =>
    "Template folding does not support soft wrap at the window edge; " ++
      "turn soft wrap off or wrap at the preferred line length"

/-- The length that a screen line with a folded declaration must stay below, if there is one. -/
def Settings.maxLineLength (s : Settings) : Except UnsupportedSoftWrap (Option Nat) :=
  match s.softWrap, s.softWrapAtPreferredLineLength with
  | false, _ => .ok none
  | true, true => .ok (some s.preferredLineLength)
  | true, false => .error .unsupportedSoftWrap

end TemplateFolding
