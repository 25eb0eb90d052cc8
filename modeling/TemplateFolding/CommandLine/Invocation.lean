import TemplateFolding.CommandLine.Arguments
import TemplateFolding.Report.Summary
import TemplateFolding.Source.Project
import TemplateFolding.Text.Point

/-!
# What is asked for on the command line

Without a subcommand, or with `scan`, a project is scanned; `list` reports on one file and `render`
shows a file with its declarations folded. Every switch but `--ignore` may be given once for each
command, and no path may be empty.
-/

namespace TemplateFolding.CommandLine

/-- How a file is shown with its declarations folded. -/
structure RenderOptions where
  colours : Bool
  settingsFile : Option Path
  preferredLineLength : Option Nat
  softWrap : Bool
  cursor : Option Point
deriving DecidableEq

/-- What to do. -/
inductive Action where
  | scan (root : Path) (format : ReportFormat) (output : Option Path)
  | list (file : Path) (format : ReportFormat)
  | render (file : Path) (options : RenderOptions)
deriving DecidableEq

/-- What is asked for. -/
structure Invocation where
  action : Action
  kind : Option SourceKind
  ignore : List Text
  ignoreFile : Option Path
  includeHidden : Bool
  noColour : Bool
  verbose : Bool
deriving DecidableEq

/-- What the arguments of a command have said so far. -/
structure Options where
  operand : Option Path := none
  format : Option ReportFormat := none
  output : Option Path := none
  kind : Option SourceKind := none
  ignore : List Text := []
  ignoreFile : Option Path := none
  includeHidden : Bool := false
  threads : Option Nat := none
  noColour : Bool := false
  verbose : Bool := false
  colours : Bool := false
  settingsFile : Option Path := none
  preferredLineLength : Option Nat := none
  softWrap : Bool := false
  cursor : Option Point := none

/-! ## Values -/

/-- A number in decimal digits, below a bound. A plus sign may stand in front. -/
def natural? (bound : Nat) (t : Text) : Option Nat :=
  let digits :=
    match t with
    | '+' :: rest => rest
    | t => t
  if digits.isEmpty || !digits.all Char.isDigit then none
  else some (digits.foldl (fun n c => 10 * n + (c.toNat - '0'.toNat)) 0) |>.filter (· < bound)

/-- A path, which is not empty. -/
def path? (t : Text) : Option Path :=
  if t = [] then none else some t

/-- The format with a name. -/
def format? (t : Text) : Option ReportFormat :=
  [("json", .json), ("yaml", .yaml), ("summary", .summary), ("ansi", .ansi)].lookup (String.ofList t)

/-- The kind of files with a name. -/
def kind? (t : Text) : Option SourceKind :=
  [.header, .source].find? fun kind => kind.name.toList == t

/-- One coordinate of a position that is counted from one. Blanks around it are left out. -/
def coordinate? (t : Text) : Option Nat :=
  ((natural? (Nat.pow 2 32) t.trim).filter (0 < ·)).map (· - 1)

/-- A position written as row and column with a colon between them, counted from one. -/
def position? (t : Text) : Option Point :=
  match t.dropWhile (· != ':') with
  | [] => none
  | _ :: column => do some ⟨← coordinate? (t.takeWhile (· != ':')), ← coordinate? column⟩

/-! ## Switches -/

/-- Sets what has not been set before. -/
def once {α : Type} (old new : Option α) : Option (Option α) :=
  match old, new with
  | none, some a => some (some a)
  | _, _ => none

/-- Raises a flag that has not been raised before. -/
def raise (old : Bool) : Option Bool :=
  if old then none else some true

def helpSwitch : Switch Options :=
  ⟨"help".toList, some 'h', .stop .help⟩

def versionSwitch : Switch Options :=
  ⟨"version".toList, some 'V', .stop .version⟩

def verboseSwitch : Switch Options :=
  ⟨"verbose".toList, some 'v', .flag fun o => do some { o with verbose := ← raise o.verbose }⟩

def noColourSwitch : Switch Options :=
  ⟨"no-color".toList, none, .flag fun o => do some { o with noColour := ← raise o.noColour }⟩

def formatSwitch : Switch Options :=
  ⟨"format".toList, some 'f',
    .value fun t o => do some { o with format := ← once o.format (format? t) }⟩

def outputSwitch : Switch Options :=
  ⟨"output".toList, some 'o',
    .value fun t o => do some { o with output := ← once o.output (path? t) }⟩

def kindSwitch : Switch Options :=
  ⟨"kind".toList, none, .value fun t o => do some { o with kind := ← once o.kind (kind? t) }⟩

def ignoreSwitch : Switch Options :=
  ⟨"ignore".toList, none, .value fun t o => some { o with ignore := o.ignore ++ [t] }⟩

def ignoreFileSwitch : Switch Options :=
  ⟨"ignore-file".toList, none,
    .value fun t o => do some { o with ignoreFile := ← once o.ignoreFile (path? t) }⟩

def includeHiddenSwitch : Switch Options :=
  ⟨"include-hidden".toList, none,
    .flag fun o => do some { o with includeHidden := ← raise o.includeHidden }⟩

/-- The number of threads has no influence on what is reported. -/
def threadsSwitch : Switch Options :=
  ⟨"threads".toList, none,
    .value fun t o => do some { o with threads := ← once o.threads (natural? (Nat.pow 2 64) t) }⟩

def coloursSwitch : Switch Options :=
  ⟨"ansi".toList, none, .flag fun o => do some { o with colours := ← raise o.colours }⟩

def settingsFileSwitch : Switch Options :=
  ⟨"editor-config".toList, none,
    .value fun t o => do some { o with settingsFile := ← once o.settingsFile (path? t) }⟩

def preferredLineLengthSwitch : Switch Options :=
  ⟨"preferred-line-length".toList, none,
    .value fun t o => do
      some { o with preferredLineLength := ← once o.preferredLineLength (natural? (Nat.pow 2 64) t) }⟩

def softWrapSwitch : Switch Options :=
  ⟨"soft-wrap".toList, none, .flag fun o => do some { o with softWrap := ← raise o.softWrap }⟩

def cursorSwitch : Switch Options :=
  ⟨"cursor".toList, none, .value fun t o => do some { o with cursor := ← once o.cursor (position? t) }⟩

/-! ## Commands -/

/-- The switches that every command takes. -/
def sharedSwitches : List (Switch Options) :=
  [helpSwitch, verboseSwitch, noColourSwitch]

/-- A command takes at most one operand, which is a path. -/
def takeOperand (t : Text) (o : Options) : Option Options := do
  some { o with operand := ← once o.operand (path? t) }

/-- The subcommands. -/
def subcommands : List Text :=
  ["scan", "list", "render", "help"].map String.toList

/-- The command itself. -/
def mainGrammar : Grammar Options :=
  { switches := sharedSwitches ++ [versionSwitch, formatSwitch, outputSwitch, kindSwitch,
      ignoreSwitch, ignoreFileSwitch, includeHiddenSwitch, threadsSwitch]
    operand := takeOperand
    subcommands }

/-- A subcommand with switches of its own. -/
def subGrammar (switches : List (Switch Options)) : Grammar Options :=
  { switches := sharedSwitches ++ switches, operand := takeOperand, subcommands := [] }

/-- The options in the arguments of a subcommand. -/
def readSub (switches : List (Switch Options)) (arguments : List Text) : Except Stop Options := do
  return (← (subGrammar switches).read arguments {}).1

/-- The working directory. -/
def here : Path := ['.']

/-- The action of a subcommand, and the options it was given. -/
def readAction (name : Text) (arguments : List Text) : Except Stop (Action × Options) := do
  match String.ofList name with
  | "scan" =>
    let o ← readSub [formatSwitch, outputSwitch] arguments
    return (.scan (o.operand.getD here) (o.format.getD .ansi) o.output, o)
  | "list" =>
    let o ← readSub [formatSwitch] arguments
    return (.list (← orUsage o.operand) (o.format.getD .summary), o)
  | "render" =>
    let o ← readSub [coloursSwitch, settingsFileSwitch, preferredLineLengthSwitch, softWrapSwitch,
      cursorSwitch] arguments
    let options := ⟨o.colours, o.settingsFile, o.preferredLineLength, o.softWrap, o.cursor⟩
    return (.render (← orUsage o.operand) options, o)
  | _ => throw (if arguments.length ≤ 1 ∧ arguments.all subcommands.contains then .help else .usage)

/-- What the arguments ask for. -/
def Invocation.ofArguments (arguments : List Text) : Except Stop Invocation := do
  let (o, sub) ← mainGrammar.read arguments {}
  let (action, s) ← match sub with
    | none => pure (.scan (o.operand.getD here) (o.format.getD .json) o.output, {})
    | some (name, rest) => readAction name rest
  return {
    action
    kind := o.kind
    ignore := o.ignore
    ignoreFile := o.ignoreFile
    includeHidden := o.includeHidden
    noColour := o.noColour || s.noColour
    verbose := o.verbose || s.verbose }

end TemplateFolding.CommandLine
