import TemplateFolding.CommandLine.Invocation
import TemplateFolding.Folding.AutoFolder
import TemplateFolding.Report.FoldedScreen
import TemplateFolding.SettingsFile

/-!
# Running a command

A command is run on a file tree. Its outcome is an exit code, what it writes to the two output
streams, and the tree it leaves behind.
-/

namespace TemplateFolding.CommandLine

/-- What a command leaves behind. -/
structure Outcome where
  code : Nat
  output : Text := []
  errors : Text := []
  files : FileTree
  /-- The file that was written. -/
  written : Option Path := none

/-! ## Failures -/

/-- Why a command fails: what went wrong, and what that was caused by, each by the next. -/
structure Failure where
  message : String
  causes : List String := []
deriving DecidableEq

namespace Failure

/-- A text with every line but its first indented. -/
def indent (margin : Text) (t : String) : Text :=
  t.toList.flatMap fun c => if c = '\n' then '\n' :: margin else [c]

/-- The lines of several causes, numbered. -/
def numberedCauses (n : Nat) : List String → Text
  | [] => []
  | cause :: rest =>
    "    ".toList ++ decimalDigits n ++ ": ".toList ++ indent "       ".toList cause ++ ['\n'] ++
      numberedCauses (n + 1) rest

/-- The failure in words. A single cause has no number. -/
def report (f : Failure) : Text :=
  ("Error: " ++ f.message ++ "\n").toList ++
    match f.causes with
    | [] => []
    | [cause] => "\nCaused by:\n    ".toList ++ indent "    ".toList cause ++ ['\n']
    | causes => "\nCaused by:\n".toList ++ numberedCauses 0 causes

/-- A failure of what is behind `context`. -/
def within (context : String) (f : Failure) : Failure :=
  ⟨context, f.message :: f.causes⟩

/-- A failed file operation. -/
def ofFileError (e : FileError) : Failure :=
  ⟨e.message, []⟩

/-- A failed scan. The error that it wraps is its cause. -/
def ofScanError (e : ScanError) : Failure :=
  match e with
  | .config inner => ⟨e.message, [inner.message]⟩
  | .file inner => ⟨e.message, [inner.message]⟩
  | .unsupportedFile _ => ⟨e.message, []⟩

/-- Settings that could not be read. The error of a file is a cause of its own. -/
def ofSettingsError (e : SettingsError) : Failure :=
  match e with
  | .file inner => ⟨e.message, [inner.message]⟩
  | _ => ⟨e.message, []⟩

end Failure

/-- Runs a step, whose failure is reported as one of `context`. -/
def attempt {ε α : Type} (context : String) (describe : ε → Failure) :
    Except ε α → Except Failure α
  | .ok a => .ok a
  | .error e => .error ((describe e).within context)

/-! ## Actions -/

namespace Invocation

/-- What to scan. -/
def scanConfig (i : Invocation) (root : Path) : ScanConfig :=
  { root, kinds := i.kind.map ([·]), ignore := i.ignore, ignoreFile := i.ignoreFile,
    includeHidden := i.includeHidden }

/-- The format to report in: where colours are not wanted, the plain summary. -/
def formatFor (i : Invocation) : ReportFormat → ReportFormat
  | .ansi => if i.noColour then .summary else .ansi
  | format => format

/-- Scans a project and writes the report to the output or to a file. What is known of the scan
itself may depend on the number of files. -/
def scan (i : Invocation) (top : FileTree) (metadata : Nat → Metadata) (root : Path)
    (format : ReportFormat) (output : Option Path) : Except Failure Outcome :=
  match Scanner.ofConfig top (i.scanConfig root) with
  | .error e => .error (.ofScanError e)
  | .ok scanner => do
    let files := scanner.scan top
    let map := TemplateMap.ofFiles root files (metadata files.length)
    let report := map.render (i.formatFor format)
    match output with
    | none => return { code := 0, output := report ++ ['\n'], files := top }
    | some path =>
      let name := String.ofList path
      let files ← attempt ("failed to write " ++ name) .ofFileError
        (top.write path (String.ofList report).toUTF8)
      let notice := if i.verbose then "Output written to: " ++ name ++ "\n" else ""
      return { code := 0, errors := notice.toList, files, written := some path }

/-- Reports on one file. -/
def list (i : Invocation) (top : FileTree) (file : Path) (format : ReportFormat) :
    Except Failure Outcome :=
  match Scanner.ofConfig top {} with
  | .error e => .error (.ofScanError e)
  | .ok scanner => do
    let report ← attempt ("failed to scan " ++ String.ofList file) .ofScanError
      (scanner.scanFile top file)
    return { code := 0, output := report.render (i.formatFor format), files := top }

/-- The settings of the settings file, if there is one. -/
def loadSettings (top : FileTree) : Option Path → Except Failure Settings
  | none => .ok {}
  | some path =>
    attempt ("failed to load editor config " ++ String.ofList path) .ofSettingsError
      (Settings.load top path)

/-- The settings to fold with: those of the settings file, changed by the switches. -/
def settings (top : FileTree) (o : RenderOptions) : Except Failure Settings := do
  let loaded ← loadSettings top o.settingsFile
  let wrapped :=
    if o.softWrap then { loaded with softWrap := true, softWrapAtPreferredLineLength := true }
    else loaded
  match o.preferredLineLength with
  | none => return wrapped
  | some 0 => throw ⟨"preferred line length must be positive", []⟩
  | some length => return { wrapped with preferredLineLength := length }

/-- What is said about folding a file. -/
def notices (i : Invocation) (file : Path) (r : FoldReport) : Text :=
  (r.notificationLines.flatMap fun line => file ++ (": " ++ line ++ "\n").toList) ++
    if i.verbose then
      ("--- " ++ Nat.repr r.folded ++ " templates folded, " ++ Nat.repr r.skipped ++ " skipped, " ++
        Nat.repr r.failures.length ++ " failed ---\n").toList
    else []

/-- Shows a file with its declarations folded. Where the settings do not allow folding, the file is
shown as it is. -/
def render (i : Invocation) (top : FileTree) (file : Path) (o : RenderOptions) :
    Except Failure Outcome := do
  let settings ← settings top o
  let text ← attempt ("failed to read " ++ String.ofList file) .ofFileError (top.readText file)
  let editor : Editor := { text, settings }
  let editor := o.cursor.elim editor editor.setCursor
  let (result, folder) := (AutoFolder.ofEditor editor).foldAll
  let errors ← match result with
    | .ok report => pure (i.notices file report)
    | .error (.settings fault) => pure ("warning: " ++ fault.message ++ "\n").toList
    | .error (.contract fault) => throw ⟨fault.message?.getD "", []⟩
  return { code := 0, output := folder.folded.editor.foldedScreen o.colours, errors, files := top }

/-- Runs what is asked for. -/
def run (i : Invocation) (top : FileTree) (metadata : Nat → Metadata) : Except Failure Outcome :=
  match i.action with
  | .scan root format output => i.scan top metadata root format output
  | .list file format => i.list top file format
  | .render file options => i.render top file options

end Invocation

/-! ## The program -/

/-- The name of the program with its version. -/
def versionLine : Text :=
  "tplfold ".toList ++ toolVersion ++ ['\n']

/-- How the program is called. -/
def usageLines : Text :=
  ("Usage: tplfold [OPTIONS] [PATH] [COMMAND]\n\n" ++
    "Commands:\n" ++
    "  scan    Scan a project and show template statistics\n" ++
    "  list    List the template declarations of a single file\n" ++
    "  render  Fold every template of a file and print the folded screen\n" ++
    "  help    Print this message\n").toList

/-- Runs the program with arguments. -/
def runProgram (arguments : List Text) (top : FileTree) (metadata : Nat → Metadata) : Outcome :=
  match Invocation.ofArguments arguments with
  | .error .version => { code := 0, output := versionLine, files := top }
  | .error .help => { code := 0, output := usageLines, files := top }
  | .error .usage => { code := 2, errors := usageLines, files := top }
  | .ok invocation =>
    match invocation.run top metadata with
    | .ok outcome => outcome
    | .error failure => { code := 1, errors := failure.report, files := top }

end TemplateFolding.CommandLine
