import TemplateFolding.Report.Documents
import TemplateFolding.Report.FoldedScreen

/-!
# Reports for people

The summary of a project, plain or in colours, and the listing of one file. `TemplateMap.render` and
`SourceFile.render` give a report in any of the formats.
-/

namespace TemplateFolding

open Piece

/-- The formats of a report. -/
inductive ReportFormat where
  | json
  | yaml
  | summary
  | ansi
deriving DecidableEq

/-- Labels are dimmed. -/
def labelStyle : Style := { dimmed := true }

/-- A number as a string. -/
def number (n : Nat) : String :=
  String.ofList (decimalDigits n)

/-- Puts a file before the first that has fewer declarations. -/
def SourceFile.rank (f : SourceFile) : List SourceFile → List SourceFile
  | [] => [f]
  | g :: rest => if g.entries.length < f.entries.length then f :: g :: rest else g :: rank f rest

namespace TemplateMap

/-- The five files with the most declarations; among equals the earlier ones. -/
def topFiles (m : TemplateMap) : List SourceFile :=
  ((m.files.filter (!·.entries.isEmpty)).foldl (fun ranked f => f.rank ranked) []).take 5

/-- The speed of the scan. -/
def speed (m : TemplateMap) : String :=
  number m.metadata.durationMs ++ "ms (" ++
    String.ofList (m.metadata.filesPerSecond.fixed 2) ++ " files/sec)"

/-- The share of a file in the declarations of the project. -/
def share (f : SourceFile) : String :=
  " (" ++ number f.entries.length ++ " templates, " ++ number f.lineCount ++ " lines)\n"

/-- The part of the summary that names the files with the most declarations. -/
def topLines (m : TemplateMap) : String :=
  if m.topFiles.isEmpty then ""
  else
    "Top files by templates:\n" ++
      String.join (m.topFiles.map fun f => "  " ++ String.ofList f.path ++ share f) ++ "\n"

/-- The part of the summary that names the files that could not be read. -/
def unreadableLines (m : TemplateMap) : String :=
  let failed := m.files.filter (!·.parsed)
  if failed.isEmpty then ""
  else
    "Unreadable files:\n" ++
      String.join (failed.map fun f =>
        "  " ++ String.ofList f.path ++ ": " ++
          (match f.error with
          | some error => String.ofList error
          | none => "unknown error") ++ "\n") ++ "\n"

/-- The summary without colours. -/
def summary (m : TemplateMap) : String :=
  let s := m.statistics
  "Template Scan Summary\n=====================\nRoot: " ++ String.ofList m.root ++ "\n\n" ++
    "Files Scanned: " ++ number s.totalFiles ++ "\n- Headers: " ++ number s.headerFiles ++
    "\n- Sources: " ++ number s.sourceFiles ++ "\nTotal Lines: " ++ number s.totalLines ++ "\n\n" ++
    "Templates: " ++ number s.totalTemplates ++ "\n- With preview: " ++
    number s.previewableTemplates ++ "\n- Multi-line: " ++ number s.multilineTemplates ++
    "\n- Parameters: " ++ number s.totalParams ++ "\nChars hidden by folding: " ++
    number s.savedChars ++ "\n\n" ++ m.topLines ++ m.unreadableLines ++
    "Scan Duration: " ++ m.speed ++ "\nTimestamp: " ++ String.ofList m.metadata.timestamp ++
    "\nTool Version: " ++ String.ofList m.metadata.toolVersion ++ "\n"

/-- The summary as styled pieces. -/
def summaryPieces (m : TemplateMap) : List Piece :=
  let s := m.statistics
  let label (t : String) := styled labelStyle t.toList
  let top :=
    if m.topFiles.isEmpty then []
    else
      label "Top files by templates:" ++ [plain "\n"] ++
        m.topFiles.flatMap (fun f =>
          plain "  " :: styled { colour := some .yellow } f.path ++ [plain (share f)]) ++
        [plain "\n"]
  styled { colour := some .cyan, bold := true } "Template Scan Summary".toList ++ [plain "\n"] ++
    styled { colour := some .cyan } "=====================".toList ++ [plain "\n"] ++
    label "Root:" ++ [plain (" " ++ String.ofList m.root ++ "\n\n")] ++
    label "Files Scanned:" ++
    [plain (" " ++ number s.totalFiles ++ " (headers: " ++ number s.headerFiles ++ ", sources: " ++
      number s.sourceFiles ++ ") | " ++ number s.totalLines ++ " lines\n\n")] ++
    label "Templates:" ++ [plain " "] ++
    styled { colour := some .green, bold := true } (decimalDigits s.totalTemplates) ++
    [plain (" (with preview: " ++ number s.previewableTemplates ++ ", multi-line: " ++
      number s.multilineTemplates ++ ", parameters: " ++ number s.totalParams ++ ")\n")] ++
    label "Chars hidden by folding:" ++ [plain (" " ++ number s.savedChars ++ "\n\n")] ++ top ++
    label "Scan:" ++ [plain (" " ++ m.speed ++ "\n")]

/-- A scanned project in a format. -/
def render (m : TemplateMap) : ReportFormat → Text
  | .json => Json.render m.document
  | .yaml => Yaml.render m.document
  | .summary => m.summary.toList
  | .ansi => writeAll true m.summaryPieces

end TemplateMap

/-- Where an entry stands, counted from one. -/
def Entry.location (e : Entry) : String :=
  let place (p : Point) := number (p.row + 1) ++ ":" ++ number (p.column + 1)
  "  " ++ place e.range.start ++ "-" ++ place e.range.stop

/-- An entry on one line. -/
def Entry.pieces (e : Entry) : List Piece :=
  styled labelStyle e.location.toList ++ plain "  " ::
    match e.preview with
    | some preview =>
      previewPieces preview ++
        [plain ("  (" ++ number e.lineCount ++ " lines, " ++ number e.savedChars ++
          " chars hidden)\n")]
    | none =>
      styled { colour := some .yellow }
        ("skipped: ".toList ++ e.skipped.getD "no preview".toList) ++ [plain "\n"]

namespace SourceFile

/-- The listing of a file: a line for the file, one for its error, one for each entry. -/
def listing (f : SourceFile) : List Piece :=
  styled { bold := true } f.path ++
    [plain (" (" ++ number f.entries.length ++ " templates)\n")] ++
    (match f.error with
    | some error =>
      styled { colour := some .red } ("  error: ".toList ++ error) ++ [plain "\n"]
    | none => []) ++
    f.entries.flatMap Entry.pieces

/-- A file in a format. -/
def render (f : SourceFile) : ReportFormat → Text
  | .json => Json.render f.document
  | .yaml => Yaml.render f.document
  | .summary => writeAll false f.listing
  | .ansi => writeAll true f.listing

end SourceFile

end TemplateFolding
