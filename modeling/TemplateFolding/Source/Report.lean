import TemplateFolding.Source.Kind
import TemplateFolding.Template.Occurrence
import TemplateFolding.Template.Preview
import TemplateFolding.Number.Binary

/-!
# What a scan reports

The declarations of a file with their previews, the file with its declarations, and a whole project
with statistics over its files.
-/

namespace TemplateFolding

open Text

/-- A declaration as reported: where it stands, how long it is, and its preview or why it has
none. -/
structure Entry where
  range : Range
  lineCount : Nat
  visualLength : Nat
  preview : Option Text
  skipped : Option Text
  params : List Parameter
deriving DecidableEq

namespace Entry

/-- The number of characters that folding the declaration behind its preview hides. -/
def savedChars (e : Entry) : Nat :=
  match e.preview with
  | some preview => e.visualLength - preview.length
  | none => 0

/-- The report on an occurrence whose text is `source`. -/
def ofOccurrence (source : Text) (o : Occurrence) : Entry :=
  let preview := Preview.ofParams o.params
  { range := o.range
    lineCount := o.range.stop.row - o.range.start.row + 1
    visualLength := source.visualLength
    preview := match preview with
      | .ok p => some p.text
      | .error _ => none
    skipped := match preview with
      | .ok _ => none
      | .error refusal => some refusal.message.toList
    params := o.params }

/-- The declarations of a text. -/
def all (t : Text) : List Entry :=
  (Finding.all t).map fun f => ofOccurrence f.source f.occurrence

end Entry

/-- A file as reported. -/
structure SourceFile where
  /-- As seen from the root of the project. -/
  path : Path
  absolutePath : Path
  kind : SourceKind
  entries : List Entry
  lineCount : Nat
  /-- Whether the file could be read. -/
  parsed : Bool
  error : Option Text
deriving DecidableEq

/-- Counts over the files of a project. -/
structure Statistics where
  totalFiles : Nat := 0
  headerFiles : Nat := 0
  sourceFiles : Nat := 0
  totalLines : Nat := 0
  totalTemplates : Nat := 0
  previewableTemplates : Nat := 0
  multilineTemplates : Nat := 0
  totalParams : Nat := 0
  savedChars : Nat := 0
deriving DecidableEq

namespace Statistics

/-- The counts over some files. -/
def ofFiles (files : List SourceFile) : Statistics :=
  let entries := files.flatMap (·.entries)
  { totalFiles := files.length
    headerFiles := files.countP (·.kind == .header)
    sourceFiles := files.countP (·.kind == .source)
    totalLines := (files.map (·.lineCount)).foldl (· + ·) 0
    totalTemplates := entries.length
    previewableTemplates := entries.countP (·.preview.isSome)
    multilineTemplates := entries.countP fun e => decide (1 < e.lineCount)
    totalParams := (entries.map (·.params.length)).foldl (· + ·) 0
    savedChars := (entries.map (·.savedChars)).foldl (· + ·) 0 }

end Statistics

/-- When and how fast a scan was made, and by what. -/
structure Metadata where
  durationMs : Nat
  filesPerSecond : Binary
  timestamp : Text
  toolVersion : Text
deriving DecidableEq

/-- The version of this tool. -/
def toolVersion : Text := "0.1.0".toList

/-- A scanned project. -/
structure TemplateMap where
  root : Path
  files : List SourceFile
  statistics : Statistics
  metadata : Metadata
deriving DecidableEq

/-- The map of a project with these files. -/
def TemplateMap.ofFiles (root : Path) (files : List SourceFile) (metadata : Metadata) : TemplateMap :=
  { root, files, statistics := .ofFiles files, metadata }

end TemplateFolding
