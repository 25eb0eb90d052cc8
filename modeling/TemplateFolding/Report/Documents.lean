import TemplateFolding.Format.Json
import TemplateFolding.Format.Yaml
import TemplateFolding.Source.Report

/-!
# Reports as documents

The fields of each report in the order in which they are written. An absent preview, reason or
error has no field.
-/

namespace TemplateFolding

/-- A field that is there only if there is a text for it. -/
def Document.optional (key : String) (t : Option Text) : List (String × Document) :=
  (t.map fun t => (key, .text t)).toList

/-- A point as a record. -/
def Point.document (p : Point) : Document :=
  .record [("row", .nat p.row), ("column", .nat p.column)]

/-- A range as a record. -/
def Range.document (r : Range) : Document :=
  .record [("start", r.start.document), ("end", r.stop.document)]

/-- The fields of a type parameter. -/
def TypeSpec.fields (s : TypeSpec) : List (String × Document) :=
  [("is_pack", .bool s.isPack), ("name", .text s.name), ("default", .text s.default)]

namespace Parameter

mutual

/-- A parameter as a record; its kind comes first. -/
def document : Parameter → Document
  | .type spec => .record (("kind", .text "type".toList) :: spec.fields)
  | .nonType value => .record [("kind", .text "non_type".toList), ("value", .text value)]
  | .template params spec =>
    .record (("kind", .text "template".toList) :: ("params", .list (documents params)) :: spec.fields)

/-- Parameters as records. -/
def documents : List Parameter → List Document
  | [] => []
  | p :: ps => document p :: documents ps

end

end Parameter

/-- An entry as a record. -/
def Entry.document (e : Entry) : Document :=
  .record <|
    [("range", e.range.document), ("line_count", .nat e.lineCount),
      ("visual_length", .nat e.visualLength)] ++
    Document.optional "preview" e.preview ++ Document.optional "skipped" e.skipped ++
    [("params", .list (Parameter.documents e.params))]

/-- A file as a record. -/
def SourceFile.document (f : SourceFile) : Document :=
  .record <|
    [("path", .text f.path), ("absolute_path", .text f.absolutePath),
      ("kind", .text f.kind.name.toList), ("occurrences", .list (f.entries.map Entry.document)),
      ("line_count", .nat f.lineCount), ("parsed", .bool f.parsed)] ++
    Document.optional "error" f.error

/-- Statistics as a record. -/
def Statistics.document (s : Statistics) : Document :=
  .record
    [("total_files", .nat s.totalFiles), ("header_files", .nat s.headerFiles),
      ("source_files", .nat s.sourceFiles), ("total_lines", .nat s.totalLines),
      ("total_templates", .nat s.totalTemplates),
      ("previewable_templates", .nat s.previewableTemplates),
      ("multiline_templates", .nat s.multilineTemplates), ("total_params", .nat s.totalParams),
      ("saved_chars", .nat s.savedChars)]

/-- Metadata as a record. -/
def Metadata.document (m : Metadata) : Document :=
  .record
    [("scan_duration_ms", .nat m.durationMs), ("files_per_second", .number m.filesPerSecond),
      ("timestamp", .text m.timestamp), ("tool_version", .text m.toolVersion)]

/-- A scanned project as a record. -/
def TemplateMap.document (m : TemplateMap) : Document :=
  .record
    [("root", .text m.root), ("files", .list (m.files.map SourceFile.document)),
      ("stats", m.statistics.document), ("metadata", m.metadata.document)]

end TemplateFolding
