import TemplateFolding.Source.Path

/-!
# Kinds of source files

A file is a header or a source by its extension; other files are not looked at.
-/

namespace TemplateFolding

/-- The kind of a C or C++ file. -/
inductive SourceKind where
  | header
  | source
deriving DecidableEq

namespace SourceKind

/-- The name of the kind. -/
def name : SourceKind → String
  | .header => "header"
  | .source => "source"

/-- The extensions of headers. -/
def headerExtensions : List String :=
  ["h", "hh", "hpp", "hxx", "h++", "ipp", "tpp", "tcc", "inl"]

/-- The extensions of sources. -/
def sourceExtensions : List String :=
  ["cpp", "cc", "cxx", "c++", "cppm", "ixx"]

/-- The kind that goes with an extension. The case of letters does not matter; all letters of the
known extensions are ASCII, and no other letter has one of them as its lower case. -/
def ofExtension? (extension : Text) : Option SourceKind :=
  let lower := String.ofList (extension.map Char.toLower)
  if headerExtensions.contains lower then some .header
  else if sourceExtensions.contains lower then some .source
  else none

/-- The kind of the file at a path. -/
def ofPath? (p : Path) : Option SourceKind :=
  p.extension?.bind ofExtension?

/-- Whether a path names a file of a kind that is asked for; without a filter every kind is. -/
def accepts (filter : Option (List SourceKind)) (p : Path) : Bool :=
  (ofPath? p).any fun kind => filter.all (·.contains kind)

end SourceKind

end TemplateFolding
