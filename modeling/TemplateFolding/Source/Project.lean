import TemplateFolding.Source.FileTree
import TemplateFolding.Source.IgnoreRules
import TemplateFolding.Source.Report

/-!
# Scanning a project

The files below a root are walked, those that are ignored or of a kind that is not asked for are
left out, and the others are reported in the order of their paths. A file that cannot be read is
reported with its error.
-/

namespace TemplateFolding

/-- What to scan. -/
structure ScanConfig where
  root : Path := ['.']
  /-- The kinds of files to scan; all if there is no filter. -/
  kinds : Option (List SourceKind) := none
  /-- Globs of paths to leave out. -/
  ignore : List Text := []
  /-- A further ignore file. -/
  ignoreFile : Option Path := none
  maxFileSize : Nat := 10 * 1024 * 1024
  followLinks : Bool := false
  includeHidden : Bool := false

/-- Why there is no filter for a configuration. -/
inductive ConfigError where
  | invalidGlob (error : GlobError)
  | missingIgnoreFile (path : Path)
deriving DecidableEq

/-- The error in words. -/
def ConfigError.message : ConfigError → String
  | .invalidGlob error => "Invalid glob pattern: " ++ error.message
  | .missingIgnoreFile path =>
    "Invalid configuration: ignore file not found: " ++ String.ofList path

/-- Why a scan fails. -/
inductive ScanError where
  | config (error : ConfigError)
  | file (error : FileError)
  | unsupportedFile (path : Path)
deriving DecidableEq

/-- The error in words. -/
def ScanError.message : ScanError → String
  | .config error => "Config error: " ++ error.message
  | .file error => "IO error: " ++ error.message
  | .unsupportedFile path => "Not a C/C++ source file: " ++ String.ofList path

/-! ## Ignored paths -/

/-- Decides which paths are left out. -/
structure IgnoreFilter where
  root : Path
  rules : List IgnoreRule
  globs : List Glob
  includeHidden : Bool

namespace IgnoreFilter

/-- The globs of paths that are always left out: version control, build output, dependencies and
precompiled headers. -/
def defaultPatterns : List String :=
  ["**/.git/**", "**/build/**", "**/cmake-build-*/**", "**/CMakeFiles/**", "**/_deps/**", "**/out/**",
    "**/target/**", "**/third_party/**", "**/vendor/**", "**/node_modules/**", "**/*.pch", "**/*.gch"]

/-- The default globs. -/
def defaultGlobs : List Glob :=
  defaultPatterns.filterMap fun p => (Glob.parse p.toList).toOption

/-- Reads globs; the first that cannot be read is the error. -/
def parseGlobs (patterns : List Text) : Except ConfigError (List Glob) :=
  patterns.mapM fun p =>
    match Glob.parse p with
    | .ok g => .ok g
    | .error e => .error (.invalidGlob e)

/-- The rules of an ignore file; one that cannot be read has none. -/
def rulesOf (top : FileTree) (p : Path) : List IgnoreRule :=
  match top.readBytes p with
  | .ok content => IgnoreRules.ofBytes content
  | .error _ => []

/-- The filter of a configuration. The ignore file in the root comes first, then the further one,
which must exist. -/
def ofConfig (top : FileTree) (c : ScanConfig) : Except ConfigError IgnoreFilter := do
  let further ← match c.ignoreFile with
    | none => pure []
    | some p => if top.pathExists p then pure (rulesOf top p) else throw (.missingIgnoreFile p)
  let globs ← parseGlobs c.ignore
  return {
    root := c.root
    rules := rulesOf top (c.root.join ".gitignore".toList) ++ further
    globs := globs
    includeHidden := c.includeHidden }

/-- Whether the name at the end of a path starts with a dot. -/
def isHidden (p : Path) : Bool :=
  p.fileName?.any fun name => name.head? == some '.'

/-- Whether a path is left out. -/
def ignores (f : IgnoreFilter) (p : Path) (isDir : Bool) : Bool :=
  (!f.includeHidden && isHidden p) || defaultGlobs.any (·.isMatch true p) ||
    f.globs.any (·.isMatch true p) || IgnoreRules.ignores f.rules f.root p isDir

end IgnoreFilter

/-! ## Walking -/

/-- Something met on a walk. -/
structure WalkEntry where
  path : Path
  isDir : Bool
deriving DecidableEq

namespace FileTree

/-- What is found below a directory, which is at the end of a trail and is called `path`. Links are
followed only if asked for; one that is broken, or leads to a directory that the walk is inside of,
is dropped. -/
def walkBelow (top : FileTree) (follow : Bool) :
    (fuel : Nat) → (path : Path) → (trail : Trail) → (around : List (List Text)) → List WalkEntry
  | 0, _, _, _ => []
  | fuel + 1, path, trail, around =>
    (node top trail).children.flatMap fun (name, child) =>
      let path := path.join name
      let enter (trail : Trail) :=
        ⟨path, true⟩ :: walkBelow top follow fuel path trail (location trail :: around)
      match child with
      | .file _ => [⟨path, false⟩]
      | .dir _ => enter ((name, child) :: trail)
      | .link _ =>
        if follow then
          match top.find path with
          | .error _ => []
          | .ok trail =>
            match node top trail with
            | .dir _ => if around.contains (location trail) then [] else enter trail
            | _ => [⟨path, false⟩]
        else [⟨path, false⟩]

/-- The most directories that can stand inside one another on a walk, links included. -/
def walkDepth (top : FileTree) : Nat :=
  (top.countDirs + 1) * (top.countDirs + 1)

/-- What is found at and below a root. A link to a directory is followed at the root in any case,
but is reported as a link unless links are followed. -/
def walk (top : FileTree) (follow : Bool) (root : Path) : List WalkEntry :=
  let below (trail : Trail) := walkBelow top follow top.walkDepth root trail [location trail]
  match top.linkStat root, top.find root with
  | .ok (.link _), .ok trail =>
    match node top trail with
    | .dir _ => ⟨root, follow⟩ :: below trail
    | _ => [⟨root, false⟩]
  | .ok (.dir _), .ok trail => ⟨root, true⟩ :: below trail
  | .ok (.file _), .ok _ => [⟨root, false⟩]
  | _, _ => []

end FileTree

/-! ## Scanning -/

/-- A configuration with its filter. -/
structure Scanner where
  config : ScanConfig
  filter : IgnoreFilter

namespace Scanner

/-- The scanner of a configuration. -/
def ofConfig (top : FileTree) (config : ScanConfig) : Except ScanError Scanner :=
  match IgnoreFilter.ofConfig top config with
  | .ok filter => .ok { config, filter }
  | .error e => .error (.config e)

/-- A path as seen from the root, if it lies below it. -/
def relative (s : Scanner) (p : Path) : Path :=
  (s.config.root.relativeTo? p).getD p

/-- The report on a text that was read from a path. -/
def scanText (s : Scanner) (p : Path) (kind : SourceKind) (t : Text) : SourceFile :=
  { path := s.relative p
    absolutePath := p
    kind
    entries := Entry.all t
    lineCount := t.lineCount
    parsed := true
    error := none }

/-- The report on a file that could not be read. -/
def unreadable (s : Scanner) (p : Path) (kind : SourceKind) (error : String) : SourceFile :=
  { path := s.relative p
    absolutePath := p
    kind
    entries := []
    lineCount := 0
    parsed := false
    error := some error.toList }

/-- The report on a file that the walk has found. -/
def scanPath (s : Scanner) (top : FileTree) (p : Path) (kind : SourceKind) : SourceFile :=
  match top.stat p with
  | .error e => s.unreadable p kind e.message
  | .ok node =>
    if s.config.maxFileSize < node.size then
      s.unreadable p kind
        ("file exceeds the " ++ Nat.repr s.config.maxFileSize ++ " byte limit")
    else
      match top.readText p with
      | .ok t => s.scanText p kind t
      | .error e => s.unreadable p kind e.message

/-- The files to scan, in the order of their paths. -/
def sourceFiles (s : Scanner) (top : FileTree) : List (Path × SourceKind) :=
  let found := (top.walk s.config.followLinks s.config.root).filter fun e =>
    !e.isDir && !s.filter.ignores e.path false && SourceKind.accepts s.config.kinds e.path
  (found.filterMap fun e => (SourceKind.ofPath? e.path).map (e.path, ·)).mergeSort
    fun a b => a.1.le b.1

/-- The reports on all files of the project. -/
def scan (s : Scanner) (top : FileTree) : List SourceFile :=
  (s.sourceFiles top).map fun (p, kind) => s.scanPath top p kind

/-- The report on one file. -/
def scanFile (s : Scanner) (top : FileTree) (p : Path) : Except ScanError SourceFile :=
  match SourceKind.ofPath? p with
  | none => .error (.unsupportedFile p)
  | some kind =>
    match top.readText p with
    | .ok t => .ok (s.scanText p kind t)
    | .error e => .error (.file e)

end Scanner

end TemplateFolding
