import TemplateFolding.Glob.Match
import TemplateFolding.Source.Path

/-!
# Ignore files

An ignore file holds one rule on each line. A rule is a glob in which `*` and `?` do not match a
slash; without a slash of its own, a final one aside, it matches at any depth, otherwise from the
root on. A final slash restricts it to directories, and `!` in front makes it an exception. A bracket
that is not closed stands for itself. The last rule that matches decides.
-/

namespace TemplateFolding

open Text

/-- A rule of an ignore file. -/
structure IgnoreRule where
  glob : Glob
  /-- A path that the rule matches is not ignored. -/
  exception : Bool
  directoriesOnly : Bool

namespace IgnoreRule

/-- Whether one text ends in another. -/
def endsWith (t ending : Text) : Bool :=
  ending.isSuffixOf t

/-- Removes the marks at the front of a rule: an exclamation mark and a slash. A backslash takes the
mark after it literally. The result says whether the rule is an exception and whether it starts at
the root. -/
def splitMarks (line : Text) : Bool × Bool × Text :=
  match line with
  | '\\' :: '!' :: rest => (false, false, '!' :: rest)
  | '\\' :: '#' :: rest => (false, false, '#' :: rest)
  | _ =>
    let (exception, line) := match line with
      | '!' :: rest => (true, rest)
      | _ => (false, line)
    match line with
    | '/' :: rest => (exception, true, rest)
    | _ => (exception, false, line)

/-- Removes a final slash, and the backslash before it, if there is one. The result says whether
there was a slash. -/
def splitSlash (line : Text) : Bool × Text :=
  if endsWith line ['/'] then
    let line := line.dropLast
    (true, if endsWith line ['\\'] then line.dropLast else line)
  else (false, line)

/-- The glob of a rule: one without a slash matches at any depth, and one that ends in `/**` matches
what is inside a directory but not the directory. -/
def globText (rooted : Bool) (line : Text) : Text :=
  let anywhere := !rooted && !line.contains '/' && line != "**".toList
  let glob := if anywhere then "**/".toList ++ line else line
  if endsWith glob "/**".toList then glob ++ "/*".toList else glob

/-- The rule on a line. Comments and empty lines hold none, and neither does a line whose glob cannot
be read. Blanks at the end do not count unless a backslash stands before them. -/
def parse? (line : Text) : Option IgnoreRule :=
  if line.head? = some '#' then none
  else
    let line := if endsWith line "\\ ".toList then line else trimEnd line
    if line.isEmpty then none
    else
      let (exception, rooted, line) := splitMarks line
      let (directoriesOnly, line) := splitSlash line
      match Glob.parseOpen (globText rooted line) with
      | .ok glob => some { glob, exception, directoriesOnly }
      | .error _ => none

/-- Whether the rule speaks of a path. -/
def applies (r : IgnoreRule) (path : Path) (isDir : Bool) : Bool :=
  (!r.directoriesOnly || isDir) && r.glob.isMatch false path

end IgnoreRule

namespace IgnoreRules

/-- The lines of a file as bytes, without their line endings. A final line feed starts no line. -/
def byteLines : List UInt8 → List (List UInt8)
  | [] => []
  | [b] => if b = 0x0A then [[]] else [[b]]
  | b :: c :: rest =>
    if b = 0x0A then [] :: byteLines (c :: rest)
    else if b = 0x0D ∧ c = 0x0A then [] :: byteLines rest
    else
      match byteLines (c :: rest) with
      | [] => [[b]]
      | line :: lines => (b :: line) :: lines

/-- The texts of lines up to the first that is not text. -/
def decode : List (List UInt8) → List Text
  | [] => []
  | line :: rest =>
    match String.fromUTF8? ⟨line.toArray⟩ with
    | some s => s.toList :: decode rest
    | none => []

/-- The lines without byte order marks at the start of the first. -/
def dropMarks : List Text → List Text
  | [] => []
  | line :: rest => line.dropWhile (· == '\uFEFF') :: rest

/-- The rules of a file. -/
def ofBytes (content : ByteArray) : List IgnoreRule :=
  (dropMarks (decode (byteLines content.toList))).filterMap IgnoreRule.parse?

/-- The text without a beginning that it has. -/
def without (beginning t : Text) : Text :=
  (expect? beginning t).getD t

/-- A path as seen from the root of the rules. A `./` in front goes first. A path that is a name
only, or whose root is the current directory, is left as it is. -/
def relative (root path : Path) : Path :=
  let root := without "./".toList root
  let path := without "./".toList path
  if Path.components root = [.current] ∨ !path.contains '/' then path
  else
    match expect? root path with
    | some rest => without ['/'] rest
    | none => path

/-- Whether rules ignore a path: the last one that speaks of it decides. -/
def ignores (rules : List IgnoreRule) (root path : Path) (isDir : Bool) : Bool :=
  match rules.reverse.find? (·.applies (relative root path) isDir) with
  | some rule => !rule.exception
  | none => false

end IgnoreRules

end TemplateFolding
