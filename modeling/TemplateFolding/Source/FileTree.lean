import TemplateFolding.Source.Path

/-!
# File trees

A tree of directories, files and symbolic links, as seen from the directory at its top. Paths are
resolved part by part; a link is replaced by its target, and at most `maxLinks` links are followed
on the way. Nothing above the top is known, so a path that leads there is not found.
-/

namespace TemplateFolding

/-- A node of a file tree. -/
inductive FileTree where
  | file (content : ByteArray)
  | link (target : Path)
  | dir (children : List (Text × FileTree))

/-- Why a file operation fails. -/
inductive FileError where
  | notFound
  | notDirectory
  | isDirectory
  | tooManyLinks
  | notText
deriving DecidableEq

/-- The failure in words. -/
def FileError.message : FileError → String
  | .notFound => "No such file or directory (os error 2)"
  | .notDirectory => "Not a directory (os error 20)"
  | .isDirectory => "Is a directory (os error 21)"
  | .tooManyLinks => "Too many levels of symbolic links (os error 40)"
  | .notText => "stream did not contain valid UTF-8"

namespace FileTree

/-- The tree with nothing in it. -/
def empty : FileTree := .dir []

/-- The size that a directory is taken to have. -/
def directorySize : Nat := 4096

/-- The most links that are followed on the way to a file. -/
def maxLinks : Nat := 40

/-- The size of a node in bytes. -/
def size : FileTree → Nat
  | .file content => content.size
  | .link target => target.byteLength
  | .dir _ => directorySize

/-- The child with a name. -/
def child? (name : Text) : List (Text × FileTree) → Option FileTree
  | [] => none
  | (n, node) :: rest => if n = name then some node else child? name rest

/-- The children with one more, which takes the place of a child with the same name. -/
def withChild (name : Text) (node : FileTree) : List (Text × FileTree) → List (Text × FileTree)
  | [] => [(name, node)]
  | (n, old) :: rest => if n = name then (n, node) :: rest else (n, old) :: withChild name node rest

/-- The children of a directory. -/
def children : FileTree → List (Text × FileTree)
  | .dir children => children
  | _ => []

/-- The tree with a node put below it, directories being made on the way. A directory that exists
already is kept. -/
def insert (node : FileTree) : (names : List Text) → FileTree → FileTree
  | [], old =>
    match node, old with
    | .dir [], .dir children => .dir children
    | _, _ => node
  | name :: names, old =>
    .dir (withChild name (insert node names ((child? name old.children).getD empty)) old.children)

mutual

/-- The number of directories in a tree. -/
def countDirs : FileTree → Nat
  | .dir children => countDirsOf children + 1
  | _ => 0

/-- The number of directories in the trees below some names. -/
def countDirsOf : List (Text × FileTree) → Nat
  | [] => 0
  | (_, node) :: rest => countDirs node + countDirsOf rest

end

/-! ## Resolving paths -/

/-- The way to a node: its name and those of the directories around it, each with the node, from the
innermost out. The top itself is not on it. -/
abbrev Trail := List (Text × FileTree)

/-- The node at the end of a trail. -/
def node (top : FileTree) : Trail → FileTree
  | [] => top
  | (_, node) :: _ => node

/-- Where a trail leads, as names from the innermost out. -/
def location (trail : Trail) : List Text :=
  trail.map (·.1)

/-- Follows the parts of a path from the end of a trail. -/
def resolve (top : FileTree) (links : Nat) (trail : Trail) (parts : List Text) :
    Except FileError Trail :=
  match parts with
  | [] => .ok trail
  | part :: rest =>
    match node top trail with
    | .dir children =>
      if part = [] ∨ part = ['.'] then resolve top links trail rest
      else if part = ['.', '.'] then
        match trail with
        | [] => .error .notFound
        | _ :: up => resolve top links up rest
      else
        match child? part children with
        | none => .error .notFound
        | some (.link target) =>
          match links with
          | 0 => .error .tooManyLinks
          | links + 1 =>
            if target.isAbsolute then .error .notFound
            else resolve top links trail (target.parts ++ rest)
        | some child => resolve top links ((part, child) :: trail) rest
    | _ => .error .notDirectory
termination_by (links, parts.length)

/-- The way to the node that a path names, links followed. -/
def find (top : FileTree) (p : Path) : Except FileError Trail :=
  if p = [] ∨ p.isAbsolute then .error .notFound else resolve top maxLinks [] p.parts

/-- The node that a path names, links followed. -/
def stat (top : FileTree) (p : Path) : Except FileError FileTree :=
  (top.find p).map (node top)

/-- The node that a path names, where a link at its end is not followed. -/
def linkStat (top : FileTree) (p : Path) : Except FileError FileTree :=
  match p.parts.getLast? with
  | some name =>
    if p.isAbsolute ∨ name = [] ∨ name = ['.'] ∨ name = ['.', '.'] then top.stat p
    else do
      let trail ← resolve top maxLinks [] p.parts.dropLast
      match node top trail with
      | .dir children =>
        match child? name children with
        | some child => .ok child
        | none => .error .notFound
      | _ => .error .notDirectory
  | none => top.stat p

/-- Whether a path names something. -/
def pathExists (top : FileTree) (p : Path) : Bool :=
  match top.stat p with
  | .ok _ => true
  | .error _ => false

/-- The bytes of a file. -/
def readBytes (top : FileTree) (p : Path) : Except FileError ByteArray := do
  match ← top.stat p with
  | .file content => .ok content
  | _ => .error .isDirectory

/-- The text of a file. -/
def readText (top : FileTree) (p : Path) : Except FileError Text := do
  match String.fromUTF8? (← top.readBytes p) with
  | some s => .ok s.toList
  | none => .error .notText

/-- The way to the place that a path names, which need not exist in a directory that does. A link at
the end of the path is followed. -/
def place (top : FileTree) (links : Nat) (trail : Trail) (parts : List Text) :
    Except FileError (List Text) :=
  match parts.getLast? with
  | none => .error .isDirectory
  | some name =>
    if name = [] ∨ name = ['.'] ∨ name = ['.', '.'] then .error .isDirectory
    else do
      let trail ← resolve top links trail parts.dropLast
      match node top trail with
      | .dir children =>
        match child? name children with
        | some (.dir _) => .error .isDirectory
        | some (.link target) =>
          match links with
          | 0 => .error .tooManyLinks
          | links + 1 =>
            if target.isAbsolute then .error .notFound else place top links trail target.parts
        | _ => .ok ((location trail).reverse ++ [name])
      | _ => .error .notDirectory

/-- The tree with the content of a file replaced, or a file made in a directory that exists. -/
def write (top : FileTree) (p : Path) (content : ByteArray) : Except FileError FileTree :=
  if p = [] ∨ p.isAbsolute then .error .notFound
  else (place top maxLinks [] p.parts).map fun names => insert (.file content) names top

end FileTree

end TemplateFolding
