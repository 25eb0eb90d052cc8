import Std.Time.DateTime.Timestamp
import TemplateFolding.CommandLine.Outcome
import TemplateFolding.Report.Timestamp

/-!
# The program

Loads the tree below the working directory, runs the command on it, and writes what the command has
left behind.
-/

namespace TemplateFolding

/-- The target of a link, as seen from a directory `depth` levels below the working directory
`here`, if it lies below that. -/
def linkTarget? (here target : Text) (depth : Nat) : Option Path :=
  (Text.expect? (here ++ ['/']) target).map fun below =>
    (List.replicate depth "../".toList).flatten ++ below

mutual

/-- Loads what is found at an entry of a directory. A link that leads out of the working directory
is read as the file it leads to. -/
partial def loadNode (here : Text) (depth : Nat) (entry : IO.FS.DirEntry) : IO FileTree := do
  match (← entry.path.symlinkMetadata).type with
  | .dir => return .dir (← loadChildren here (depth + 1) (← entry.path.readDir))
  | .symlink =>
    let target := (← IO.FS.realPath entry.path).toString.toList
    match linkTarget? here target depth with
    | some path => return .link path
    | none => return .file (← IO.FS.readBinFile entry.path)
  | _ => return .file (← IO.FS.readBinFile entry.path)

/-- Loads the entries of a directory. Those that cannot be read are left out. -/
partial def loadChildren (here : Text) (depth : Nat) (entries : Array IO.FS.DirEntry) :
    IO (List (Text × FileTree)) := do
  let mut children := []
  for entry in entries do
    try
      children := (entry.fileName.toList, ← loadNode here depth entry) :: children
    catch _ => pure ()
  return children.reverse

end

/-- What is known of a scan that has taken some milliseconds and ended at a time. -/
def scanMetadata (durationMs seconds files : Nat) : Metadata :=
  let speed := if durationMs = 0 then 0 else files.toFloat / (durationMs.toFloat / 1000)
  ⟨durationMs, .ofFloat speed, timestamp seconds, toolVersion⟩

end TemplateFolding

open TemplateFolding in
/-- Runs the program. -/
def main (arguments : List String) : IO UInt32 := do
  let start ← IO.monoMsNow
  let directory ← IO.currentDir
  let children ← loadChildren directory.toString.toList 0 (← directory.readDir)
  let duration := (← IO.monoMsNow) - start
  let seconds := (← Std.Time.Timestamp.now).toSecondsSinceUnixEpoch.toInt.toNat
  let outcome := CommandLine.runProgram (arguments.map String.toList) (.dir children)
    (scanMetadata duration seconds)
  if let some path := outcome.written then
    if let .ok content := outcome.files.readBytes path then
      IO.FS.writeBinFile (String.ofList path) content
  (← IO.getStdout).putStr (String.ofList outcome.output)
  (← IO.getStderr).putStr (String.ofList outcome.errors)
  return outcome.code.toUInt32
