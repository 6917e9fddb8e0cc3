import ProtoRoutes.Run.Pipeline

/-!
# ProtoRoutes.Main

The command line. It takes a picture of the directories that a run can look into, lets the run work
on that picture, and does to the disk what the run did to the picture.
-/

namespace ProtoRoutes

open Files (Tree Location Path)

/-- The location of a path that has been made canonical. -/
def locationOf (path : String) : Location := (Path.ofText path).parts

/-- Adds everything below a directory to a tree. Links are not followed. -/
partial def addBelow (t : Tree) (directory : String) : IO Tree := do
  let mut t := t.put (locationOf directory) .directory
  for entry in ← (← IO.FS.realPath directory).readDir do
    let path := Files.under directory entry.fileName
    if (← IO.FS.realPath path).toString = path then
      if ← entry.path.isDir then t ← addBelow t path
      else t := t.put (locationOf path) (.file (← IO.FS.readBinFile path))
  return t

/-- Adds what a path leads to, and the directories above it, to a tree. -/
def addPath (t : Tree) (path : String) : IO Tree := do
  try
    let canonical := (← IO.FS.realPath path).toString
    let loc := locationOf canonical
    let above := (List.range loc.length).map loc.take
    let t := above.foldl (fun t l => if l.isEmpty then t else t.put l .directory) t
    if ← (← IO.FS.realPath path).isDir then addBelow t canonical
    else return t.put loc (.file (← IO.FS.readBinFile canonical))
  catch _ => return t

/-- The variables that override settings. -/
def readEnvironment : IO Settings.Environment :=
  Setting.all.filterMapM fun s => do
    return (← IO.getEnv s.variableName).map (s.variableName, ·)

/-- The part of the disk that a run can look into. -/
def readTree (env : Settings.Environment) (args : Run.Arguments) : IO Tree := do
  let cwd := locationOf (← IO.currentDir).toString
  let mut t ← addPath (.empty cwd) "."
  for path in args.proto.toList ++ args.out.toList ++ [args.config] do
    unless path.isEmpty do t ← addPath t path
  match Run.settingsOf t env args with
  | .ok settings =>
    for path in settings.parser.includePaths do t ← addPath t path
  | .error _ => pure ()
  return t

/-- Makes the directories and writes the files that a tree has and another has not. -/
def writeDifferences (old new : Tree) : IO Unit := do
  for (loc, e) in Tree.differences old new do
    match e with
    | .directory => IO.FS.createDirAll loc.text
    | .file bytes => IO.FS.writeBinFile loc.text bytes

/-- How the program is called. -/
def usage : String :=
  "usage: protoc-rest --proto PROTO --out OUT [-I INCLUDE] [--config CONFIG] " ++
    "[--no-query-inference] [--allow-custom-methods] [--validate-only] [--verbose]\n"

end ProtoRoutes

open ProtoRoutes in
/-- Does a run and gives its exit code. -/
def main (words : List String) : IO UInt32 := do
  match Run.Arguments.parse words with
  | none =>
    IO.eprint usage
    return 2
  | some args =>
    let env ← readEnvironment
    let tree ← readTree env args
    let outcome := Run.run tree env args
    writeDifferences tree outcome.tree
    IO.print outcome.stdout
    IO.eprint (outcome.stderr args.verbose)
    return (outcome.exitCode?.getD 1).toUInt32
