import BindLint.Command.Run
import BindLint.Log.Console
import BindLint.Supply
import BindLint.Syntax.Encoding

/-!
# The program

Reads the environment and the files a command is about, runs the command, and
writes what it gives.  The trees of a source `x` are read from `x.trees.json`, a
list of trees in the order in which the texts of the file come up.
-/

namespace BindLint
namespace Main

/-- The bytes of a file, if it can be read. -/
def bytes? (file : String) : IO (Option (List UInt8)) := do
  try
    let content ← IO.FS.readBinFile file
    return some content.toList
  catch _ => return none

/-- The files at or below a path, directories that are never looked at left out. -/
partial def load (path : Path) : IO (List (Location × List UInt8)) := do
  let here ← IO.currentDir
  let place := here / path.text
  if ← place.isDir then
    if skippedDirectories.contains path.name then return []
    let entries ← place.readDir
    let found ← entries.toList.mapM fun e => load (path.child e.fileName)
    return found.flatten
  else
    match ← bytes? path.text with
    | some content => return [(path.normalized.parts, content)]
    | none => return []

/-- The trees that were supplied for some files. -/
def supply (files : List (Location × List UInt8)) : IO Supply := do
  let mut trees : List (Path × List Node) := []
  for f in files do
    let path : Path := ⟨0, f.1⟩
    if path.isScannable then
      if let some content ← bytes? (path.text ++ ".trees.json") then
        if let .ok text := Utf8.decode content then
          if let some found := (Json.parse text).toOption.bind Node.childrenOf? then
            trees := (path, found) :: trees
  return ⟨trees⟩

/-- The variables of the environment that are settings, and those to which the file of
variables refers. -/
def settingVariables (tree : FileTree) : IO Variables := do
  let mut found : Variables := []
  let referred := match tree.variableText with
    | .ok text => VariableFile.referredNames text
    | .error _ => []
  for name in ["PREFER_BIND_DEBUG", "PREFER_BIND_MAX_FILE_SIZE"] ++ referred do
    if let some value ← IO.getEnv name then
      found := found ++ [(name, value)]
  return found

/-- The paths that a command looks at. -/
def pathsOf : Command → List Path
  | .check args => args.paths ++ args.config.toList ++ [variableFile, ⟨0, [projectFile]⟩]
  | _ => []

/-- A line of the error output. -/
def errorText : ErrorLine → String
  | .log (.console e) => e.consoleText
  | .log (.object v) => Json.compact v
  | .text s => s

/-- Why the program ended without an answer, in words. -/
def crashText : Crash → String
  | .settings (.invalid es) =>
      String.intercalate "; " (es.map fun e => e.key ++ ": " ++ e.message)
  | .settings (.undecodable fault) => fault.message
  | .optionFile e => e.message
  | .options _ => "The options are refused for a name that cannot be written"
  | .scan e => e.message

/-- Writes the files that a run changed. -/
def store (before after : FileTree) : IO Unit := do
  for f in after.files do
    if before.bytesAt? f.1 ≠ some f.2 then
      IO.FS.writeBinFile (Path.text ⟨0, f.1⟩) f.2.toByteArray

/-- Runs a command. -/
def execute (command : Command) : IO UInt32 := do
  let base := Path.ofString (← IO.currentDir).toString
  let files ← (pathsOf command).mapM load
  let tree : FileTree := ⟨base, files.flatten.eraseDups, []⟩
  let supplied ← supply tree.files
  let environment ← settingVariables tree
  let run (parse : Parser) : Except Crash Outcome := command.run ⟨environment, tree, parse⟩
  let parsed (r : Except Crash Outcome) : Parsed :=
    match r with
    | .ok o => o.parsed
    | .error _ => []
  match (supplied.settle run parsed []).1 with
  | .error crash =>
      IO.eprintln (crashText crash)
      return 1
  | .ok o =>
      for line in o.errors do
        IO.eprintln (errorText line)
      store tree o.tree
      IO.print o.output
      return o.exit.toUInt32

end Main
end BindLint

/-- The program. -/
def main (args : List String) : IO UInt32 := do
  match BindLint.Command.parse args with
  | none =>
      IO.eprint BindLint.usage
      return BindLint.exitConfigError.toUInt32
  | some command => BindLint.Main.execute command
