import BindLint.Files.Tree
import BindLint.Lint

/-!
# Collecting files

The files to lint are those named outright, whatever their size and place, and
those below a named directory.  Below a directory, files in directories that hold
what others wrote or what was built are left out, and so are files that are too
large.

As everything in a file tree can be read and searched, a path that cannot be looked up
is too long.  It ends the collection, while one that leads nowhere is only logged.

## Main definitions

* `skippedDirectories` — the directories that are left out.
* `collect` — the files to lint, in order and each once, and what is logged.
-/

namespace BindLint

/-- The names of directories that are left out. -/
def skippedDirectories : List String :=
  [".git", ".next", ".nyc_output", ".venv", "__pycache__", "build", "coverage", "dist",
    "node_modules"]

/-- The part of the program that speaks about scanning. -/
def scanLogger : String := "prefer_bind.scanner.orchestrator"

/-- Files with what is logged about them. -/
structure Collected where
  /-- The files. -/
  files : List Path
  /-- What is logged. -/
  records : List Log.Record
  deriving DecidableEq, Repr, Inhabited

/-- What is collected in two steps. -/
def Collected.append (a b : Collected) : Collected := ⟨a.files ++ b.files, a.records ++ b.records⟩

/-- Whether a file below a directory is looked at, by its names from there on. -/
def isWalked (names : List String) (file : Path) : Bool :=
  !(names.any fun n => skippedDirectories.contains n) && file.isScannable

/-- What is collected of a file below a directory. -/
def collectBelow (limit : Int) (root : Path) (names : List String) (bytes : List UInt8) :
    Collected :=
  let file := root.join names
  if !isWalked names file then ⟨[], []⟩
  else if limit < (bytes.length : Int) then
    ⟨[], [⟨.debug, scanLogger, "Skipping large file: " ++ file.text⟩]⟩
  else ⟨[file], []⟩

/-- What is collected of the files below a directory. -/
def collectAll (limit : Int) (root : Path) : List (List String × List UInt8) → Collected
  | [] => ⟨[], []⟩
  | f :: fs => (collectBelow limit root f.1 f.2).append (collectAll limit root fs)

/-- What is collected of a path that leads nowhere. -/
def collectMissing (root : Path) : Collected :=
  ⟨[], [⟨.warning, scanLogger, "Path does not exist: " ++ root.text⟩]⟩

/-- What is collected of a file that is named outright. -/
def collectFile (root : Path) : Collected :=
  if root.isScannable then ⟨[root], []⟩
  else ⟨[], [⟨.debug, scanLogger, "Skipping unsupported file: " ++ root.text⟩]⟩

/-- Whether a path has too many bytes to be looked up. -/
def Path.isTooLong (p : Path) : Bool := decide (FileTree.pathLimit < p.text.utf8ByteSize)

/-- The directories below the one at a location: their names from there on. -/
def FileTree.directoriesBelow (t : FileTree) (top : Location) : List (List String) :=
  let deepest := t.directories ++ t.files.map fun f => f.1.dropLast
  let all := deepest.flatMap fun d => (List.range (d.length + 1)).map d.take
  (all.filter (below top)).map fun d => d.drop top.length

/-- Whether everything that is looked up below a directory can be: every directory, whatever
its name, and every file that is looked at. -/
def FileTree.canWalk (t : FileTree) (root : Path) (top : Location) : Bool :=
  ((t.directoriesBelow top).all fun names => !(root.join names).isTooLong) &&
    ((t.filesBelow top).map Prod.fst).all fun names =>
      !isWalked names (root.join names) || !(root.join names).isTooLong

/-- What is collected of one path.  As there are no permissions that could be missing, only
a path that is too long cannot be looked up, be it this one or one below it. -/
def collectPath (t : FileTree) (limit : Int) (root : Path) : Except ReadError Collected :=
  match t.locate root with
  | .error .nameTooLong => .error .nameTooLong
  | .error _ => .ok (collectMissing root)
  | .ok top =>
      if t.hasFile top then .ok (collectFile root)
      else if t.hasDirectory top then
        if t.canWalk root top then .ok (collectAll limit root (t.filesBelow top))
        else .error .nameTooLong
      else .ok (collectMissing root)

/-- What is collected of several paths, in the order found. -/
def collectPaths (t : FileTree) (limit : Int) : List Path → Except ReadError Collected
  | [] => .ok ⟨[], []⟩
  | p :: ps => do
      let first ← collectPath t limit p
      let rest ← collectPaths t limit ps
      .ok (first.append rest)

/-- The files to lint among some paths, in order and each once. -/
def collect (t : FileTree) (limit : Int) (paths : List Path) : Except ReadError Collected :=
  (collectPaths t limit paths).map fun found => { found with files := Path.sort found.files }

end BindLint
