import BindLint.Files.Path

/-!
# File trees

The files and directories under a working directory, as a value: every operation
on files is a function of it, and writing a file gives a new one.  Links do not
exist, and there are no permissions: every file can be read and written, and every
directory can be searched.  That a file cannot be read therefore always has to do
with its path.

A path is looked up name by name, and every name but the last must lead to a
directory.  `..` leads to the directory above, of which nothing is known at the
top.  A path from a root is looked up if it lies under the working directory.  Names
and paths of too many bytes are refused, and no name holds a null character.

## Main definitions

* `FileTree` — files and directories.
* `FileTree.locate`, `FileTree.read`, `FileTree.write` — looking up paths.
* `FileTree.filesBelow` — the files below a directory.
-/

namespace BindLint

/-- Why a file cannot be read. -/
inductive ReadError where
  /-- There is nothing at the path. -/
  | missing : ReadError
  /-- A name on the way leads to a file. -/
  | notDirectory : ReadError
  /-- There is a directory at the path. -/
  | isDirectory : ReadError
  /-- The path, or a name in it, is too long. -/
  | nameTooLong : ReadError
  deriving DecidableEq, Repr, Inhabited

/-- The number and the wording of an error. -/
def ReadError.message : ReadError → String
  | .missing => "[Errno 2] No such file or directory"
  | .notDirectory => "[Errno 20] Not a directory"
  | .isDirectory => "[Errno 21] Is a directory"
  | .nameTooLong => "[Errno 36] File name too long"

/-- A list of names below the working directory. -/
abbrev Location := List String

/-- The files and directories under a working directory.  None of them is a link, and all of
them may be read, written and searched. -/
structure FileTree where
  /-- The path of the working directory. -/
  base : Path
  /-- The files with their bytes. -/
  files : List (Location × List UInt8)
  /-- Directories besides those that the files lie in. -/
  directories : List Location
  deriving Repr, Inhabited

namespace FileTree

/-- The bytes of the file at a location. -/
def bytesAt? (t : FileTree) (loc : Location) : Option (List UInt8) :=
  (t.files.find? fun f => f.1 = loc).map Prod.snd

/-- Whether there is a file at a location. -/
def hasFile (t : FileTree) (loc : Location) : Bool := (t.bytesAt? loc).isSome

/-- Whether a location lies strictly below another. -/
def below (top loc : Location) : Bool :=
  top.isPrefixOf loc && decide (top.length < loc.length)

/-- Whether there is a directory at a location: the working directory, one that was
made, or one that something lies in. -/
def hasDirectory (t : FileTree) (loc : Location) : Bool :=
  loc.isEmpty || t.directories.any (fun d => loc = d || below loc d) ||
    t.files.any fun f => below loc f.1

/-- The greatest number of bytes of a name. -/
def nameLimit : Nat := 255

/-- The greatest number of bytes of a path. -/
def pathLimit : Nat := 4095

/-- One step of looking up a path: a name in the directory at a location. -/
def step (t : FileTree) (loc : Location) (name : String) : Except ReadError Location :=
  -- whatever the name is, it is looked for in a directory
  if t.hasFile loc then .error .notDirectory
  else if !t.hasDirectory loc then .error .missing
  else if name = ".." then (if loc.isEmpty then .error .missing else .ok loc.dropLast)
  else if nameLimit < name.utf8ByteSize then .error .nameTooLong
  else .ok (loc ++ [name])

/-- The names of a path from the working directory on, if it lies below it. -/
def relative? (t : FileTree) (p : Path) : Option (List String) :=
  if p.slashes = 0 then some p.parts
  else if t.base.slashes = p.slashes && t.base.parts.isPrefixOf p.parts then
    some (p.parts.drop t.base.parts.length)
  else none

/-- The location that a path leads to, whether or not there is something at it. -/
def locate (t : FileTree) (p : Path) : Except ReadError Location :=
  if p.hasNull then .error .missing
  else if pathLimit < p.text.utf8ByteSize then .error .nameTooLong
  else
    match t.relative? p with
    | some names => names.foldlM t.step []
    | none => .error .missing

/-- Whether a path leads to a file. -/
def isFile (t : FileTree) (p : Path) : Bool :=
  match t.locate p with
  | .ok l => t.hasFile l
  | .error _ => false

/-- Whether a path leads to a directory. -/
def isDirectory (t : FileTree) (p : Path) : Bool :=
  match t.locate p with
  | .ok l => !t.hasFile l && t.hasDirectory l
  | .error _ => false

/-- The bytes of the file that a path leads to. -/
def read (t : FileTree) (p : Path) : Except ReadError (List UInt8) :=
  match t.locate p with
  | .error e => .error e
  | .ok l =>
      match t.bytesAt? l with
      | some bytes => .ok bytes
      | none => .error (if t.hasDirectory l then .isDirectory else .missing)

/-- The file at a location set to some bytes. -/
def put (t : FileTree) (loc : Location) (bytes : List UInt8) : FileTree :=
  { t with
    files :=
      if t.hasFile loc then t.files.map fun f => if f.1 = loc then (loc, bytes) else f
      else t.files ++ [(loc, bytes)] }

/-- The file that a path leads to set to some bytes. -/
def write (t : FileTree) (p : Path) (bytes : List UInt8) : FileTree :=
  match t.locate p with
  | .ok l => t.put l bytes
  | .error _ => t

/-- The files below the directory at a location: their names from there on, and
their bytes. -/
def filesBelow (t : FileTree) (top : Location) : List (List String × List UInt8) :=
  (t.files.filter fun f => below top f.1).map fun f => (f.1.drop top.length, f.2)

end FileTree
end BindLint
