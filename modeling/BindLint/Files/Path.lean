/-!
# Paths

A path is a list of names, from the working directory unless it starts at a
root.  Empty names and `.` are dropped when a path is read; `..` stays, because
only the file system can say where it leads.

## Main definitions

* `Path.ofString`, `Path.text` — reading and writing paths.
* `Path.name`, `Path.suffix` — the last name, and its ending.
* `Path.le` — the order of paths: name by name, by code point.
-/

namespace BindLint

/-- A path of names. -/
structure Path where
  /-- The slashes it starts with: none, one or two. -/
  slashes : Nat
  /-- The names in order. -/
  parts : List String
  deriving DecidableEq, Repr, Inhabited

namespace Path

/-- Cuts a text at every slash. -/
def splitSlashes : List Char → List (List Char)
  | [] => [[]]
  | c :: cs =>
      match splitSlashes cs with
      | [] => [[c]]
      | w :: ws => if c = '/' then [] :: w :: ws else (c :: w) :: ws

/-- The slashes that a path starts with; more than two count as one. -/
def leadingSlashes (cs : List Char) : Nat :=
  let n := (cs.takeWhile (· = '/')).length
  if n ≤ 2 then n else 1

/-- The path that a text spells. -/
def ofString (s : String) : Path where
  slashes := leadingSlashes s.toList
  parts := ((splitSlashes s.toList).map String.ofList).filter fun w => w ≠ "" && w ≠ "."

/-- The text of a path. -/
def text (p : Path) : String :=
  if p.slashes = 0 && p.parts.isEmpty then "."
  else "".pushn '/' p.slashes ++ String.intercalate "/" p.parts

/-- The path of a name below a path. -/
def child (p : Path) (name : String) : Path := { p with parts := p.parts ++ [name] }

/-- The path of several names below a path. -/
def join (p : Path) (names : List String) : Path := { p with parts := p.parts ++ names }

/-- The last name, empty if there is none. -/
def name (p : Path) : String := p.parts.getLast?.getD ""

/-- The ending of a name from its last dot on.  A dot that is the first or the last
character of the name starts no ending. -/
def suffixOf (name : String) : String :=
  let cs := name.toList
  -- what stands after the last dot, or the whole name if there is none
  let ending := (cs.reverse.takeWhile (· ≠ '.')).reverse
  if !ending.isEmpty && decide (ending.length + 1 < cs.length) then
    String.ofList ('.' :: ending)
  else ""

/-- The ending of the last name. -/
def suffix (p : Path) : String := suffixOf p.name

/-- Whether a name of the path holds a null character. -/
def hasNull (p : Path) : Bool := p.parts.any fun w => w.toList.contains '\x00'

/-- What paths are compared by: the root, if there is one, and then the names. -/
def components (p : Path) : List String :=
  if p.slashes = 0 then p.parts else "".pushn '/' p.slashes :: p.parts

/-- Whether a path stands before another or is the same.  Names hold no slashes, so
the number of slashes decides only between paths that no text spells. -/
def le (p q : Path) : Bool :=
  decide (p.components < q.components) ||
    (decide (p.components = q.components) && decide (p.slashes ≤ q.slashes))

/-- Paths in order, each once. -/
def sort (ps : List Path) : List Path := (ps.mergeSort le).eraseDups

end Path
end BindLint
