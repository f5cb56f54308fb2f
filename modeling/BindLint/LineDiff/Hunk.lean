import BindLint.LineDiff.Script
import BindLint.Text.Lines

/-!
# Unified diffs

A diff shows the stretches of a script that replace something, with up to three
kept lines around each.  Changes with at most six kept lines between them are
shown together in one hunk.

## Main definitions

* `Hunk` — stretches shown together, and the lines they start at.
* `LineDiff.hunks` — the hunks of a script.
* `unifiedDiff` — the diff of two texts.
-/

namespace BindLint

/-- Stretches of a script that are shown together. -/
structure Hunk where
  /-- The number of old lines before it. -/
  oldStart : Nat
  /-- The number of new lines before it. -/
  newStart : Nat
  /-- Its stretches in order. -/
  body : List Stretch
  deriving DecidableEq, Repr, Inhabited

namespace Hunk

/-- The old lines that are shown. -/
def old (h : Hunk) : List String := h.body.flatMap Stretch.old

/-- The new lines that are shown. -/
def new (h : Hunk) : List String := h.body.flatMap Stretch.new

/-- A hunk with one more stretch. -/
def add (h : Hunk) (s : Stretch) : Hunk := { h with body := h.body ++ [s] }

end Hunk

namespace LineDiff

/-- The number of kept lines that are shown around a change. -/
def context : Nat := 3

/-- The last kept lines, as many as are shown before a change. -/
def lastLines (ls : List String) : List String := ls.drop (ls.length - context)

/-- The first kept lines, as many as are shown after a change. -/
def firstLines (ls : List String) : List String := ls.take context

/-- The hunk that starts with the last of some kept lines, which end at a line of
each side. -/
def openHunk (oldEnd newEnd : Nat) (ls : List String) : Hunk :=
  ⟨oldEnd - (lastLines ls).length, newEnd - (lastLines ls).length, [.kept (lastLines ls)]⟩

/-- An open hunk and those after it, given the stretches that follow and the lines
these start at. -/
def closeHunks (current : Hunk) : Nat → Nat → List Stretch → List Hunk
  | _, _, [] => [current]
  | i, j, .replaced o n :: rest =>
      closeHunks (current.add (.replaced o n)) (i + o.length) (j + n.length) rest
  | i, j, .kept ls :: rest =>
      if rest.isEmpty then [current.add (.kept (firstLines ls))]
      else if ls.length ≤ 2 * context then
        -- too few kept lines to keep the changes on both sides apart
        closeHunks (current.add (.kept ls)) (i + ls.length) (j + ls.length) rest
      else
        current.add (.kept (firstLines ls)) ::
          closeHunks (openHunk (i + ls.length) (j + ls.length) ls) (i + ls.length)
            (j + ls.length) rest

/-- The hunks of a script. -/
def hunks : List Stretch → List Hunk
  | [] => []
  -- nothing is replaced
  | [.kept _] => []
  | .kept ls :: rest => closeHunks (openHunk ls.length ls.length ls) ls.length ls.length rest
  | rest => closeHunks ⟨0, 0, []⟩ 0 0 rest

/-! ### Writing -/

/-- The lines that a hunk covers, given how many are before it: a single line is
named alone, and an empty range by the line before it. -/
def rangeText (start length : Nat) : String :=
  if length = 1 then toString (start + 1)
  else if length = 0 then toString start ++ ",0"
  else toString (start + 1) ++ "," ++ toString length

/-- The lines that show a stretch. -/
def stretchLines : Stretch → List String
  | .kept ls => ls.map fun l => " " ++ l
  | .replaced o n => o.map (fun l => "-" ++ l) ++ n.map fun l => "+" ++ l

/-- The line that names the ranges of a hunk. -/
def hunkHeader (h : Hunk) : String :=
  "@@ -" ++ rangeText h.oldStart h.old.length ++ " +" ++ rangeText h.newStart h.new.length ++
    " @@\n"

/-- The lines that show a hunk. -/
def hunkLines (h : Hunk) : List String := hunkHeader h :: h.body.flatMap stretchLines

/-- The lines of a diff of two texts: none if there is no hunk. -/
def diffLines (old new name : String) : List String :=
  match hunks (script (Text.lines old) (Text.lines new)) with
  | [] => []
  | hs => ("--- a/" ++ name ++ "\n") :: ("+++ b/" ++ name ++ "\n") :: hs.flatMap hunkLines

end LineDiff

/-- The unified diff that turns one text into another, under a file name. -/
def unifiedDiff (old new name : String) : String :=
  String.join (LineDiff.diffLines old new name)

end BindLint
