import BindLint.LineDiff.Hunk
import Mathlib.Data.List.Basic

/-!
# Replaying a diff

A unified diff is read without knowing how it was made.  Two lines name the file; each hunk starts
with a line that states a range of old lines and a range of new lines, and goes on with lines
under a mark: a blank for a line on both sides, `-` for an old line, `+` for a new one.  Ranges
count lines from one; a range of one line is stated without its length, and an empty range by
the line before it.

The hunks of a script and the lines between them tile both sides, and between the hunks both
sides are the same (`Tiling`).  Everything that a reader of the diff may rely on follows from
this: the ranges that are stated hold the lines that are shown, they are in order and do not
overlap, and to replace each of them turns the old lines into the new ones.

## Main definitions

* `LineDiff.readDiff?` — the hunks that a diff shows, as a reader finds them.
* `LineDiff.outside`, `LineDiff.replay` — the lines outside some ranges, and ranges replaced.
* `LineDiff.Faithful` — shown hunks say what is the case on both sides.
* `LineDiff.Tiling`, `LineDiff.SideTiling` — hunks and the lines between them tile both sides, and
  one side.

## Main results

* `LineDiff.readDiff?_diffLines` — the reader finds the hunks that were written.
* `LineDiff.tiling_hunks` — the hunks of a script tile both sides.
* `LineDiff.faithful_of_tiling`, `LineDiff.replay_of_tiling` — what follows from that.
* `LineDiff.diff_replays` — **a diff is faithful, and replaying it gives the new text.**
-/

namespace BindLint
namespace LineDiff

/-! ### Reading -/

/-- A range of lines: how many are before it, and how many up to its end. -/
structure LineRange where
  start : Nat
  stop : Nat
  deriving DecidableEq, Repr

/-- The lines in a range. -/
def LineRange.slice (r : LineRange) (ls : List String) : List String :=
  (ls.drop r.start).take (r.stop - r.start)

/-- A hunk as a diff shows it: the ranges that it states, and its lines with their marks. -/
structure Shown where
  old : LineRange
  new : LineRange
  body : List String
  deriving DecidableEq, Repr

/-- The number that digits state. -/
def readNumber? (cs : List Char) : Option Nat :=
  if cs ≠ [] ∧ cs.all Char.isDigit then some (Nat.ofDigitChars 10 cs 0) else none

/-- The range that is stated by a number and a length. -/
def statedRange? : Nat → Nat → Option LineRange
  -- an empty range stands behind the line that is named
  | k, 0 => some ⟨k, k⟩
  | 0, _ + 1 => none
  | k + 1, length + 1 => some ⟨k, k + (length + 1)⟩

/-- The range that is stated by the number of its one line, or by a number and a length. -/
def readRange? (cs : List Char) : Option LineRange :=
  match cs.splitOn ',' with
  | [a] => do statedRange? (← readNumber? a) 1
  | [a, n] => do statedRange? (← readNumber? a) (← readNumber? n)
  | _ => none

/-- The two ranges that the first line of a hunk states. -/
def readHeader? (line : String) : Option (LineRange × LineRange) :=
  match line.toList.splitOn ' ' with
  | [['@', '@'], '-' :: old, '+' :: new, ['@', '@', '\n']] => do
      return (← readRange? old, ← readRange? new)
  | _ => none

/-- The line under one of some marks. -/
def unmark? (marks : List Char) (piece : String) : Option String :=
  match piece.toList with
  | [] => none
  | mark :: cs => if mark ∈ marks then some (String.ofList cs) else none

/-- Lines under a mark that no hunk has claimed yet, and the hunks behind them. -/
def readPieces? : List String → Option (List String × List Shown)
  | [] => some ([], [])
  | piece :: pieces => do
      let (body, hs) ← readPieces? pieces
      if (unmark? [' ', '-', '+'] piece).isSome then return (piece :: body, hs)
      else
        let (old, new) ← readHeader? piece
        return ([], ⟨old, new, body⟩ :: hs)

/-- The hunks that a diff of a file shows.  An empty diff shows none, and any other names the file
and shows at least one. -/
def readDiff? (name : String) : List String → Option (List Shown)
  | [] => some []
  | before :: after :: pieces =>
      if before = "--- a/" ++ name ++ "\n" ∧ after = "+++ b/" ++ name ++ "\n" then
        match readPieces? pieces with
        | some ([], h :: hs) => some (h :: hs)
        | _ => none
      else none
  | _ => none

namespace Shown

/-- The lines under a blank or `-`. -/
def oldLines (h : Shown) : List String := h.body.filterMap (unmark? [' ', '-'])

/-- The lines under a blank or `+`. -/
def newLines (h : Shown) : List String := h.body.filterMap (unmark? [' ', '+'])

end Shown

/-- Of lines with some number of lines before them, those outside all of some ranges. -/
def outside (before : Nat) (rs : List LineRange) (ls : List String) : List String :=
  ((ls.zipIdx before).filter fun x => ∀ r ∈ rs, ¬(r.start ≤ x.2 ∧ x.2 < r.stop)).map Prod.fst

/-- Lines with the range of each hunk replaced by its new lines, from the last hunk to the first. -/
def replay (hs : List Shown) (ls : List String) : List String :=
  hs.foldr (fun h ls => ls.take h.old.start ++ h.newLines ++ ls.drop h.old.stop) ls

/-- Shown hunks say what is the case on both sides. -/
structure Faithful (hs : List Shown) (old new : List String) : Prop where
  /-- They are in order and do not overlap. -/
  ascending : hs.Pairwise fun a b => a.old.stop ≤ b.old.start ∧ a.new.stop ≤ b.new.start
  /-- Their ranges lie within the sides. -/
  within : ∀ h ∈ hs, (h.old.start ≤ h.old.stop ∧ h.old.stop ≤ old.length) ∧
    h.new.start ≤ h.new.stop ∧ h.new.stop ≤ new.length
  /-- The lines under a blank or `-` are those of the old range. -/
  oldLines : ∀ h ∈ hs, h.oldLines = h.old.slice old
  /-- The lines under a blank or `+` are those of the new range. -/
  newLines : ∀ h ∈ hs, h.newLines = h.new.slice new
  /-- The lines outside all ranges are the same, in the same order. -/
  outside : outside 0 (hs.map Shown.old) old = outside 0 (hs.map Shown.new) new

/-! ### The reader and the writer -/

/-- The range of a hunk on a side, given where the hunk starts there and what it shows of it. -/
def sideRange (start : Hunk → Nat) (shown : Hunk → List String) (h : Hunk) : LineRange :=
  ⟨start h, start h + (shown h).length⟩

/-- A hunk as it is shown. -/
def Shown.ofHunk (h : Hunk) : Shown where
  old := sideRange Hunk.oldStart Hunk.old h
  new := sideRange Hunk.newStart Hunk.new h
  body := h.body.flatMap stretchLines

theorem toList_toString (n : Nat) : (toString n).toList = Nat.toDigits 10 n := Nat.toList_repr

theorem readNumber?_toDigits (n : Nat) : readNumber? (Nat.toDigits 10 n) = some n := by
  have hdigits : (Nat.toDigits 10 n).all Char.isDigit = true :=
    List.all_eq_true.2 fun c ht => Nat.isDigit_of_mem_toDigits (by decide) (by decide) ht
  rw [readNumber?, if_pos ⟨Nat.toDigits_ne_nil, hdigits⟩, Nat.ofDigitChars_ten_toDigits]

/-- What is no digit does not stand among digits. -/
theorem not_mem_toDigits {c : Char} (ht : c.isDigit = false) (n : Nat) :
    c ∉ Nat.toDigits 10 n := by
  intro h
  rw [Nat.isDigit_of_mem_toDigits (by decide) (by decide) h] at ht
  cases ht

/-- A range is read as it was written, whatever its length is. -/
theorem readRange?_rangeText (start length : Nat) :
    readRange? (rangeText start length).toList = some ⟨start, start + length⟩ := by
  have hcomma : ∀ n, ',' ∉ Nat.toDigits 10 n := not_mem_toDigits (by decide)
  have htwo : ∀ a n, (Nat.toDigits 10 a ++ ',' :: Nat.toDigits 10 n).splitOn ',' =
      [Nat.toDigits 10 a, Nat.toDigits 10 n] := by
    intro a n
    have h : ([','].intercalate [Nat.toDigits 10 a, Nat.toDigits 10 n]).splitOn ',' = _ :=
      List.splitOn_intercalate ',' (by simp [hcomma]) (by simp)
    simpa [List.intercalate_cons_cons] using h
  unfold rangeText
  split
  · next hone =>
    -- one line is named alone
    have h : ([','].intercalate [Nat.toDigits 10 (start + 1)]).splitOn ',' = _ :=
      List.splitOn_intercalate ',' (by simp [hcomma]) (by simp)
    rw [List.intercalate_singleton] at h
    rw [toList_toString, readRange?, h, hone]
    simp only [readNumber?_toDigits]
    rfl
  · split
    · next hzero =>
      -- no line: the one before it is named
      have hlist : (toString start ++ ",0").toList =
          Nat.toDigits 10 start ++ ',' :: Nat.toDigits 10 0 := by
        rw [String.toList_append, toList_toString]
        rfl
      rw [hlist, readRange?, htwo, hzero]
      simp only [readNumber?_toDigits]
      rfl
    · next hzero =>
      have hlist : (toString (start + 1) ++ "," ++ toString length).toList =
          Nat.toDigits 10 (start + 1) ++ ',' :: Nat.toDigits 10 length := by
        rw [String.toList_append, String.toList_append, toList_toString, toList_toString,
          List.append_assoc]
        rfl
      obtain ⟨n, rfl⟩ := Nat.exists_eq_succ_of_ne_zero hzero
      rw [hlist, readRange?, htwo]
      simp only [readNumber?_toDigits]
      rfl

/-- Nothing but digits and a comma stands in a range. -/
theorem not_mem_rangeText {c : Char} (hdigit : c.isDigit = false) (hcomma : c ≠ ',')
    (start length : Nat) : c ∉ (rangeText start length).toList := by
  have hdigits : ∀ n, c ∉ Nat.toDigits 10 n := not_mem_toDigits hdigit
  have hzero : c ≠ '0' := by
    rintro rfl
    cases hdigit
  unfold rangeText
  split_ifs <;> simp [String.toList_append, hdigits, hcomma, hzero]

/-- The ranges of a hunk are read as they were written. -/
theorem readHeader?_hunkHeader (h : Hunk) :
    readHeader? (hunkHeader h) = some ((Shown.ofHunk h).old, (Shown.ofHunk h).new) := by
  let words : List (List Char) := [['@', '@'], '-' :: (rangeText h.oldStart h.old.length).toList,
    '+' :: (rangeText h.newStart h.new.length).toList, ['@', '@', '\n']]
  have hblank : ∀ start length, ' ' ∉ (rangeText start length).toList :=
    not_mem_rangeText (by decide) (by decide)
  have hwords : ([' '].intercalate words).splitOn ' ' = words :=
    List.splitOn_intercalate ' ' (by simp [words, hblank]) (by simp [words])
  have hlist : (hunkHeader h).toList = [' '].intercalate words := by
    simp [words, hunkHeader, String.toList_append, List.intercalate_cons_cons]
  rw [readHeader?, hlist, hwords]
  simp only [words, readRange?_rangeText]
  rfl

theorem unmark?_append (marks : List Char) (mark : Char) (line : String) :
    unmark? marks (String.singleton mark ++ line) = if mark ∈ marks then some line else none := by
  simp [unmark?, String.toList_append]

theorem isSome_unmark?_stretchLines (s : Stretch) :
    ∀ piece ∈ stretchLines s, (unmark? [' ', '-', '+'] piece).isSome = true := by
  intro piece hpiece
  cases s with
  | kept ls =>
    obtain ⟨l, -, rfl⟩ := List.mem_map.1 hpiece
    exact congrArg Option.isSome (unmark?_append _ ' ' l)
  | replaced o n =>
    rcases List.mem_append.1 hpiece with hpiece | hpiece
    · obtain ⟨l, -, rfl⟩ := List.mem_map.1 hpiece
      exact congrArg Option.isSome (unmark?_append _ '-' l)
    · obtain ⟨l, -, rfl⟩ := List.mem_map.1 hpiece
      exact congrArg Option.isSome (unmark?_append _ '+' l)

/-- Marked lines in front belong to the hunk that is stated before them. -/
theorem readPieces?_append {pieces rest body : List String} {hs : List Shown}
    (hpieces : ∀ piece ∈ pieces, (unmark? [' ', '-', '+'] piece).isSome = true)
    (hrest : readPieces? rest = some (body, hs)) :
    readPieces? (pieces ++ rest) = some (pieces ++ body, hs) := by
  induction pieces with
  | nil => exact hrest
  | cons piece pieces ih =>
    have htail := ih fun q hq => hpieces q (List.mem_cons_of_mem piece hq)
    rw [List.cons_append, readPieces?, htail]
    simp [hpieces piece List.mem_cons_self]

theorem readPieces?_hunkLines (hs : List Hunk) :
    readPieces? (hs.flatMap hunkLines) = some ([], hs.map Shown.ofHunk) := by
  induction hs with
  | nil => rfl
  | cons h hs ih =>
    have hbody : ∀ piece ∈ h.body.flatMap stretchLines,
        (unmark? [' ', '-', '+'] piece).isSome = true := by
      intro piece hpiece
      obtain ⟨s, -, hmem⟩ := List.mem_flatMap.1 hpiece
      exact isSome_unmark?_stretchLines s piece hmem
    -- the line that states the ranges is under no mark
    have hheader : unmark? [' ', '-', '+'] (hunkHeader h) = none := by
      simp [unmark?, hunkHeader, String.toList_append]
    rw [List.flatMap_cons, hunkLines, List.cons_append, readPieces?, readPieces?_append hbody ih]
    simp [hheader, readHeader?_hunkHeader, Shown.ofHunk]

/-- **The reader finds the hunks that were written.** -/
theorem readDiff?_diffLines (old new name : String) :
    readDiff? name (diffLines old new name) =
      some ((hunks (script (Text.lines old) (Text.lines new))).map Shown.ofHunk) := by
  unfold diffLines
  cases hhunks : hunks (script (Text.lines old) (Text.lines new)) with
  | nil => rfl
  | cons h hs =>
    have hpieces := readPieces?_hunkLines (h :: hs)
    rw [List.map_cons] at hpieces
    simp only [readDiff?, and_self, if_true, hpieces, List.map_cons]

example : readDiff? "f" ["--- a/f\n", "+++ b/f\n", "@@ -1,2 +1 @@\n", " a\n", "-b\n"] =
    some [⟨⟨0, 2⟩, ⟨0, 1⟩, [" a\n", "-b\n"]⟩] := by decide

theorem filterMap_unmark?_map (marks : List Char) (mark : Char) (ls : List String) :
    (ls.map fun l => String.singleton mark ++ l).filterMap (unmark? marks) =
      if mark ∈ marks then ls else [] := by
  rw [List.filterMap_map]
  induction ls with
  | nil => split <;> rfl
  | cons l ls ih =>
    rw [List.filterMap_cons, Function.comp_apply, unmark?_append, ih]
    by_cases hmark : mark ∈ marks
    · rw [if_pos hmark, if_pos hmark, if_pos hmark]
    · rw [if_neg hmark, if_neg hmark, if_neg hmark]

theorem filterMap_old_stretchLines (s : Stretch) :
    (stretchLines s).filterMap (unmark? [' ', '-']) = s.old := by
  cases s with
  | kept ls => exact filterMap_unmark?_map [' ', '-'] ' ' ls
  | replaced o n =>
    have hold := filterMap_unmark?_map [' ', '-'] '-' o
    have hnew := filterMap_unmark?_map [' ', '-'] '+' n
    rw [if_pos (by decide)] at hold
    rw [if_neg (by decide)] at hnew
    rw [stretchLines, List.filterMap_append]
    exact (congrArg₂ (· ++ ·) hold hnew).trans (List.append_nil o)

theorem filterMap_new_stretchLines (s : Stretch) :
    (stretchLines s).filterMap (unmark? [' ', '+']) = s.new := by
  cases s with
  | kept ls => exact filterMap_unmark?_map [' ', '+'] ' ' ls
  | replaced o n =>
    have hold := filterMap_unmark?_map [' ', '+'] '-' o
    have hnew := filterMap_unmark?_map [' ', '+'] '+' n
    rw [if_neg (by decide)] at hold
    rw [if_pos (by decide)] at hnew
    rw [stretchLines, List.filterMap_append]
    exact congrArg₂ (· ++ ·) hold hnew

/-- The lines under a blank or `-` are the old lines of the hunk. -/
theorem oldLines_ofHunk (h : Hunk) : (Shown.ofHunk h).oldLines = h.old := by
  simp only [Shown.oldLines, Shown.ofHunk, List.filterMap_flatMap, filterMap_old_stretchLines,
    Hunk.old]

/-- The lines under a blank or `+` are the new lines of the hunk. -/
theorem newLines_ofHunk (h : Hunk) : (Shown.ofHunk h).newLines = h.new := by
  simp only [Shown.newLines, Shown.ofHunk, List.filterMap_flatMap, filterMap_new_stretchLines,
    Hunk.new]

/-! ### Hunks tile both sides -/

/-- From some line of each side on, hunks and the lines between them tile what is left of both
sides; between the hunks both sides are the same. -/
inductive Tiling : Nat → Nat → List Hunk → List String → List String → Prop where
  /-- Behind the last hunk. -/
  | nil (i j : Nat) (gap : List String) : Tiling i j [] gap gap
  /-- Up to a hunk and over it. -/
  | cons {i j : Nat} {gap old new : List String} {h : Hunk} {hs : List Hunk}
      (hold : h.oldStart = i + gap.length) (hnew : h.newStart = j + gap.length)
      (hrest : Tiling (h.oldStart + h.old.length) (h.newStart + h.new.length) hs old new) :
      Tiling i j (h :: hs) (gap ++ (h.old ++ old)) (gap ++ (h.new ++ new))

@[simp] theorem oldStart_add (h : Hunk) (s : Stretch) : (h.add s).oldStart = h.oldStart := rfl

@[simp] theorem newStart_add (h : Hunk) (s : Stretch) : (h.add s).newStart = h.newStart := rfl

@[simp] theorem old_add (h : Hunk) (s : Stretch) : (h.add s).old = h.old ++ s.old := by
  simp [Hunk.old, Hunk.add]

@[simp] theorem new_add (h : Hunk) (s : Stretch) : (h.add s).new = h.new ++ s.new := by
  simp [Hunk.new, Hunk.add]

/-- Kept lines that are not all shown: the first ones, those in between, the last ones. -/
theorem exists_between {ls : List String} (h : 2 * context < ls.length) :
    ∃ between, ls = firstLines ls ++ (between ++ lastLines ls) := by
  refine ⟨(ls.drop context).take (ls.length - context - context), ?_⟩
  have hlast : lastLines ls = (ls.drop context).drop (ls.length - context - context) := by
    rw [lastLines, List.drop_drop]
    congr 1
    omega
  rw [hlast, List.take_append_drop, firstLines, List.take_append_drop]

theorem length_lastLines_le (ls : List String) : (lastLines ls).length ≤ ls.length := by
  rw [lastLines, List.length_drop]
  exact Nat.sub_le _ _

@[simp] theorem oldStart_openHunk (i j : Nat) (ls : List String) :
    (openHunk i j ls).oldStart = i - (lastLines ls).length := rfl

@[simp] theorem newStart_openHunk (i j : Nat) (ls : List String) :
    (openHunk i j ls).newStart = j - (lastLines ls).length := rfl

@[simp] theorem old_openHunk (i j : Nat) (ls : List String) :
    (openHunk i j ls).old = lastLines ls := by
  simp [openHunk, Hunk.old, Stretch.old]

@[simp] theorem new_openHunk (i j : Nat) (ls : List String) :
    (openHunk i j ls).new = lastLines ls := by
  simp [openHunk, Hunk.new, Stretch.new]

/-- An open hunk that reaches up to some line of each side and the hunks of the stretches from there
on tile, if there is only `gap` before the open one. -/
theorem tiling_closeHunks {current : Hunk} {i j : Nat} {ss : List Stretch} {a b : Nat}
    (gap : List String) (hold : current.oldStart = a + gap.length)
    (hnew : current.newStart = b + gap.length) (hi : i = current.oldStart + current.old.length)
    (hj : j = current.newStart + current.new.length) :
    Tiling a b (closeHunks current i j ss) (gap ++ (current.old ++ ss.flatMap Stretch.old))
      (gap ++ (current.new ++ ss.flatMap Stretch.new)) := by
  fun_induction closeHunks current i j ss generalizing a b gap with
  | case1 current i j =>
    exact .cons hold hnew (.nil _ _ [])
  | case2 current i j o n rest ih =>
    have h := ih gap hold hnew
      (by simp [hi, Stretch.old, Nat.add_assoc]) (by simp [hj, Stretch.new, Nat.add_assoc])
    simpa using h
  | case3 current i j ls rest hempty =>
    -- the kept lines behind the last change, of which the first are shown
    cases List.isEmpty_iff.1 hempty
    have h : Tiling a b [current.add (.kept (firstLines ls))] _ _ :=
      .cons hold hnew (.nil _ _ (ls.drop context))
    simpa [Stretch.old, Stretch.new, firstLines] using h
  | case4 current i j ls rest hne hfew ih =>
    have h := ih gap hold hnew
      (by simp [hi, Stretch.old, Nat.add_assoc]) (by simp [hj, Stretch.new, Nat.add_assoc])
    simpa using h
  | case5 current i j ls rest hne hmany ih =>
    -- the lines in between are shown in neither hunk
    obtain ⟨between, hbetween⟩ := exists_between (Nat.lt_of_not_le hmany)
    have hlength : ls.length =
        (firstLines ls).length + (between.length + (lastLines ls).length) := by
      have h := congrArg List.length hbetween
      rwa [List.length_append, List.length_append] at h
    have hrest := ih between
      (a := current.oldStart + (current.add (.kept (firstLines ls))).old.length)
      (b := current.newStart + (current.add (.kept (firstLines ls))).new.length)
      (by simp only [oldStart_openHunk, old_add, Stretch.old, List.length_append]; omega)
      (by simp only [newStart_openHunk, new_add, Stretch.new, List.length_append]; omega)
      (by simp only [oldStart_openHunk, old_openHunk]; omega)
      (by simp only [newStart_openHunk, new_openHunk]; omega)
    have h : Tiling a b (current.add (.kept (firstLines ls)) :: _) _ _ := .cons hold hnew hrest
    have hkept : ∀ tail, firstLines ls ++ (between ++ (lastLines ls ++ tail)) = ls ++ tail := by
      intro tail
      conv_rhs => rw [hbetween]
      simp only [List.append_assoc]
    simpa [Stretch.old, Stretch.new, hkept] using h

/-- **The hunks of a script tile both sides.** -/
theorem tiling_hunks (ss : List Stretch) :
    Tiling 0 0 (hunks ss) (ss.flatMap Stretch.old) (ss.flatMap Stretch.new) := by
  unfold hunks
  split
  · exact .nil 0 0 []
  · next ls => simpa [Stretch.old, Stretch.new] using Tiling.nil 0 0 ls
  · next ls rest _ =>
    -- the kept lines before the first change, of which the last are shown
    have hfew := length_lastLines_le ls
    have hgap : (ls.take (ls.length - context)).length = ls.length - (lastLines ls).length := by
      rw [List.length_take, lastLines, List.length_drop]
      omega
    have h : Tiling 0 0
        (closeHunks (openHunk ls.length ls.length ls) ls.length ls.length rest) _ _ :=
      tiling_closeHunks (ls.take (ls.length - context))
        (by rw [oldStart_openHunk, hgap, Nat.zero_add])
        (by rw [newStart_openHunk, hgap, Nat.zero_add])
        (by rw [oldStart_openHunk, old_openHunk, Nat.sub_add_cancel hfew])
        (by rw [newStart_openHunk, new_openHunk, Nat.sub_add_cancel hfew])
    have hkept : ∀ tail, ls.take (ls.length - context) ++ (lastLines ls ++ tail) = ls ++ tail := by
      intro tail
      rw [← List.append_assoc, lastLines, List.take_append_drop]
    simpa [Stretch.old, Stretch.new, hkept] using h
  · exact tiling_closeHunks [] rfl rfl rfl rfl

/-! ### What a tiling says of one side -/

section SideTiling

variable {start : Hunk → Nat} {shown : Hunk → List String} {i : Nat} {gaps : List (List String)}
  {hs : List Hunk} {ls : List String}

/-- On one side, hunks that start where `start` says and show what `shown` says tile the lines from
some line on, and `gaps` are the lines before, between and behind them. -/
inductive SideTiling (start : Hunk → Nat) (shown : Hunk → List String) :
    Nat → List (List String) → List Hunk → List String → Prop where
  | nil (i : Nat) (gap : List String) : SideTiling start shown i [gap] [] gap
  | cons {i : Nat} {gap ls : List String} {gaps : List (List String)} {h : Hunk} {hs : List Hunk}
      (hstart : start h = i + gap.length)
      (hrest : SideTiling start shown (start h + (shown h).length) gaps hs ls) :
      SideTiling start shown i (gap :: gaps) (h :: hs) (gap ++ (shown h ++ ls))

/-- A tiling tiles each side, with the same lines between the hunks. -/
theorem Tiling.sides {i j : Nat} {hs : List Hunk} {old new : List String}
    (ht : Tiling i j hs old new) :
    ∃ gaps, SideTiling Hunk.oldStart Hunk.old i gaps hs old ∧
      SideTiling Hunk.newStart Hunk.new j gaps hs new := by
  induction ht with
  | nil i j gap => exact ⟨[gap], .nil i gap, .nil j gap⟩
  | cons hold hnew _ ih =>
    obtain ⟨gaps, htold, htnew⟩ := ih
    exact ⟨_ :: gaps, .cons hold htold, .cons hnew htnew⟩

theorem SideTiling.bounds (ht : SideTiling start shown i gaps hs ls) :
    ∀ h ∈ hs, i ≤ start h ∧ start h + (shown h).length ≤ i + ls.length := by
  induction ht with
  | nil i gap => simp
  | @cons i gap ls gaps h hs hstart _ ih =>
    intro k hk
    rw [List.length_append, List.length_append]
    rcases List.mem_cons.1 hk with rfl | hk
    · omega
    · have := ih k hk
      omega

theorem SideTiling.pairwise (ht : SideTiling start shown i gaps hs ls) :
    hs.Pairwise fun a b => start a + (shown a).length ≤ start b := by
  induction ht with
  | nil i gap => exact .nil
  | cons _ hrest ih => exact .cons (fun k hk => (hrest.bounds k hk).1) ih

/-- The range that a hunk states holds what the hunk shows. -/
theorem SideTiling.slice (ht : SideTiling start shown i gaps hs ls) (front : List String)
    (hfront : front.length = i) :
    ∀ h ∈ hs, shown h = (sideRange start shown h).slice (front ++ ls) := by
  induction ht generalizing front with
  | nil i gap => simp
  | @cons i gap ls gaps h hs hstart _ ih =>
    intro k hk
    rcases List.mem_cons.1 hk with rfl | hk
    · have hdrop : (front ++ (gap ++ (shown k ++ ls))).drop (start k) = shown k ++ ls := by
        rw [← List.append_assoc, List.drop_left' (by rw [List.length_append, hfront, hstart])]
      rw [LineRange.slice, sideRange, hdrop, Nat.add_sub_cancel_left, List.take_left' rfl]
    · have hlength : (front ++ (gap ++ shown h)).length = start h + (shown h).length := by
        rw [List.length_append, List.length_append, hfront, hstart, Nat.add_assoc]
      simpa only [List.append_assoc] using ih _ hlength k hk

theorem outside_append (i : Nat) (rs : List LineRange) (ls ls' : List String) :
    outside i rs (ls ++ ls') = outside i rs ls ++ outside (i + ls.length) rs ls' := by
  rw [outside, List.zipIdx_append, List.filter_append, List.map_append]
  rfl

/-- Lines before all ranges are outside. -/
theorem outside_of_le {rs : List LineRange}
    (h : ∀ r ∈ rs, i + ls.length ≤ r.start) : outside i rs ls = ls := by
  have hall : ∀ x ∈ ls.zipIdx i, ∀ r ∈ rs, ¬(r.start ≤ x.2 ∧ x.2 < r.stop) := by
    intro x hx r hr hin
    have := List.snd_lt_of_mem_zipIdx hx
    have := h r hr
    omega
  rw [outside, List.filter_eq_self.2 (by simpa using hall), List.zipIdx_map_fst]

/-- Lines in a range are not outside. -/
theorem outside_cons_self {r : LineRange} {rs : List LineRange}
    (hstart : r.start = i) (hstop : r.stop = i + ls.length) : outside i (r :: rs) ls = [] := by
  rw [outside, List.map_eq_nil_iff, List.filter_eq_nil_iff]
  intro x hx hout
  have hge := List.le_snd_of_mem_zipIdx hx
  have hlt := List.snd_lt_of_mem_zipIdx hx
  exact of_decide_eq_true hout r List.mem_cons_self ⟨by omega, by omega⟩

/-- A range does not matter behind its end. -/
theorem outside_cons_of_le {r : LineRange} {rs : List LineRange}
    (h : r.stop ≤ i) : outside i (r :: rs) ls = outside i rs ls := by
  unfold outside
  congr 1
  apply List.filter_congr
  intro x hx
  have hge := List.le_snd_of_mem_zipIdx hx
  have hr : ¬(r.start ≤ x.2 ∧ x.2 < r.stop) := by omega
  rw [decide_eq_decide, List.forall_mem_cons]
  exact and_iff_right hr

/-- The lines outside the ranges of all hunks are those before, between and behind them. -/
theorem SideTiling.outside_eq (ht : SideTiling start shown i gaps hs ls) :
    outside i (hs.map (sideRange start shown)) ls = gaps.flatten := by
  induction ht with
  | nil i gap =>
    have hgap : outside i [] gap = gap := outside_of_le (by simp)
    simpa using hgap
  | @cons i gap ls gaps h hs hstart hrest ih =>
    have hgap : ∀ r ∈ (h :: hs).map (sideRange start shown), i + gap.length ≤ r.start := by
      intro r hr
      obtain ⟨k, hk, rfl⟩ := List.mem_map.1 hr
      show i + gap.length ≤ start k
      rcases List.mem_cons.1 hk with rfl | hk
      · exact Nat.le_of_eq hstart.symm
      · have := (hrest.bounds k hk).1
        omega
    have hshown : outside (start h) (sideRange start shown h :: hs.map (sideRange start shown))
        (shown h) = [] := outside_cons_self rfl rfl
    have hbehind : outside (start h + (shown h).length)
        (sideRange start shown h :: hs.map (sideRange start shown)) ls = gaps.flatten :=
      (outside_cons_of_le (Nat.le_refl _)).trans ih
    rw [outside_append, outside_append, outside_of_le hgap, ← hstart, List.map_cons, hshown,
      hbehind, List.nil_append, List.flatten_cons]

end SideTiling

/-! ### Both sides -/

/-- **Hunks that tile both sides are shown as what they are.** -/
theorem faithful_of_tiling {hs : List Hunk} {old new : List String} (ht : Tiling 0 0 hs old new) :
    Faithful (hs.map Shown.ofHunk) old new := by
  obtain ⟨gaps, hold, hnew⟩ := ht.sides
  constructor
  case ascending => exact List.pairwise_map.2 (hold.pairwise.and hnew.pairwise)
  case within =>
    intro x hx
    obtain ⟨h, hh, rfl⟩ := List.mem_map.1 hx
    have hbold := hold.bounds h hh
    have hbnew := hnew.bounds h hh
    simp only [Shown.ofHunk, sideRange]
    omega
  case oldLines =>
    intro x hx
    obtain ⟨h, hh, rfl⟩ := List.mem_map.1 hx
    rw [oldLines_ofHunk]
    exact hold.slice [] rfl h hh
  case newLines =>
    intro x hx
    obtain ⟨h, hh, rfl⟩ := List.mem_map.1 hx
    rw [newLines_ofHunk]
    exact hnew.slice [] rfl h hh
  case outside =>
    -- on either side these are the lines before, between and behind the hunks
    rw [List.map_map, List.map_map]
    exact hold.outside_eq.trans hnew.outside_eq.symm

/-- To replace the range of each hunk turns the old lines into the new ones. -/
theorem replay_of_tiling {i j : Nat} {hs : List Hunk} {old new : List String}
    (ht : Tiling i j hs old new) (front : List String) (hfront : front.length = i) :
    replay (hs.map Shown.ofHunk) (front ++ old) = front ++ new := by
  induction ht generalizing front with
  | nil i j gap => rfl
  | @cons i j gap old new h hs hold _ _ ih =>
    have hstart : (front ++ gap).length = h.oldStart := by
      rw [List.length_append, hfront, hold]
    have hstop : (front ++ gap ++ h.old).length = h.oldStart + h.old.length := by
      rw [List.length_append, hstart]
    -- the hunks behind this one are replayed first, and leave the lines up to its end alone
    have hrest := ih _ hstop
    have htake : (front ++ gap ++ h.old ++ new).take h.oldStart = front ++ gap := by
      rw [List.append_assoc (front ++ gap), List.take_left' hstart]
    have hdrop : (front ++ gap ++ h.old ++ new).drop (h.oldStart + h.old.length) = new :=
      List.drop_left' hstop
    calc replay ((h :: hs).map Shown.ofHunk) (front ++ (gap ++ (h.old ++ old)))
        = replay ((h :: hs).map Shown.ofHunk) (front ++ gap ++ h.old ++ old) := by
          simp only [List.append_assoc]
      _ = (front ++ gap ++ h.old ++ new).take h.oldStart ++ (Shown.ofHunk h).newLines ++
            (front ++ gap ++ h.old ++ new).drop (h.oldStart + h.old.length) := by
          rw [← hrest]
          rfl
      _ = front ++ (gap ++ (h.new ++ new)) := by
          rw [htake, hdrop, newLines_ofHunk]
          simp only [List.append_assoc]

/-- **A diff is faithful, and replaying it gives the new text.** -/
theorem diff_replays (old new name : String) :
    unifiedDiff old new name = String.join (diffLines old new name) ∧
      ∃ hs, readDiff? name (diffLines old new name) = some hs ∧
        Faithful hs (Text.lines old) (Text.lines new) ∧
        String.join (replay hs (Text.lines old)) = new := by
  have ht := tiling_hunks (script (Text.lines old) (Text.lines new))
  rw [flatMap_old_script, flatMap_new_script] at ht
  have hreplay := replay_of_tiling ht [] rfl
  rw [List.nil_append, List.nil_append] at hreplay
  refine ⟨rfl, _, readDiff?_diffLines old new name, faithful_of_tiling ht, ?_⟩
  rw [hreplay, Text.join_lines]

end LineDiff
end BindLint
