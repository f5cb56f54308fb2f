/-!
# Edit scripts between two lists of lines

A script turns one list of lines into another by stretches: lines that are kept,
and lines that are replaced by others.  It is found by taking the longest run of
lines that both sides share, the earliest one in the old lines and then in the
new, and going on to the left and to the right of it.

On a long new side a line that occurs very often tells nothing about where two
texts agree.  Such *popular* lines start no shared run, though a run goes on over
them where both sides agree.

## Main definitions

* `Stretch`, `Stretch.old`, `Stretch.new` — the parts of a script.
* `LineDiff.anchor` — where the longest shared run of lines that are not popular
  starts.
* `LineDiff.cut` — both sides cut around the run at the anchor.
* `LineDiff.script` — the script between two lists of lines.

## Main results

* `LineDiff.old_cutAt`, `LineDiff.new_cutAt` — a cut loses nothing on either side.
* `LineDiff.flatMap_old_script`, `LineDiff.flatMap_new_script` — **both sides can
  be read off a script.**
-/

namespace BindLint

/-- A part of an edit script. -/
inductive Stretch where
  /-- Lines that both sides share. -/
  | kept (lines : List String) : Stretch
  /-- Lines of the old side, and those of the new side in their place. -/
  | replaced (old new : List String) : Stretch
  deriving DecidableEq, Repr, Inhabited

/-- The lines of the old side in a stretch. -/
def Stretch.old : Stretch → List String
  | .kept ls => ls
  | .replaced o _ => o

/-- The lines of the new side in a stretch. -/
def Stretch.new : Stretch → List String
  | .kept ls => ls
  | .replaced _ n => n

namespace LineDiff

/-! ### Popular lines -/

/-- The number of lines from which on some may be popular. -/
def popularFrom : Nat := 200

/-- The popular lines of the new side: those that make up more than a hundredth of
it, one occurrence not counted. -/
def popularLines (new : List String) : List String :=
  if new.length < popularFrom then []
  else (new.filter fun l => decide (new.length / 100 + 1 < new.count l)).eraseDups

/-! ### The longest shared run -/

/-- A shared run: its length and where it starts on both sides. -/
structure Run where
  /-- The number of lines. -/
  size : Nat
  /-- Where it starts in the old lines. -/
  old : Nat
  /-- Where it starts in the new lines. -/
  new : Nat
  deriving DecidableEq, Repr, Inhabited

/-- For every new line, the length of the shared run that ends there and at an old
line, from the lengths for the old line before. -/
def nextLengths (popular : List String) (line : String) (new : List String)
    (lengths : List Nat) : List Nat :=
  if popular.contains line then new.map fun _ => 0
  else List.zipWith (fun l k => if line = l then k + 1 else 0) new (0 :: lengths)

/-- The better of a run and those that end at an old line; of equal ones the first. -/
def bestOf (i : Nat) : Nat → List Nat → Run → Run
  | _, [], best => best
  | j, k :: ks, best =>
      bestOf i (j + 1) ks (if best.size < k then ⟨k, i + 1 - k, j + 1 - k⟩ else best)

/-- The best of a run and those that end at the remaining old lines. -/
def searchFrom (popular new : List String) : Nat → List String → List Nat → Run → Run
  | _, [], _, best => best
  | i, line :: rest, lengths, best =>
      let lengths' := nextLengths popular line new lengths
      searchFrom popular new (i + 1) rest lengths' (bestOf i 0 lengths' best)

/-- The longest shared run of lines that are not popular, the first of those in
the old lines and then in the new; an empty one at the start if there is none. -/
def anchor (popular old new : List String) : Run :=
  searchFrom popular new 0 old (new.map fun _ => 0) ⟨0, 0, 0⟩

/-! ### Cutting around a shared run -/

/-- The longest list that two lists both start with. -/
def commonPrefix : List String → List String → List String
  | a :: as, b :: bs => if a = b then a :: commonPrefix as bs else []
  | _, _ => []

theorem commonPrefix_append_drop_left (as bs : List String) :
    commonPrefix as bs ++ as.drop (commonPrefix as bs).length = as := by
  fun_induction commonPrefix as bs with
  | case1 as b bs ih => simpa using ih
  | case2 a as b bs h => rfl
  | case3 as bs h => simp

theorem commonPrefix_append_drop_right (as bs : List String) :
    commonPrefix as bs ++ bs.drop (commonPrefix as bs).length = bs := by
  fun_induction commonPrefix as bs with
  | case1 as b bs ih => simpa using ih
  | case2 a as b bs h => rfl
  | case3 as bs h => simp

/-- Both sides cut around lines that they share. -/
structure Cut where
  /-- The old lines before. -/
  oldBefore : List String
  /-- The new lines before. -/
  newBefore : List String
  /-- The shared lines. -/
  kept : List String
  /-- The old lines after. -/
  oldAfter : List String
  /-- The new lines after. -/
  newAfter : List String
  deriving DecidableEq, Repr

/-- Both sides cut at an offset each, around all lines on which they agree from
there on and up to there. -/
def cutAt (old new : List String) (i j : Nat) : Cut :=
  let forth := commonPrefix (old.drop i) (new.drop j)
  let back := commonPrefix (old.take i).reverse (new.take j).reverse
  { oldBefore := ((old.take i).reverse.drop back.length).reverse
    newBefore := ((new.take j).reverse.drop back.length).reverse
    kept := back.reverse ++ forth
    oldAfter := (old.drop i).drop forth.length
    newAfter := (new.drop j).drop forth.length }

theorem old_cutAt (old new : List String) (i j : Nat) :
    (cutAt old new i j).oldBefore ++ (cutAt old new i j).kept ++ (cutAt old new i j).oldAfter
      = old := by
  simp only [cutAt]
  rw [← List.append_assoc, ← List.reverse_append, commonPrefix_append_drop_left,
    List.reverse_reverse, List.append_assoc, commonPrefix_append_drop_left,
    List.take_append_drop]

theorem new_cutAt (old new : List String) (i j : Nat) :
    (cutAt old new i j).newBefore ++ (cutAt old new i j).kept ++ (cutAt old new i j).newAfter
      = new := by
  simp only [cutAt]
  rw [← List.append_assoc, ← List.reverse_append, commonPrefix_append_drop_right,
    List.reverse_reverse, List.append_assoc, commonPrefix_append_drop_right,
    List.take_append_drop]

/-- Both sides cut around their longest shared run. -/
def cut (popular old new : List String) : Cut :=
  let run := anchor popular old new
  cutAt old new run.old run.new

theorem length_cut (popular old new : List String) :
    (cut popular old new).oldBefore.length + (cut popular old new).kept.length +
      (cut popular old new).oldAfter.length = old.length := by
  have h := congrArg List.length
    (old_cutAt old new (anchor popular old new).old (anchor popular old new).new)
  simpa [cut, Nat.add_assoc] using h

/-! ### Scripts -/

/-- The stretches between two lists of lines, in order; some may be empty. -/
def stretches (popular old new : List String) : List Stretch :=
  let c := cut popular old new
  if _h : c.kept = [] then [.replaced old new]
  else
    stretches popular c.oldBefore c.newBefore ++
      .kept c.kept :: stretches popular c.oldAfter c.newAfter
termination_by old.length
decreasing_by
  all_goals
    have hl := length_cut popular old new
    have hk : 0 < (cut popular old new).kept.length := List.length_pos_iff.2 _h
    omega

/-- A stretch in front of others: an empty one is dropped, and kept lines are
joined to kept lines. -/
def joinStretch : Stretch → List Stretch → List Stretch
  | .kept [], ss => ss
  | .replaced [] [], ss => ss
  | .kept ls, .kept ms :: ss => .kept (ls ++ ms) :: ss
  | s, ss => s :: ss

/-- The script between two lists of lines: kept and replaced stretches take turns,
and none is empty. -/
def script (old new : List String) : List Stretch :=
  (stretches (popularLines new) old new).foldr joinStretch []

/-! ### The two sides of a script -/

theorem flatMap_old_stretches (popular old new : List String) :
    (stretches popular old new).flatMap Stretch.old = old := by
  fun_induction stretches popular old new with
  | case1 old new c h => simp [Stretch.old]
  | case2 old new c h ih₁ ih₂ =>
    -- the stretches before and after the kept lines give back what was cut off
    rw [List.flatMap_append, List.flatMap_cons, ih₁, ih₂, Stretch.old, ← List.append_assoc]
    exact old_cutAt old new _ _

theorem flatMap_new_stretches (popular old new : List String) :
    (stretches popular old new).flatMap Stretch.new = new := by
  fun_induction stretches popular old new with
  | case1 old new c h => simp [Stretch.new]
  | case2 old new c h ih₁ ih₂ =>
    rw [List.flatMap_append, List.flatMap_cons, ih₁, ih₂, Stretch.new, ← List.append_assoc]
    exact new_cutAt old new _ _

@[simp] theorem flatMap_old_joinStretch (s : Stretch) (ss : List Stretch) :
    (joinStretch s ss).flatMap Stretch.old = s.old ++ ss.flatMap Stretch.old := by
  fun_cases joinStretch s ss <;> simp [Stretch.old]

@[simp] theorem flatMap_new_joinStretch (s : Stretch) (ss : List Stretch) :
    (joinStretch s ss).flatMap Stretch.new = s.new ++ ss.flatMap Stretch.new := by
  fun_cases joinStretch s ss <;> simp [Stretch.new]

/-- Joining stretches keeps the old side. -/
theorem flatMap_old_foldr (ss : List Stretch) :
    (ss.foldr joinStretch []).flatMap Stretch.old = ss.flatMap Stretch.old := by
  induction ss with
  | nil => rfl
  | cons s ss ih => simp [ih]

/-- Joining stretches keeps the new side. -/
theorem flatMap_new_foldr (ss : List Stretch) :
    (ss.foldr joinStretch []).flatMap Stretch.new = ss.flatMap Stretch.new := by
  induction ss with
  | nil => rfl
  | cons s ss ih => simp [ih]

/-- The old lines are the old sides of a script, one after the other. -/
theorem flatMap_old_script (old new : List String) :
    (script old new).flatMap Stretch.old = old := by
  rw [script, flatMap_old_foldr, flatMap_old_stretches]

/-- The new lines are the new sides of a script, one after the other. -/
theorem flatMap_new_script (old new : List String) :
    (script old new).flatMap Stretch.new = new := by
  rw [script, flatMap_new_foldr, flatMap_new_stretches]

end LineDiff
end BindLint
