import BindLint.Proofs.Replay
import BindLint.Proofs.Rounds

/-!
# Diffs of equal texts

A diff is empty exactly if there is nothing to show.  One half is a case of replaying: a diff
without hunks leaves the old text as it is.  For the other half the script between a list of lines
and itself has to be found, and the search may not start a shared run at a popular line.

Of two equal sides the search fills one row of lengths for each line.  The run that ends at line
`r` of the one side and at line `j` of the other is no longer than the lines without a popular
one that lead up to `r`, nor than those that lead up to `j`; on the diagonal it is exactly as long
(`Row`).  A run off the diagonal is therefore never longer than the one on the diagonal that is
met before it, and the anchor stays on the diagonal (`anchor_self`), wherever that is.  Cutting
there, both ways over popular lines as well, leaves nothing on either side.

## Main definitions

* `LineDiff.unpopularRun` — the lines up to some line among which none is popular.
* `LineDiff.Row` — what is known of a row of lengths between equal sides.

## Main results

* `LineDiff.anchor_self` — the longest shared run of equal sides starts at one line.
* `LineDiff.script_self` — the script between equal sides keeps all lines.
* `LineDiff.diff_eq_empty_iff` — **a diff is empty exactly if the texts are equal, and no patch
  has an empty one.**
-/

namespace BindLint
namespace LineDiff

/-! ### Rows of lengths -/

section Rows

variable {popular ls : List String}

/-- The number of lines right before line `r` that are not popular, up to the nearest one that
is. -/
def unpopularRun (popular ls : List String) : Nat → Nat
  | 0 => 0
  | r + 1 =>
      match ls[r]? with
      | none => 0
      | some line => if popular.contains line then 0 else unpopularRun popular ls r + 1

theorem unpopularRun_of_popular {r : Nat} {line : String} (hline : ls[r]? = some line)
    (hpopular : popular.contains line = true) : unpopularRun popular ls (r + 1) = 0 := by
  simp only [unpopularRun, hline, hpopular, if_true]

theorem unpopularRun_of_not_popular {r : Nat} {line : String} (hline : ls[r]? = some line)
    (hpopular : ¬popular.contains line = true) :
    unpopularRun popular ls (r + 1) = unpopularRun popular ls r + 1 := by
  simp only [unpopularRun, hline, if_neg hpopular]

/-- The row of lengths after `r` lines, with a nought in front: the runs that end before line `r`
of one side and before line `j` of the other. -/
structure Row (popular ls : List String) (r : Nat) (lengths : List Nat) : Prop where
  /-- No run is longer than the unpopular lines that lead up to its end, on either side. -/
  le : ∀ j k, (0 :: lengths)[j]? = some k →
    k ≤ unpopularRun popular ls r ∧ k ≤ unpopularRun popular ls j
  /-- On the diagonal both sides agree as far back as there is no popular line. -/
  diagonal : (0 :: lengths)[r]? = some (unpopularRun popular ls r)

theorem row_zero (popular ls : List String) : Row popular ls 0 (ls.map fun _ => 0) where
  le := by
    intro j k hk
    have hzero : k = 0 := by
      cases j with
      | zero => simpa using hk.symm
      | succ j =>
        rw [List.getElem?_cons_succ, List.getElem?_map] at hk
        obtain ⟨-, -, rfl⟩ := Option.map_eq_some_iff.1 hk
        rfl
    omega
  diagonal := rfl

/-- **One more line** makes a row out of a row. -/
theorem Row.next {r : Nat} {lengths : List Nat} {line : String} (h : Row popular ls r lengths)
    (hline : ls[r]? = some line) :
    Row popular ls (r + 1) (nextLengths popular line ls lengths) := by
  by_cases hpopular : popular.contains line = true
  · -- no run goes on over a popular line
    have hrun := unpopularRun_of_popular hline hpopular
    rw [nextLengths, if_pos hpopular]
    constructor
    · intro j k hk
      have := (row_zero popular ls).le j k hk
      simp only [unpopularRun] at this
      omega
    · rw [List.getElem?_cons_succ, List.getElem?_map, hline, hrun]
      rfl
  · have hrun := unpopularRun_of_not_popular hline hpopular
    rw [nextLengths, if_neg hpopular]
    constructor
    · intro j k hk
      cases j with
      | zero =>
        have : k = 0 := by simpa using hk.symm
        omega
      | succ j =>
        rw [List.getElem?_cons_succ, List.getElem?_zipWith] at hk
        split at hk
        · next other before hother hbefore =>
          have hle := h.le j before hbefore
          cases hk
          split
          · next heq =>
            -- the run goes on, and the other line is not popular either
            have hrun' := unpopularRun_of_not_popular hother (heq ▸ hpopular)
            omega
          · omega
        · cases hk
    · rw [List.getElem?_cons_succ, List.getElem?_zipWith, hline, h.diagonal, hrun]
      simp

/-! ### The best run -/

theorem bestOf_append (i j : Nat) (ks ks' : List Nat) (best : Run) :
    bestOf i j (ks ++ ks') best = bestOf i (j + ks.length) ks' (bestOf i j ks best) := by
  induction ks generalizing j best with
  | nil => rfl
  | cons k ks ih =>
    rw [List.cons_append, bestOf, bestOf, ih, List.length_cons]
    congr 1
    omega

/-- Runs that are not longer change nothing. -/
theorem bestOf_of_le {i j : Nat} {ks : List Nat} {best : Run} (h : ∀ k ∈ ks, k ≤ best.size) :
    bestOf i j ks best = best := by
  induction ks generalizing j with
  | nil => rfl
  | cons k ks ih =>
    have hk : ¬best.size < k := Nat.not_lt.2 (h k List.mem_cons_self)
    rw [bestOf, if_neg hk]
    exact ih fun k' hk' => h k' (List.mem_cons_of_mem k hk')

/-- A best run on the diagonal that is as long as all unpopular runs so far. -/
structure Diagonal (popular ls : List String) (r : Nat) (best : Run) : Prop where
  old_eq_new : best.old = best.new
  le_size : ∀ j ≤ r, unpopularRun popular ls j ≤ best.size

/-- In each row only the run on the diagonal can become the best one. -/
theorem Diagonal.next {r : Nat} {lengths : List Nat} {best : Run}
    (hbest : Diagonal popular ls r best) (hrow : Row popular ls (r + 1) lengths) :
    Diagonal popular ls (r + 1) (bestOf r 0 lengths best) := by
  have hdiagonal : lengths[r]? = some (unpopularRun popular ls (r + 1)) := hrow.diagonal
  obtain ⟨hr, hget⟩ := List.getElem?_eq_some_iff.1 hdiagonal
  have hcut : lengths = lengths.take r ++ unpopularRun popular ls (r + 1) ::
      lengths.drop (r + 1) := by
    rw [← hget, ← List.drop_eq_getElem_cons hr, List.take_append_drop]
  -- the runs before the diagonal end where one on the diagonal has been met already
  have hbefore : ∀ k ∈ lengths.take r, k ≤ best.size := by
    intro k hk
    obtain ⟨j, hj⟩ := List.mem_iff_getElem?.1 hk
    rw [List.getElem?_take] at hj
    split at hj
    · next hlt =>
      have hle := (hrow.le (j + 1) k hj).2
      exact Nat.le_trans hle (hbest.le_size (j + 1) hlt)
    · cases hj
  -- those behind it are not longer than the one on the diagonal
  have hbehind : ∀ k ∈ lengths.drop (r + 1), k ≤ unpopularRun popular ls (r + 1) := by
    intro k hk
    obtain ⟨j, hj⟩ := List.mem_iff_getElem?.1 (List.mem_of_mem_drop hk)
    exact (hrow.le (j + 1) k hj).1
  have hlength : (lengths.take r).length = r := by
    rw [List.length_take]
    omega
  rw [hcut, bestOf_append, bestOf_of_le hbefore, bestOf, hlength, Nat.zero_add]
  split
  · next hlt =>
    rw [bestOf_of_le hbehind]
    refine ⟨rfl, fun j hj => ?_⟩
    rcases Nat.lt_or_eq_of_le hj with hj | rfl
    · have hle := hbest.le_size j (Nat.le_of_lt_succ hj)
      exact Nat.le_trans hle (Nat.le_of_lt hlt)
    · exact Nat.le_refl _
  · next hlt =>
    have hge := Nat.le_of_not_lt hlt
    rw [bestOf_of_le fun k hk => Nat.le_trans (hbehind k hk) hge]
    refine ⟨hbest.old_eq_new, fun j hj => ?_⟩
    rcases Nat.lt_or_eq_of_le hj with hj | rfl
    · exact hbest.le_size j (Nat.le_of_lt_succ hj)
    · exact hge

/-- **The search keeps the best run on the diagonal**, from any row on. -/
theorem diagonal_searchFrom {r : Nat} {rest : List String} {lengths : List Nat} {best : Run}
    (hrest : ls.drop r = rest) (hrow : Row popular ls r lengths)
    (hbest : Diagonal popular ls r best) :
    (searchFrom popular ls r rest lengths best).old =
      (searchFrom popular ls r rest lengths best).new := by
  induction rest generalizing r lengths best with
  | nil => exact hbest.old_eq_new
  | cons line rest ih =>
    have hline : ls[r]? = some line := by
      rw [← List.head?_drop, hrest, List.head?_cons]
    have htail : ls.drop (r + 1) = rest := by
      rw [← List.tail_drop, hrest, List.tail_cons]
    have hnext := hrow.next hline
    exact ih htail hnext (hbest.next hnext)

/-- The longest shared run of a list and itself starts at the same line on both sides. -/
theorem anchor_self (popular ls : List String) :
    (anchor popular ls ls).old = (anchor popular ls ls).new := by
  refine diagonal_searchFrom List.drop_zero (row_zero popular ls) ⟨rfl, fun j hj => ?_⟩
  rw [Nat.le_zero.1 hj]
  exact Nat.le_refl 0

end Rows

/-! ### Scripts between equal sides -/

theorem commonPrefix_self (ls : List String) : commonPrefix ls ls = ls := by
  induction ls with
  | nil => rfl
  | cons l ls ih => rw [commonPrefix, if_pos rfl, ih]

/-- Around a run on the diagonal everything is kept. -/
theorem cut_self (popular ls : List String) : cut popular ls ls = ⟨[], [], ls, [], []⟩ := by
  rw [cut, anchor_self]
  simp only [cutAt, commonPrefix_self, List.drop_length, List.reverse_reverse, List.reverse_nil,
    List.take_append_drop]

theorem stretches_nil (popular : List String) : stretches popular [] [] = [.replaced [] []] := by
  rw [stretches, cut_self]
  rfl

/-- The script between equal sides keeps all lines, and is empty if there are none. -/
theorem script_self (ls : List String) : script ls ls = joinStretch (.kept ls) [] := by
  rw [script, stretches, cut_self]
  by_cases hls : ls = []
  · rw [dif_pos hls, hls]
    rfl
  · rw [dif_neg hls, stretches_nil]
    rfl

theorem hunks_script_self (ls : List String) : hunks (script ls ls) = [] := by
  rw [script_self]
  cases ls <;> rfl

/-- A script without hunks leaves all lines as they are. -/
theorem eq_of_hunks_eq_nil {old new : List String} (h : hunks (script old new) = []) :
    old = new := by
  have htiling := tiling_hunks (script old new)
  rw [h, flatMap_old_script, flatMap_new_script] at htiling
  cases htiling
  rfl

/-! ### Diffs -/

theorem unifiedDiff_eq_empty_iff_hunks {old new name : String} :
    unifiedDiff old new name = "" ↔ hunks (script (Text.lines old) (Text.lines new)) = [] := by
  unfold unifiedDiff diffLines
  cases hunks (script (Text.lines old) (Text.lines new)) with
  | nil => exact iff_of_true rfl rfl
  | cons h hs =>
    refine iff_of_false ?_ (List.cons_ne_nil h hs)
    intro hempty
    -- the name of the file is shown in any case
    have hlist := congrArg String.toList hempty
    simp [String.toList_join, String.toList_append] at hlist

theorem lines_injective {old new : String} (h : Text.lines old = Text.lines new) : old = new := by
  rw [← Text.join_lines old, h, Text.join_lines]

theorem unifiedDiff_eq_empty_iff {old new name : String} :
    unifiedDiff old new name = "" ↔ old = new := by
  rw [unifiedDiff_eq_empty_iff_hunks]
  constructor
  · intro h
    exact lines_injective (eq_of_hunks_eq_nil h)
  · rintro rfl
    exact hunks_script_self _

/-- A patch holds the diff between two texts that differ. -/
theorem diff_of_patch {run : Fixing} {path : Path} {text : String} {patch : Patch}
    (h : run.patch path text = .ok (some patch)) :
    patch.source ≠ text ∧ patch.diff = unifiedDiff text patch.source path.text := by
  unfold Fixing.patch at h
  split at h
  · cases h
  · split at h
    · cases h
    · next hne =>
      cases h
      exact ⟨hne, rfl⟩

/-- **A diff is empty exactly if the texts are equal**, of whatever length they are and however
often a line occurs.  A patch is made only for a text that has changed, so its diff is never
empty. -/
theorem diff_eq_empty_iff :
    (∀ old new name : String, unifiedDiff old new name = "" ↔ old = new) ∧
      ∀ (parse : Parser) (o : Options) (path : Path) (passes : Int) (text : String)
        (patch : Patch), (fix parse o path passes text).patch path text = .ok (some patch) →
        patch.diff = unifiedDiff text patch.source path.text ∧ patch.diff ≠ "" := by
  refine ⟨fun _ _ _ => unifiedDiff_eq_empty_iff, ?_⟩
  intro parse o path passes text patch h
  obtain ⟨hne, hdiff⟩ := diff_of_patch h
  refine ⟨hdiff, ?_⟩
  rw [hdiff]
  intro hempty
  exact hne (unifiedDiff_eq_empty_iff.1 hempty).symm

/-- The patch for the scheduler call shows the line before and after. -/
theorem diff_eq_empty_iff_timer :
    let path : Path := ⟨0, ["a.js"]⟩
    let run := fix timerParser ⟨true, ["on"], false⟩ path 10 timerText
    ∃ patch, run.patch path timerText = .ok (some patch) ∧
      patch.source = "setTimeout(é.m.bind(é), 0, x)" ∧
      patch.diff = unifiedDiff timerText "setTimeout(é.m.bind(é), 0, x)" "a.js" ∧
      patch.diff ≠ "" := by
  intro path run
  have hending : ∀ e, run.ending ≠ .failed e := by
    have hclean : run.ending = .clean := by decide +kernel
    simp [hclean]
  have hsource : run.source = "setTimeout(é.m.bind(é), 0, x)" := by decide +kernel
  have hpatch := Fixing.patch_of_not_failed hending path timerText
  rw [hsource, if_neg (by decide)] at hpatch
  obtain ⟨hdiff, hne⟩ := diff_eq_empty_iff.2 timerParser _ path 10 timerText _ hpatch
  exact ⟨_, hpatch, rfl, hdiff, hne⟩

end LineDiff
end BindLint
