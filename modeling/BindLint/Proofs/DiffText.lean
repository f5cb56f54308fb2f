import BindLint.Proofs.Replay

/-!
# Diffs as text

The lines of a diff are put together as they are.  A reader of the text cuts it at line feeds, and
finds the same lines only if each of them ends in a line feed of its own.  The lines that the
writer adds do; the lines of the two texts need not.  The last line of a text may have no break at
all, and a line may end in one of the breaks that are no line feed.  What stands behind such a line
in the diff is then read as part of it: its mark is lost, and the counts that the hunk states are
too high (`unended_lines_run_together`).

Behind the last line of the diff nothing stands, so that one may end as it likes.  All other lines
have to end in a line feed, and that is enough: `diff_wellFormed_iff`.

## Main definitions

* `LineDiff.feedLines` — the lines of a text, cut at line feeds.
* `LineDiff.WellFormed` — a reader finds hunks with as many lines as they state.
* `LineDiff.StandsAlone` — each line of a diff is a line of the text.

## Main results

* `LineDiff.feedLines_join_iff` — when lines that are put together are found again.
* `LineDiff.readDiff?_map_ended` — the reader finds the hunks if no lines run together.
* `LineDiff.diff_wellFormed_iff` — **a diff is well-formed, with every line on its own, exactly if
  all its lines but the last end in a line feed.**
-/

namespace BindLint
namespace LineDiff

/-! ### Cutting at line feeds -/

/-- A line ends in a line feed. -/
def EndsInFeed (line : String) : Prop := line.toList.getLast? = some '\n'

instance (line : String) : Decidable (EndsInFeed line) :=
  inferInstanceAs (Decidable (_ = _))

/-- A line with a line feed at its end. -/
def ended (line : String) : String := if EndsInFeed line then line else line ++ "\n"

/-- Parts without an empty one at the end. -/
def withoutLastEmpty (parts : List (List Char)) : List (List Char) :=
  if parts.getLast? = some [] then parts.dropLast else parts

/-- The lines of a text that is cut at line feeds, each with the line feed put back.  Behind a line
feed at the end of the text there is no further line. -/
def feedLines (text : String) : List String :=
  (withoutLastEmpty (text.toList.splitOn '\n')).map fun l => String.ofList l ++ "\n"

/-- A text that holds something, and no line feed other than its last character. -/
structure IsLine (line : String) : Prop where
  ne_empty : line ≠ ""
  not_mem : '\n' ∉ line.toList.dropLast

theorem endsInFeed_append (body : String) : EndsInFeed (body ++ "\n") := by
  simp [EndsInFeed, String.toList_append]

/-- A line is a body with a line feed behind it, or holds no line feed at all. -/
theorem IsLine.cases {line : String} (h : IsLine line) :
    (∃ body, line = body ++ "\n" ∧ '\n' ∉ body.toList) ∨
      (¬EndsInFeed line ∧ '\n' ∉ line.toList) := by
  by_cases hend : EndsInFeed line
  · left
    refine ⟨String.ofList line.toList.dropLast, ?_, by simpa using h.not_mem⟩
    have hlist := List.dropLast_append_getLast? '\n' hend
    rw [← String.toList_inj, String.toList_append, String.toList_ofList]
    exact hlist.symm
  · right
    refine ⟨hend, fun hmem => ?_⟩
    have hne : line.toList ≠ [] := List.ne_nil_of_mem hmem
    rw [← List.dropLast_append_getLast hne, List.mem_append, List.mem_singleton] at hmem
    rcases hmem with hmem | hlast
    · exact h.not_mem hmem
    · exact hend (by rw [EndsInFeed, List.getLast?_eq_some_getLast hne, ← hlast])

theorem withoutLastEmpty_cons (part : List Char) {parts : List (List Char)} (h : parts ≠ []) :
    withoutLastEmpty (part :: parts) = part :: withoutLastEmpty parts := by
  unfold withoutLastEmpty
  rw [List.getLast?_cons_of_ne_nil h]
  split
  · rw [List.dropLast_cons_of_ne_nil h]
  · rfl

theorem feedLines_empty : feedLines "" = [] := by decide

/-- What ends in a line feed is a line of its own. -/
theorem feedLines_append_feed {body : String} (h : '\n' ∉ body.toList) (rest : String) :
    feedLines (body ++ "\n" ++ rest) = (body ++ "\n") :: feedLines rest := by
  have hlist : (body ++ "\n" ++ rest).toList = body.toList ++ '\n' :: rest.toList := by
    simp [String.toList_append]
  have hsplit : (body.toList ++ '\n' :: rest.toList).splitOn '\n' =
      body.toList :: rest.toList.splitOn '\n' := by
    have hcut : (body.toList ++ '\n' :: rest.toList).splitOnP (· == '\n') =
        body.toList.splitOnP (· == '\n') ++ rest.toList.splitOnP (· == '\n') :=
      List.splitOnP_append_cons body.toList rest.toList (by decide)
    have hone : body.toList.splitOn '\n' = [body.toList] := List.splitOn_eq_singleton h
    unfold List.splitOn at hone ⊢
    rw [hcut, hone]
    rfl
  rw [feedLines, hlist, hsplit, withoutLastEmpty_cons _ (List.splitOn_ne_nil '\n' rest.toList),
    List.map_cons, String.ofList_toList, ← feedLines]

/-- What does not end in a line feed takes up the line behind it. -/
theorem splitOn_append_of_not_mem {body : List Char} (h : '\n' ∉ body) (rest : List Char) :
    (body ++ rest).splitOn '\n' = (rest.splitOn '\n').modifyHead (body ++ ·) := by
  induction body with
  | nil =>
    rw [List.nil_append]
    cases rest.splitOn '\n' <;> rfl
  | cons c body ih =>
    have hc : ¬(c == '\n') = true := by
      intro heq
      exact h (by rw [eq_of_beq heq]; exact List.mem_cons_self)
    have hbody := ih fun hmem => h (List.mem_cons_of_mem c hmem)
    unfold List.splitOn at hbody ⊢
    rw [List.cons_append, List.splitOnP_cons_eq_if_modifyHead, if_neg hc, hbody,
      List.modifyHead_modifyHead]
    rfl

theorem length_feedLines_append {body : String} (h : '\n' ∉ body.toList) (hne : body ≠ "")
    (rest : String) :
    (feedLines (body ++ rest)).length = max 1 (feedLines rest).length := by
  have hparts := List.splitOn_ne_nil '\n' rest.toList
  have hbody : ∀ part, ¬body.toList ++ part = [] := by
    intro part hnil
    have hempty := (List.append_eq_nil_iff.1 hnil).1
    exact hne (String.toList_inj.1 hempty)
  simp only [feedLines, List.length_map, String.toList_append, splitOn_append_of_not_mem h]
  cases hsplit : rest.toList.splitOn '\n' with
  | nil => exact absurd hsplit hparts
  | cons part parts =>
    rw [List.modifyHead_cons]
    by_cases hnil : parts = []
    · -- there is no line feed at all, so there is one line
      rw [hnil]
      have hone : withoutLastEmpty [body.toList ++ part] = [body.toList ++ part] := by
        simp [withoutLastEmpty, hbody]
      have hle : (withoutLastEmpty [part]).length ≤ 1 := by
        unfold withoutLastEmpty
        split <;> simp
      rw [hone, List.length_singleton]
      omega
    · rw [withoutLastEmpty_cons _ hnil, withoutLastEmpty_cons _ hnil, List.length_cons,
        List.length_cons]
      omega

/-- Lines that are put together are at most as many as before. -/
theorem length_feedLines_join_le {lines : List String} (h : ∀ line ∈ lines, IsLine line) :
    (feedLines (String.join lines)).length ≤ lines.length := by
  induction lines with
  | nil => simp [feedLines_empty]
  | cons line lines ih =>
    have hrest := ih fun l hl => h l (List.mem_cons_of_mem line hl)
    have hline := h line List.mem_cons_self
    rw [String.join_cons, List.length_cons]
    rcases hline.cases with ⟨body, rfl, hbody⟩ | ⟨-, hfree⟩
    · rw [feedLines_append_feed hbody, List.length_cons]
      omega
    · rw [length_feedLines_append hfree hline.ne_empty]
      omega

/-- **Lines that are put together are found again** exactly if all of them but the last end in a
line feed. -/
theorem feedLines_join_iff {lines : List String} (h : ∀ line ∈ lines, IsLine line) :
    feedLines (String.join lines) = lines.map ended ↔
      ∀ line ∈ lines.dropLast, EndsInFeed line := by
  induction lines with
  | nil => exact iff_of_true feedLines_empty (by simp)
  | cons line lines ih =>
    have hlines : ∀ l ∈ lines, IsLine l := fun l hl => h l (List.mem_cons_of_mem line hl)
    have hline := h line List.mem_cons_self
    rcases hline.cases with ⟨body, rfl, hbody⟩ | ⟨hend, hfree⟩
    · -- the line is found, so that the others have to be found
      have hself : ended (body ++ "\n") = body ++ "\n" := if_pos (endsInFeed_append body)
      rw [String.join_cons, feedLines_append_feed hbody, List.map_cons, hself, List.cons.injEq,
        and_iff_right rfl, ih hlines]
      cases lines with
      | nil => simp
      | cons next lines => simp [List.dropLast_cons_cons, endsInFeed_append]
    · cases lines with
      | nil =>
        have hone : feedLines line = [line ++ "\n"] := by
          rw [feedLines, List.splitOn_eq_singleton hfree, withoutLastEmpty, if_neg]
          · simp
          · simpa using hline.ne_empty
        refine iff_of_true ?_ (by simp)
        rw [String.join_cons, String.join_nil, String.append_empty, hone, List.map_singleton, ended,
          if_neg hend]
      | cons next lines =>
        -- the next line is taken up, and there are too few lines
        refine iff_of_false ?_ ?_
        · intro heq
          have hlength := congrArg List.length heq
          have hle := length_feedLines_join_le hlines
          rw [String.join_cons, length_feedLines_append hfree hline.ne_empty, List.length_map,
            List.length_cons] at hlength
          rw [List.length_cons] at hle hlength
          omega
        · intro hall
          exact hend (hall line (by rw [List.dropLast_cons_cons]; exact List.mem_cons_self))

/-! ### Lines of texts and of diffs -/

theorem cutLines_isLine (cs : List Char) :
    ∀ line ∈ Text.cutLines cs, line ≠ [] ∧ '\n' ∉ line.dropLast := by
  fun_induction Text.cutLines cs with
  | case1 => simp
  | case2 rest ih =>
    intro line hline
    rcases List.mem_cons.1 hline with rfl | hline
    · decide
    · exact ih line hline
  | case3 c rest _ hc ih =>
    intro line hline
    rcases List.mem_cons.1 hline with rfl | hline
    · simp
    · exact ih line hline
  | case4 c rest _ hc ih =>
    intro line hline
    have hfeed : '\n' ≠ c := by
      rintro rfl
      exact hc (by decide)
    cases hcut : Text.cutLines rest with
    | nil =>
      rw [hcut, Text.pushFront] at hline
      rw [List.mem_singleton.1 hline]
      simp
    | cons first others =>
      rw [hcut] at ih
      rw [hcut, Text.pushFront] at hline
      rcases List.mem_cons.1 hline with rfl | hline
      · obtain ⟨hne, hfree⟩ := ih first List.mem_cons_self
        rw [List.dropLast_cons_of_ne_nil hne]
        exact ⟨List.cons_ne_nil c first, by simp [hfeed, hfree]⟩
      · exact ih line (List.mem_cons_of_mem first hline)

/-- The lines of a text hold a line feed at most at their end. -/
theorem isLine_of_mem_lines {text line : String} (h : line ∈ Text.lines text) : IsLine line := by
  obtain ⟨cs, hcs, rfl⟩ := List.mem_map.1 h
  obtain ⟨hne, hfree⟩ := cutLines_isLine text.toList cs hcs
  refine ⟨?_, by rwa [String.toList_ofList]⟩
  intro hempty
  exact hne (by simpa using congrArg String.toList hempty)

/-- A mark in front of a line is no line feed. -/
theorem isLine_mark {mark : Char} (hmark : mark ≠ '\n') {line : String} (h : IsLine line) :
    IsLine (String.singleton mark ++ line) := by
  have hne : line.toList ≠ [] := by simpa using h.ne_empty
  have hlist : (String.singleton mark ++ line).toList = mark :: line.toList := by
    simp [String.toList_append]
  constructor
  · intro hempty
    rw [hempty] at hlist
    cases hlist
  · rw [hlist, List.dropLast_cons_of_ne_nil hne, List.mem_cons, not_or]
    exact ⟨hmark.symm, h.not_mem⟩

theorem endsInFeed_mark_iff {mark : Char} (hmark : mark ≠ '\n') {line : String} :
    EndsInFeed (String.singleton mark ++ line) ↔ EndsInFeed line := by
  unfold EndsInFeed
  rw [String.toList_append, String.toList_singleton, List.singleton_append]
  cases line.toList with
  | nil => simp [hmark]
  | cons c cs => rw [List.getLast?_cons_cons]

theorem isLine_append_feed {body : String} (h : '\n' ∉ body.toList) : IsLine (body ++ "\n") := by
  have hlist : (body ++ "\n").toList = body.toList ++ ['\n'] := by
    simp [String.toList_append]
  constructor
  · intro hempty
    rw [hempty] at hlist
    simp at hlist
  · rw [hlist, List.dropLast_concat]
    exact h

theorem exists_hunkHeader_eq (h : Hunk) :
    ∃ body, hunkHeader h = body ++ "\n" ∧ '\n' ∉ body.toList := by
  have hrange : ∀ start length, '\n' ∉ (rangeText start length).toList :=
    not_mem_rangeText (by decide) (by decide)
  refine ⟨"@@ -" ++ rangeText h.oldStart h.old.length ++ " +" ++
    rangeText h.newStart h.new.length ++ " @@", ?_, ?_⟩
  · simp [hunkHeader, ← String.toList_inj, String.toList_append]
  · simp [String.toList_append, hrange]

theorem endsInFeed_hunkHeader (h : Hunk) : EndsInFeed (hunkHeader h) := by
  obtain ⟨body, hbody, -⟩ := exists_hunkHeader_eq h
  rw [hbody]
  exact endsInFeed_append body

/-- What shows a stretch is a mark in front of a line of one of its sides. -/
theorem exists_of_mem_stretchLines {s : Stretch} {piece : String} (h : piece ∈ stretchLines s) :
    ∃ (mark : Char) (line : String), piece = String.singleton mark ++ line ∧ mark ≠ '\n' ∧
      (line ∈ s.old ∨ line ∈ s.new) := by
  cases s with
  | kept ls =>
    obtain ⟨line, hline, rfl⟩ := List.mem_map.1 h
    exact ⟨' ', line, rfl, by decide, Or.inl hline⟩
  | replaced o n =>
    rcases List.mem_append.1 h with h | h
    · obtain ⟨line, hline, rfl⟩ := List.mem_map.1 h
      exact ⟨'-', line, rfl, by decide, Or.inl hline⟩
    · obtain ⟨line, hline, rfl⟩ := List.mem_map.1 h
      exact ⟨'+', line, rfl, by decide, Or.inr hline⟩

/-- Hunks that tile two sides show lines of these sides. -/
theorem Tiling.mem {i j : Nat} {hs : List Hunk} {old new : List String}
    (ht : Tiling i j hs old new) {h : Hunk} (hh : h ∈ hs) :
    h.old ⊆ old ∧ h.new ⊆ new := by
  induction ht with
  | nil => cases hh
  | cons _ _ _ ih =>
    rcases List.mem_cons.1 hh with rfl | hh
    · constructor
      · intro line hline
        exact List.mem_append_right _ (List.mem_append_left _ hline)
      · intro line hline
        exact List.mem_append_right _ (List.mem_append_left _ hline)
    · obtain ⟨hold, hnew⟩ := ih hh
      constructor
      · intro line hline
        exact List.mem_append_right _ (List.mem_append_right _ (hold hline))
      · intro line hline
        exact List.mem_append_right _ (List.mem_append_right _ (hnew hline))

/-- **What stands in a diff**: two lines that name the file, lines that state ranges, and lines of
the two texts under a mark. -/
theorem cases_of_mem_diffLines {old new name piece : String} (h : piece ∈ diffLines old new name) :
    piece = "--- a/" ++ name ++ "\n" ∨ piece = "+++ b/" ++ name ++ "\n" ∨
      (∃ hunk, piece = hunkHeader hunk) ∨
      ∃ (mark : Char) (line : String), piece = String.singleton mark ++ line ∧ mark ≠ '\n' ∧
        (line ∈ Text.lines old ∨ line ∈ Text.lines new) := by
  have ht := tiling_hunks (script (Text.lines old) (Text.lines new))
  rw [flatMap_old_script, flatMap_new_script] at ht
  unfold diffLines at h
  split at h
  · cases h
  · rcases List.mem_cons.1 h with rfl | h
    · exact Or.inl rfl
    rcases List.mem_cons.1 h with rfl | h
    · exact Or.inr (Or.inl rfl)
    obtain ⟨hunk, hhunk, h⟩ := List.mem_flatMap.1 h
    rcases List.mem_cons.1 h with rfl | h
    · exact Or.inr (Or.inr (Or.inl ⟨hunk, rfl⟩))
    -- a line that the hunk shows, and that one of its stretches holds
    obtain ⟨s, hs, h⟩ := List.mem_flatMap.1 h
    obtain ⟨mark, line, rfl, hmark, hline⟩ := exists_of_mem_stretchLines h
    obtain ⟨hold, hnew⟩ := ht.mem hhunk
    refine Or.inr (Or.inr (Or.inr ⟨mark, line, rfl, hmark, ?_⟩))
    rcases hline with hline | hline
    · exact Or.inl (hold (List.mem_flatMap.2 ⟨s, hs, hline⟩))
    · exact Or.inr (hnew (List.mem_flatMap.2 ⟨s, hs, hline⟩))

/-- If the name of the file is one line, so are all lines of a diff. -/
theorem isLine_of_mem_diffLines {old new name piece : String} (hname : '\n' ∉ name.toList)
    (h : piece ∈ diffLines old new name) : IsLine piece := by
  rcases cases_of_mem_diffLines h with rfl | rfl | ⟨hunk, rfl⟩ | ⟨mark, line, rfl, hmark, hline⟩
  · exact isLine_append_feed (by simp [String.toList_append, hname])
  · exact isLine_append_feed (by simp [String.toList_append, hname])
  · obtain ⟨body, hbody, hfree⟩ := exists_hunkHeader_eq hunk
    rw [hbody]
    exact isLine_append_feed hfree
  · apply isLine_mark hmark
    rcases hline with hline | hline
    · exact isLine_of_mem_lines hline
    · exact isLine_of_mem_lines hline

/-- If all lines of both texts end in a line feed, so do all lines of a diff. -/
theorem endsInFeed_of_mem_diffLines {old new name piece : String}
    (hlines : ∀ line, line ∈ Text.lines old ∨ line ∈ Text.lines new → EndsInFeed line)
    (h : piece ∈ diffLines old new name) : EndsInFeed piece := by
  rcases cases_of_mem_diffLines h with rfl | rfl | ⟨hunk, rfl⟩ | ⟨mark, line, rfl, hmark, hline⟩
  · exact endsInFeed_append _
  · exact endsInFeed_append _
  · exact endsInFeed_hunkHeader hunk
  · exact (endsInFeed_mark_iff hmark).2 (hlines line hline)

/-! ### Reading the text -/

/-- A hunk has as many lines under the marks of each side as it states. -/
def Shown.Counted (h : Shown) : Prop :=
  h.old.stop - h.old.start = h.oldLines.length ∧ h.new.stop - h.new.start = h.newLines.length

/-- A text that is cut at line feeds names the file and shows hunks, with as many lines as they
state. -/
def WellFormed (name text : String) : Prop :=
  ∃ hs, readDiff? name (feedLines text) = some hs ∧ ∀ h ∈ hs, h.Counted

/-- A text that is cut at line feeds has these lines. -/
def StandsAlone (lines : List String) (text : String) : Prop := feedLines text = lines.map ended

/-- A stretch with every line changed. -/
def mapStretch (f : String → String) : Stretch → Stretch
  | .kept ls => .kept (ls.map f)
  | .replaced o n => .replaced (o.map f) (n.map f)

/-- A hunk with every line changed. -/
def mapHunk (f : String → String) (h : Hunk) : Hunk := { h with body := h.body.map (mapStretch f) }

theorem ended_mark {mark : Char} (hmark : mark ≠ '\n') (line : String) :
    ended (String.singleton mark ++ line) = String.singleton mark ++ ended line := by
  unfold ended
  by_cases hline : EndsInFeed line
  · rw [if_pos hline, if_pos ((endsInFeed_mark_iff hmark).2 hline)]
  · rw [if_neg hline, if_neg (mt (endsInFeed_mark_iff hmark).1 hline), String.append_assoc]

theorem map_ended_marked {mark : Char} (hmark : mark ≠ '\n') (ls : List String) :
    (ls.map fun l => String.singleton mark ++ l).map ended =
      (ls.map ended).map fun l => String.singleton mark ++ l := by
  rw [List.map_map, List.map_map]
  exact List.map_congr_left fun line _ => ended_mark hmark line

theorem map_ended_stretchLines (s : Stretch) :
    (stretchLines s).map ended = stretchLines (mapStretch ended s) := by
  cases s with
  | kept ls => exact map_ended_marked (by decide : ' ' ≠ '\n') ls
  | replaced o n =>
    rw [stretchLines, List.map_append]
    exact congrArg₂ (· ++ ·) (map_ended_marked (by decide : '-' ≠ '\n') o)
      (map_ended_marked (by decide : '+' ≠ '\n') n)

theorem old_mapHunk (f : String → String) (h : Hunk) : (mapHunk f h).old = h.old.map f := by
  rw [Hunk.old, Hunk.old, mapHunk, List.flatMap_map, List.map_flatMap]
  exact List.flatMap_congr fun s _ => by cases s <;> rfl

theorem new_mapHunk (f : String → String) (h : Hunk) : (mapHunk f h).new = h.new.map f := by
  rw [Hunk.new, Hunk.new, mapHunk, List.flatMap_map, List.map_flatMap]
  exact List.flatMap_congr fun s _ => by cases s <;> rfl

/-- To end its lines does not change what a hunk states. -/
theorem map_ended_hunkLines (h : Hunk) :
    (hunkLines h).map ended = hunkLines (mapHunk ended h) := by
  have hheader : hunkHeader (mapHunk ended h) = hunkHeader h := by
    rw [hunkHeader, old_mapHunk, new_mapHunk, List.length_map, List.length_map]
    rfl
  have hended : ended (hunkHeader h) = hunkHeader h := if_pos (endsInFeed_hunkHeader h)
  rw [hunkLines, hunkLines, hheader, List.map_cons, hended, List.map_flatMap]
  simp only [mapHunk, List.flatMap_map, map_ended_stretchLines]

/-- **The reader finds the hunks** if every line stands alone. -/
theorem readDiff?_map_ended (old new name : String) :
    readDiff? name ((diffLines old new name).map ended) =
      some (((hunks (script (Text.lines old) (Text.lines new))).map (mapHunk ended)).map
        Shown.ofHunk) := by
  unfold diffLines
  cases hunks (script (Text.lines old) (Text.lines new)) with
  | nil => rfl
  | cons h hs =>
    have hself : ∀ body, ended (body ++ "\n") = body ++ "\n" :=
      fun body => if_pos (endsInFeed_append body)
    have hlines : ((h :: hs).flatMap hunkLines).map ended =
        ((h :: hs).map (mapHunk ended)).flatMap hunkLines := by
      rw [List.map_flatMap, List.flatMap_map]
      exact List.flatMap_congr fun k _ => map_ended_hunkLines k
    have hpieces := readPieces?_hunkLines ((h :: hs).map (mapHunk ended))
    simp only [List.map_cons, hself]
    rw [List.map_cons] at hpieces hlines
    simp only [readDiff?, and_self, if_true, hlines, hpieces, List.map_cons]

theorem counted_ofHunk (h : Hunk) : (Shown.ofHunk h).Counted := by
  rw [Shown.Counted, oldLines_ofHunk, newLines_ofHunk]
  simp [Shown.ofHunk, sideRange]

/-- A diff of which every line stands alone is well-formed. -/
theorem wellFormed_of_standsAlone {old new name : String}
    (h : StandsAlone (diffLines old new name) (unifiedDiff old new name)) :
    WellFormed name (unifiedDiff old new name) := by
  refine ⟨_, by rw [h]; exact readDiff?_map_ended old new name, ?_⟩
  intro x hx
  obtain ⟨hunk, -, rfl⟩ := List.mem_map.1 hx
  exact counted_ofHunk hunk

/-- **A diff is well-formed, with every line on a line of its own, exactly if all its lines but
the last end in a line feed.**  This is so if all lines of both texts do. -/
theorem diff_wellFormed_iff (old new name : String) (hname : '\n' ∉ name.toList) :
    (WellFormed name (unifiedDiff old new name) ∧
        StandsAlone (diffLines old new name) (unifiedDiff old new name) ↔
      ∀ line ∈ (diffLines old new name).dropLast, EndsInFeed line) ∧
    ((∀ line, line ∈ Text.lines old ∨ line ∈ Text.lines new → EndsInFeed line) →
      WellFormed name (unifiedDiff old new name) ∧
        StandsAlone (diffLines old new name) (unifiedDiff old new name)) := by
  have hiff : StandsAlone (diffLines old new name) (unifiedDiff old new name) ↔
      ∀ line ∈ (diffLines old new name).dropLast, EndsInFeed line :=
    feedLines_join_iff fun piece hpiece => isLine_of_mem_diffLines hname hpiece
  refine ⟨?_, ?_⟩
  · rw [← hiff]
    exact ⟨And.right, fun h => ⟨wellFormed_of_standsAlone h, h⟩⟩
  · intro hlines
    have halone : StandsAlone (diffLines old new name) (unifiedDiff old new name) :=
      hiff.2 fun line hline =>
        endsInFeed_of_mem_diffLines hlines (List.dropLast_subset _ hline)
    exact ⟨wellFormed_of_standsAlone halone, halone⟩

/-- The last line on either side has no break, but it is the last line of the diff as well. -/
theorem diff_wellFormed_iff_lastKept :
    '\n' ∉ "f".toList ∧ unifiedDiff "a\nx" "b\nx" "f" =
        "--- a/f\n+++ b/f\n@@ -1,2 +1,2 @@\n-a\n+b\n x" ∧
      WellFormed "f" (unifiedDiff "a\nx" "b\nx" "f") := by
  have hlines : ∀ line ∈ (diffLines "a\nx" "b\nx" "f").dropLast, EndsInFeed line := by
    decide +kernel
  obtain ⟨hiff, -⟩ := diff_wellFormed_iff "a\nx" "b\nx" "f" (by decide)
  exact ⟨by decide, by decide +kernel, (hiff.2 hlines).1⟩

/-- Without a break at the end, the old line and the new one run together: the hunk states one new
line and shows none. -/
theorem unended_lines_run_together :
    unifiedDiff "a" "b" "f" = "--- a/f\n+++ b/f\n@@ -1 +1 @@\n-a+b" ∧
      ¬WellFormed "f" (unifiedDiff "a" "b" "f") := by
  have htext : unifiedDiff "a" "b" "f" = "--- a/f\n+++ b/f\n@@ -1 +1 @@\n-a+b" := by
    decide +kernel
  have hread : readDiff? "f" (feedLines "--- a/f\n+++ b/f\n@@ -1 +1 @@\n-a+b") =
      some [⟨⟨0, 1⟩, ⟨0, 1⟩, ["-a+b\n"]⟩] := by decide +kernel
  refine ⟨htext, ?_⟩
  rw [htext]
  rintro ⟨hs, hhs, hcounted⟩
  cases hread.symm.trans hhs
  have hnew := (hcounted _ (List.mem_singleton_self _)).2
  exact absurd hnew (by decide)

end LineDiff
end BindLint
