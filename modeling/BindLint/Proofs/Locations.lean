import BindLint.Proofs.Rounds

/-!
# Lines, columns and offsets

A finding says twice what it replaces: as a range of bytes, which is what fixing goes by, and as
the lines and columns of both ends, which is what a reader goes by.  The two are worked out apart
from each other, the second by counting line feeds up to an offset.

A location leads back to an offset: the column is added to the start of the row.  Rows start in
order, and the offsets of a row come before the start of the next one, so that locations, compared
by line and then by column, are in the order of their offsets.

## Main definitions

* `Source.rowStarts` — the offsets at which the rows of a source start.
* `Source.OnRow` — an offset lies on a row.
* `Source.LeadsTo` — a line and a column lead to an offset.

## Main results

* `Source.exists_onRow_point` — counting line feeds up to an offset gives the row it lies on.
* `Source.leadsTo_point` — row and column of an offset lead back to it.
* `Source.LeadsTo.compare_eq` — locations are in the order of the offsets that they lead to.
* `location_agrees_with_range` — **the location of a finding leads to the range that it replaces.**
-/

namespace BindLint
namespace Source

/-! ### Rows -/

/-- The offsets at which the rows of a source start: its own start, and behind each line feed. -/
def rowStarts (src : Source) : List Nat := 0 :: (src.bytes.idxsOf lineFeed).map (· + 1)

theorem mem_rowStarts_iff {src : Source} {start : Nat} :
    start ∈ src.rowStarts ↔
      start = 0 ∨ ∃ offset, src.bytes[offset]? = some lineFeed ∧ offset + 1 = start := by
  simp only [rowStarts, List.mem_cons, List.mem_map, List.mem_idxsOf_iff_exists_getElem_pos,
    beq_iff_eq, List.getElem?_eq_some_iff]

theorem pairwise_rowStarts (src : Source) : src.rowStarts.Pairwise (· < ·) := by
  rw [rowStarts, List.pairwise_cons, List.pairwise_map]
  constructor
  · intro start hstart
    obtain ⟨offset, -, rfl⟩ := List.mem_map.1 hstart
    exact Nat.succ_pos offset
  · exact List.pairwise_idxsOf.imp Nat.succ_lt_succ

/-- A later row starts at a later offset. -/
theorem rowStart_lt_of_lt {src : Source} {row row' start start' : Nat}
    (h : src.rowStarts[row]? = some start) (h' : src.rowStarts[row']? = some start')
    (hlt : row < row') : start < start' := by
  obtain ⟨hrow, rfl⟩ := List.getElem?_eq_some_iff.1 h
  obtain ⟨hrow', rfl⟩ := List.getElem?_eq_some_iff.1 h'
  exact List.pairwise_iff_getElem.1 src.pairwise_rowStarts row row' hrow hrow' hlt

theorem rowStart_le_of_le {src : Source} {row row' start start' : Nat}
    (h : src.rowStarts[row]? = some start) (h' : src.rowStarts[row']? = some start')
    (hle : row ≤ row') : start ≤ start' := by
  rcases Nat.lt_or_eq_of_le hle with hlt | rfl
  · exact Nat.le_of_lt (rowStart_lt_of_lt h h' hlt)
  · rw [h] at h'
    exact Nat.le_of_eq (Option.some.inj h')

/-- Before a row there are all earlier rows, and none of them starts later. -/
theorem exists_rowStart_le {src : Source} {row row' start' : Nat}
    (h' : src.rowStarts[row']? = some start') (hle : row ≤ row') :
    ∃ start, src.rowStarts[row]? = some start ∧ start ≤ start' := by
  obtain ⟨hrow', -⟩ := List.getElem?_eq_some_iff.1 h'
  have hrow : row < src.rowStarts.length := by omega
  exact ⟨_, List.getElem?_eq_getElem hrow,
    rowStart_le_of_le (List.getElem?_eq_getElem hrow) h' hle⟩

/-- An offset lies on a row, which starts at some offset. -/
structure OnRow (src : Source) (row start offset : Nat) : Prop where
  /-- The row starts there. -/
  starts : src.rowStarts[row]? = some start
  /-- The offset does not lie before it. -/
  start_le : start ≤ offset
  /-- The next row, if there is one, starts behind the offset. -/
  lt_next : ∀ next, src.rowStarts[row + 1]? = some next → offset < next

namespace OnRow

variable {src : Source} {row start offset row' start' offset' : Nat}

theorem zero (src : Source) : src.OnRow 0 0 0 where
  starts := rfl
  start_le := Nat.le_refl 0
  lt_next := fun _ hnext => rowStart_lt_of_lt rfl hnext Nat.zero_lt_one

/-- A byte that is no line feed does not end the row. -/
theorem succ (h : src.OnRow row start offset) (hbyte : src.bytes[offset]? ≠ some lineFeed) :
    src.OnRow row start (offset + 1) where
  starts := h.starts
  start_le := Nat.le_succ_of_le h.start_le
  lt_next := by
    intro next hnext
    have hlt := h.lt_next next hnext
    rcases mem_rowStarts_iff.1 (List.mem_of_getElem? hnext) with rfl | ⟨i, hi, rfl⟩
    · exact absurd hlt (Nat.not_lt_zero _)
    · -- the row could end right here only at a line feed
      have hne : i ≠ offset := fun heq => hbyte (heq ▸ hi)
      omega

/-- Behind a line feed the next row starts. -/
theorem succ_of_lineFeed (h : src.OnRow row start offset)
    (hfeed : src.bytes[offset]? = some lineFeed) :
    src.OnRow (row + 1) (offset + 1) (offset + 1) := by
  have hmem : offset + 1 ∈ src.rowStarts := mem_rowStarts_iff.2 (Or.inr ⟨offset, hfeed, rfl⟩)
  obtain ⟨row', hrow'⟩ := List.mem_iff_getElem?.1 hmem
  have hlt : row < row' := by
    by_contra hge
    have := rowStart_le_of_le hrow' h.starts (Nat.le_of_not_lt hge)
    have := h.start_le
    omega
  -- some later row starts there, and the next one starts behind the line feed but not behind that
  obtain ⟨next, hnext, hle⟩ := exists_rowStart_le hrow' hlt
  have hbehind := h.lt_next next hnext
  have heq : next = offset + 1 := by omega
  rw [heq] at hnext
  exact ⟨hnext, Nat.le_refl _, fun _ hnext' => rowStart_lt_of_lt hnext hnext' (Nat.lt_succ_self _)⟩

/-- What lies on an earlier row lies at an earlier offset. -/
theorem lt_of_row_lt (h : src.OnRow row start offset) (h' : src.OnRow row' start' offset')
    (hlt : row < row') : offset < offset' := by
  obtain ⟨next, hnext, hle⟩ := exists_rowStart_le h'.starts hlt
  calc
    offset < next := h.lt_next next hnext
    _ ≤ start' := hle
    _ ≤ offset' := h'.start_le

theorem start_eq (h : src.OnRow row start offset) (h' : src.OnRow row start' offset') :
    start = start' :=
  Option.some.inj (h.starts.symm.trans h'.starts)

end OnRow

/-- An offset lies on its row, and its column counts from the start of the row. -/
theorem exists_onRow_point (src : Source) (offset : Nat) :
    ∃ start, src.OnRow (src.point offset).row start offset ∧
      start + (src.point offset).column = offset := by
  induction offset with
  | zero =>
    rw [point_zero]
    exact ⟨0, .zero src, rfl⟩
  | succ offset ih =>
    obtain ⟨start, hrow, hsum⟩ := ih
    rw [point_succ]
    split
    · next hfeed => exact ⟨offset + 1, hrow.succ_of_lineFeed hfeed, rfl⟩
    · next hbyte => exact ⟨start, hrow.succ hbyte, congrArg (· + 1) hsum⟩

/-! ### Locations -/

/-- A line and a column lead to an offset: it lies on that row, and the start of the row and the
column add up to it.  Lines count from one, rows from zero. -/
def LeadsTo (src : Source) (line column offset : Int) : Prop :=
  ∃ row start n : Nat, src.OnRow row start n ∧ line = row + 1 ∧ start + column = n ∧ offset = n

/-- Row and column of an offset lead back to it. -/
theorem leadsTo_point (src : Source) (offset : Nat) :
    src.LeadsTo ((src.point offset).row + 1) (src.point offset).column offset := by
  obtain ⟨start, hrow, hsum⟩ := src.exists_onRow_point offset
  exact ⟨_, start, offset, hrow, rfl, congrArg Nat.cast hsum, rfl⟩

namespace LeadsTo

variable {src : Source} {line column offset line' column' offset' : Int}

/-- An earlier line leads to an earlier offset. -/
theorem lt_of_line_lt (h : src.LeadsTo line column offset)
    (h' : src.LeadsTo line' column' offset') (hlt : line < line') : offset < offset' := by
  obtain ⟨row, start, n, hrow, rfl, -, rfl⟩ := h
  obtain ⟨row', start', n', hrow', rfl, -, rfl⟩ := h'
  exact Int.ofNat_lt.2 (hrow.lt_of_row_lt hrow' (by omega))

/-- On one line the offsets are as far apart as the columns. -/
theorem sub_eq (h : src.LeadsTo line column offset) (h' : src.LeadsTo line column' offset') :
    offset' - offset = column' - column := by
  obtain ⟨row, start, n, hrow, hline, hsum, rfl⟩ := h
  obtain ⟨row', start', n', hrow', hline', hsum', rfl⟩ := h'
  have hsame : row' = row := by omega
  rw [hsame] at hrow'
  have hstart := hrow.start_eq hrow'
  omega

/-- Locations, compared by line and then by column, are in the order of their offsets. -/
theorem compare_eq (h : src.LeadsTo line column offset)
    (h' : src.LeadsTo line' column' offset') :
    (compare line line').then (compare column column') = compare offset offset' := by
  rcases Int.lt_trichotomy line line' with hlt | rfl | hgt
  · rw [Int.compare_eq_lt.2 hlt, Int.compare_eq_lt.2 (h.lt_of_line_lt h' hlt)]
    rfl
  · rw [Int.compare_eq_eq.2 rfl]
    have hsub := h.sub_eq h'
    rcases Int.lt_trichotomy column column' with hlt | heq | hgt
    · rw [Int.compare_eq_lt.2 hlt, Int.compare_eq_lt.2 (by omega)]
      rfl
    · rw [Int.compare_eq_eq.2 heq, Int.compare_eq_eq.2 (by omega)]
      rfl
    · rw [Int.compare_eq_gt.2 hgt, Int.compare_eq_gt.2 (by omega)]
      rfl
  · rw [Int.compare_eq_gt.2 hgt, Int.compare_eq_gt.2 (h'.lt_of_line_lt h hgt)]
    rfl

end LeadsTo
end Source

/-! ### Findings -/

/-- The location of what the rule reports leads to the range that it offers to replace. -/
theorem leadsTo_of_check {o : Options} {src : Source} {p : Place} {hit : Hit}
    (h : check o src p = .ok (some hit)) :
    ∃ s : Suggestion, hit.finding.suggestions = [s] ∧
      src.LeadsTo hit.finding.line hit.finding.column s.start ∧
      src.LeadsTo hit.finding.endLine hit.finding.endColumn s.stop := by
  rcases check_ok h with ⟨-, hnone⟩ | ⟨s, pl, -, -, ⟨-, hnone⟩ | ⟨-, hit', hmake, heq⟩⟩
  · cases hnone
  · cases hnone
  · cases heq
    obtain ⟨edit, replaced, -, -, rfl⟩ := Hit.make_ok hmake
    exact ⟨_, rfl, src.leadsTo_point edit.target.span.start,
      src.leadsTo_point edit.target.span.stop⟩

/-- **The location of a finding leads to the range that it replaces**, at both ends and whatever
the tree, and any two findings of a pass are in the same order by line and column as by the offsets
at which what they replace starts. -/
theorem location_agrees_with_range (o : Options) :
    (∀ (src : Source) (p : Place) (hit : Hit), check o src p = .ok (some hit) →
      ∃ s : Suggestion, hit.finding.suggestions = [s] ∧
        src.LeadsTo hit.finding.line hit.finding.column s.start ∧
        src.LeadsTo hit.finding.endLine hit.finding.endColumn s.stop) ∧
    ∀ (parse : Parser) (path : Path) (text : String) (fs : List Finding),
      (lint parse o path text).findings = .ok fs → ∀ f ∈ fs, ∀ g ∈ fs,
        ∃ s t : Suggestion, f.suggestions = [s] ∧ g.suggestions = [t] ∧
          compareLex (compareOn Finding.line) (compareOn Finding.column) f g =
            compare s.start t.start := by
  constructor
  · intro src p hit hcheck
    exact leadsTo_of_check hcheck
  · intro parse path text fs hfs f hf g hg
    obtain ⟨hit, hhit, rfl⟩ := exists_hit_of_mem_findings hfs f hf
    obtain ⟨hit', hhit', rfl⟩ := exists_hit_of_mem_findings hfs g hg
    obtain ⟨p, -, -, hcheck⟩ := exists_check_of_mem_hits hhit
    obtain ⟨p', -, -, hcheck'⟩ := exists_check_of_mem_hits hhit'
    obtain ⟨s, hs, hstart, -⟩ := leadsTo_of_check hcheck
    obtain ⟨t, ht, hstart', -⟩ := leadsTo_of_check hcheck'
    exact ⟨s, t, hs, ht, hstart.compare_eq hstart'⟩

/-- A text with a byte order mark and both kinds of line ends.  The first of its calls starts on
the second line and stops on the third; the closure in the other one starts the last line. -/
def manyLinesText : String := "\uFEFFé;\r\n  setTimeout(\n() => é.m(x));\r\non(\n() => a.b())"

/-- The tree of `manyLinesText`. -/
def manyLinesTree : Node :=
  .part ⟨"program"⟩ 0 55 none
    [.part .call 10 36 none
      [.part .identifier 10 20 (some .function) [],
        .part .arguments 20 36 (some .arguments)
          [forwardingTree 22 35 .identifier ⟨28, 30⟩ 31 [.part .identifier 33 34 none []]]],
      .part .call 39 55 none
        [.part .identifier 39 41 (some .function) [],
          .part .arguments 41 55 (some .arguments)
            [forwardingTree 43 54 .identifier ⟨49, 50⟩ 51 []]]]

/-- The call comes first although it starts at a later column; its end is found on another line
than its start. -/
theorem location_agrees_with_range_manyLines :
    let o : Options := ⟨true, ["on"], false⟩
    let src : Source := .ofText manyLinesText
    let pass := lint (fun _ _ => manyLinesTree) o ⟨0, ["a.js"]⟩ manyLinesText
    ∃ (p : Place) (hit : Hit) (f g : Finding) (s t : Suggestion),
      p ∈ manyLinesTree.places ∧ check o src p = .ok (some hit) ∧ hit.finding = f ∧
      pass.findings = .ok [f, g] ∧ f.suggestions = [s] ∧ g.suggestions = [t] ∧
      (f.line, f.column, f.endLine, f.endColumn) = (2, 2, 3, 14) ∧
      (g.line, g.column, g.endLine, g.endColumn) = (5, 0, 5, 11) ∧
      src.LeadsTo f.line f.column s.start ∧ src.LeadsTo f.endLine f.endColumn s.stop ∧
      compareLex (compareOn Finding.line) (compareOn Finding.column) f g =
        compare s.start t.start := by
  intro o src pass
  have hstopped : pass.stopped = none := by decide +kernel
  have hlocations : pass.hits.map (fun hit =>
      (hit.finding.line, hit.finding.column, hit.finding.endLine, hit.finding.endColumn)) =
        [(2, 2, 3, 14), (5, 0, 5, 11)] := by decide +kernel
  obtain ⟨h, h', hhits⟩ : ∃ h h', pass.hits = [h, h'] := by
    have hlength := congrArg List.length hlocations
    rw [List.length_map] at hlength
    exact List.length_eq_two.1 hlength
  rw [hhits] at hlocations
  obtain ⟨hf, hlocations⟩ := List.cons.inj hlocations
  obtain ⟨hg, -⟩ := List.cons.inj hlocations
  have hfs : pass.findings = .ok [h.finding, h'.finding] :=
    Pass.findings_eq_ok_iff.2 ⟨hstopped, by rw [hhits]; rfl⟩
  obtain ⟨hlocated, hordered⟩ := location_agrees_with_range o
  obtain ⟨hit, hhit, hfinding⟩ := exists_hit_of_mem_findings hfs h.finding (by simp)
  obtain ⟨p, hp, -, hcheck⟩ := exists_check_of_mem_hits hhit
  obtain ⟨s, hs, hstart, hstop⟩ := hlocated src p hit hcheck
  rw [hfinding] at hs hstart hstop
  obtain ⟨s', t, hs', ht, horder⟩ :=
    hordered _ _ _ _ hfs h.finding (by simp) h'.finding (by simp)
  rw [hs] at hs'
  cases hs'
  exact ⟨p, hit, h.finding, h'.finding, s, t, hp, hcheck, hfinding, hfs, hs, ht, hf, hg, hstart,
    hstop, horder⟩

end BindLint
