import BindLint.Proofs.Boundary
import BindLint.Splice

/-!
# One sweep against one splice at a time

A sweep goes over the suggestions once, from left to right, and rebuilds the text
from what stands between the ranges it replaces.  The plain way to apply a
suggestion is a *splice*: cut the text before and after the range and put the new
bytes in between.  Splicing moves everything behind the range, so several
suggestions must be spliced from the last to the first.

A sweep is a selection (`taken`, `leftOver`) followed by a rebuilding of the text
(`rebuilt`).  What is taken does not overlap, and what is left over starts inside
something that was taken; the rebuilt text is the one that the splices give.

The suggestions are sorted by their ranges first, so that the order of the findings shows only
where two suggestions for one range differ in their texts.

## Main definitions

* `Splice.taken`, `Splice.leftOver` — what a sweep applies, and what it skips.
* `Splice.rebuilt` — the bytes from a cursor on, with ranges replaced.
* `Splice.splice` — one range replaced.
* `Suggestion.Fits` — a range of a text that cuts no character.
* `Splice.TiesAgree` — suggestions for the same range offer the same text.

## Main results

* `Splice.sweep_eq` — a sweep rebuilds with what it takes, and counts the rest.
* `Splice.foldr_splice` — rebuilding is splicing from the last to the first.
* `Splice.exists_gaps` — what stands between the ranges stays as it is.
* `applySuggestions_eq_splices` — **applying suggestions is splicing a selection
  of them.**
* `applySuggestions_eq_of_perm` — **the order of findings does not matter.**
-/

namespace BindLint
namespace Splice

/-! ### The selection -/

/-- The suggestions that a sweep from a cursor applies. -/
def taken : Int → List Suggestion → List Suggestion
  | _, [] => []
  | cursor, s :: ss => if s.start < cursor then taken cursor ss else s :: taken s.stop ss

/-- The suggestions that a sweep from a cursor skips. -/
def leftOver : Int → List Suggestion → List Suggestion
  | _, [] => []
  | cursor, s :: ss => if s.start < cursor then s :: leftOver cursor ss else leftOver s.stop ss

/-- Every suggestion is either taken or left over, once. -/
theorem perm_taken_append_leftOver (cursor : Int) (ss : List Suggestion) :
    ss.Perm (taken cursor ss ++ leftOver cursor ss) := by
  induction ss generalizing cursor with
  | nil => exact List.Perm.refl _
  | cons s ss ih =>
    rw [taken, leftOver]
    split
    · exact ((ih cursor).cons s).trans List.perm_middle.symm
    · exact (ih s.stop).cons s

theorem taken_sublist (cursor : Int) (ss : List Suggestion) : (taken cursor ss).Sublist ss := by
  induction ss generalizing cursor with
  | nil => exact List.Sublist.refl _
  | cons s ss ih =>
    rw [taken]
    split
    · exact (ih cursor).cons s
    · exact (ih s.stop).cons_cons s

/-- What is taken starts at the cursor or behind it. -/
theorem le_start_of_mem_taken {cursor : Int} {ss : List Suggestion}
    (hss : ∀ s ∈ ss, s.start ≤ s.stop) : ∀ a ∈ taken cursor ss, cursor ≤ a.start := by
  induction ss generalizing cursor with
  | nil => simp [taken]
  | cons s ss ih =>
    have htail : ∀ r ∈ ss, r.start ≤ r.stop := fun r hr => hss r (List.mem_cons_of_mem s hr)
    intro a ha
    rw [taken] at ha
    split at ha
    · exact ih htail a ha
    · have hs := hss s List.mem_cons_self
      rcases List.mem_cons.1 ha with rfl | ha
      · omega
      · have := ih htail a ha
        omega

/-- What is taken stops before the next one that is taken starts. -/
theorem pairwise_taken (cursor : Int) {ss : List Suggestion} (hss : ∀ s ∈ ss, s.start ≤ s.stop) :
    (taken cursor ss).Pairwise fun a b => a.stop ≤ b.start := by
  induction ss generalizing cursor with
  | nil => exact List.Pairwise.nil
  | cons s ss ih =>
    have htail : ∀ r ∈ ss, r.start ≤ r.stop := fun r hr => hss r (List.mem_cons_of_mem s hr)
    rw [taken]
    split
    · exact ih cursor htail
    · exact List.pairwise_cons.2 ⟨le_start_of_mem_taken htail, ih s.stop htail⟩

/-- What is left over of suggestions in order starts before the cursor or inside
something that is taken. -/
theorem mem_leftOver {cursor : Int} {ss : List Suggestion}
    (hss : ss.Pairwise fun a b => a.start ≤ b.start) :
    ∀ s ∈ leftOver cursor ss,
      s.start < cursor ∨ ∃ a ∈ taken cursor ss, a.start ≤ s.start ∧ s.start < a.stop := by
  induction ss generalizing cursor with
  | nil => simp [leftOver]
  | cons r ss ih =>
    obtain ⟨hr, htail⟩ := List.pairwise_cons.1 hss
    intro s hs
    rw [leftOver] at hs
    rw [taken]
    split at hs
    · next hlt =>
      rw [if_pos hlt]
      rcases List.mem_cons.1 hs with rfl | hs
      · exact Or.inl hlt
      · exact ih htail s hs
    · next hlt =>
      rw [if_neg hlt]
      have hmem : s ∈ ss :=
        (perm_taken_append_leftOver r.stop ss).symm.subset (List.mem_append_right _ hs)
      -- the cursor is now the end of what was just taken
      rcases ih htail s hs with h | ⟨a, ha, h⟩
      · exact Or.inr ⟨r, List.mem_cons_self, hr s hmem, h⟩
      · exact Or.inr ⟨a, List.mem_cons_of_mem r ha, h⟩

/-! ### Rebuilding -/

/-- The bytes from a cursor on, with the ranges of some suggestions replaced. -/
def rebuilt (bytes : List UInt8) : Int → List Suggestion → List UInt8
  | cursor, [] => sliceFrom bytes cursor
  | cursor, s :: ss => slice bytes cursor s.start ++ Utf8.encode s.text ++ rebuilt bytes s.stop ss

/-- A sweep rebuilds the bytes with what it takes, and counts the rest. -/
theorem sweep_eq (bytes : List UInt8) (cursor : Int) (ss : List Suggestion) :
    sweep bytes cursor ss =
      ⟨rebuilt bytes cursor (taken cursor ss), (taken cursor ss).length,
        (leftOver cursor ss).length⟩ := by
  induction ss generalizing cursor with
  | nil => rfl
  | cons s ss ih =>
    rw [sweep, taken, leftOver]
    split
    · rw [ih cursor, List.length_cons]
    · rw [ih s.stop, rebuilt, List.length_cons]

theorem slice_of_nonneg (bytes : List UInt8) {i j : Int} (hi : 0 ≤ i) (hj : 0 ≤ j) :
    slice bytes i j = (bytes.drop i.toNat).take (j.toNat - i.toNat) := by
  rw [← slice_natCast, Int.toNat_of_nonneg hi, Int.toNat_of_nonneg hj]

theorem sliceFrom_of_nonneg (bytes : List UInt8) {i : Int} (hi : 0 ≤ i) :
    sliceFrom bytes i = bytes.drop i.toNat := by
  rw [← sliceFrom_natCast, Int.toNat_of_nonneg hi]

theorem take_append_slice (bytes : List UInt8) {i j : Int} (hi : 0 ≤ i) (hij : i ≤ j) :
    bytes.take i.toNat ++ slice bytes i j = bytes.take j.toNat := by
  have hle : i.toNat + (j.toNat - i.toNat) = j.toNat := by omega
  rw [slice_of_nonneg bytes hi (by omega), ← List.take_add, hle]

theorem slice_append_sliceFrom (bytes : List UInt8) {i j : Int} (hi : 0 ≤ i) (hij : i ≤ j) :
    slice bytes i j ++ sliceFrom bytes j = sliceFrom bytes i := by
  have hdrop : bytes.drop j.toNat = (bytes.drop i.toNat).drop (j.toNat - i.toNat) := by
    rw [List.drop_drop]
    congr 1
    omega
  rw [slice_of_nonneg bytes hi (by omega), sliceFrom_of_nonneg bytes (by omega),
    sliceFrom_of_nonneg bytes hi, hdrop, List.take_append_drop]

/-! ### Splices -/

/-- The bytes with the range of one suggestion replaced. -/
def splice (s : Suggestion) (bytes : List UInt8) : List UInt8 :=
  bytes.take s.start.toNat ++ Utf8.encode s.text ++ bytes.drop s.stop.toNat

/-- Splicing in front of what was rebuilt moves the cursor back over one range. -/
theorem splice_take_append {bytes rest : List UInt8} {s : Suggestion} (hs : s.start ≤ s.stop)
    (hlen : s.stop ≤ bytes.length) :
    splice s (bytes.take s.stop.toNat ++ rest) =
      bytes.take s.start.toNat ++ Utf8.encode s.text ++ rest := by
  have hstop : (bytes.take s.stop.toNat).length = s.stop.toNat := by
    rw [List.length_take]
    omega
  have hmin : min s.start.toNat s.stop.toNat = s.start.toNat := by omega
  rw [splice, List.take_append_of_le_length (by omega), List.take_take, hmin,
    List.drop_append_of_le_length (by omega), List.drop_eq_nil_of_le (by omega),
    List.nil_append]

/-- Rebuilding with ranges that do not overlap is splicing them from the last to the
first, behind the bytes before the cursor. -/
theorem foldr_splice {bytes : List UInt8} {cursor : Int} {ss : List Suggestion}
    (hcursor : 0 ≤ cursor)
    (hss : ∀ s ∈ ss, cursor ≤ s.start ∧ s.start ≤ s.stop ∧ s.stop ≤ bytes.length)
    (hapart : ss.Pairwise fun a b => a.stop ≤ b.start) :
    ss.foldr splice bytes = bytes.take cursor.toNat ++ rebuilt bytes cursor ss := by
  induction ss generalizing cursor with
  | nil => rw [rebuilt, sliceFrom_of_nonneg bytes hcursor, List.foldr_nil, List.take_append_drop]
  | cons s ss ih =>
    obtain ⟨hfirst, hapart⟩ := List.pairwise_cons.1 hapart
    obtain ⟨hle, hs, hlen⟩ := hss s List.mem_cons_self
    have htail : ∀ r ∈ ss, s.stop ≤ r.start ∧ r.start ≤ r.stop ∧ r.stop ≤ bytes.length :=
      fun r hr => ⟨hfirst r hr, (hss r (List.mem_cons_of_mem s hr)).2⟩
    calc (s :: ss).foldr splice bytes
        = splice s (bytes.take s.stop.toNat ++ rebuilt bytes s.stop ss) := by
          rw [List.foldr_cons, ih (by omega) htail hapart]
      _ = bytes.take s.start.toNat ++ Utf8.encode s.text ++ rebuilt bytes s.stop ss :=
          splice_take_append hs hlen
      _ = bytes.take cursor.toNat ++ rebuilt bytes cursor (s :: ss) := by
          rw [rebuilt, ← take_append_slice bytes hcursor hle]
          simp only [List.append_assoc]

/-- Pieces and what follows each of them, one after the other. -/
def weave (gaps : List (List UInt8)) (pieces : List (List UInt8)) : List UInt8 :=
  (List.zipWith (· ++ ·) gaps pieces).flatten

/-- Around ranges that do not overlap, the old bytes and the rebuilt ones have the
same gaps in the same order. -/
theorem exists_gaps (bytes : List UInt8) {cursor : Int} {ss : List Suggestion}
    (hcursor : 0 ≤ cursor) (hss : ∀ s ∈ ss, cursor ≤ s.start ∧ s.start ≤ s.stop)
    (hapart : ss.Pairwise fun a b => a.stop ≤ b.start) :
    ∃ (gaps : List (List UInt8)) (last : List UInt8), gaps.length = ss.length ∧
      sliceFrom bytes cursor =
        weave gaps (ss.map fun s => slice bytes s.start s.stop) ++ last ∧
      rebuilt bytes cursor ss = weave gaps (ss.map fun s => Utf8.encode s.text) ++ last := by
  induction ss generalizing cursor with
  | nil => exact ⟨[], sliceFrom bytes cursor, rfl, rfl, rfl⟩
  | cons s ss ih =>
    obtain ⟨hfirst, hapart⟩ := List.pairwise_cons.1 hapart
    obtain ⟨hle, hs⟩ := hss s List.mem_cons_self
    have htail : ∀ r ∈ ss, s.stop ≤ r.start ∧ r.start ≤ r.stop :=
      fun r hr => ⟨hfirst r hr, (hss r (List.mem_cons_of_mem s hr)).2⟩
    obtain ⟨gaps, last, hlen, hold, hnew⟩ := ih (by omega) htail hapart
    refine ⟨slice bytes cursor s.start :: gaps, last, by rw [List.length_cons, hlen]; rfl, ?_, ?_⟩
    · rw [← slice_append_sliceFrom bytes hcursor hle,
        ← slice_append_sliceFrom bytes (by omega) hs, hold]
      simp [weave]
    · rw [rebuilt, hnew]
      simp [weave]

end Splice

/-! ### Whole texts -/

/-- A suggestion replaces a range of a text and cuts no character in two. -/
structure Suggestion.Fits (s : Suggestion) (text : String) : Prop where
  /-- It does not start before the text. -/
  start_nonneg : 0 ≤ s.start
  /-- It does not run backwards. -/
  start_le_stop : s.start ≤ s.stop
  /-- It does not reach beyond the text. -/
  stop_le_length : s.stop ≤ (Utf8.encode text).length
  /-- It starts between two characters. -/
  start_boundary : Utf8.IsBoundary text s.start.toNat
  /-- It stops between two characters. -/
  stop_boundary : Utf8.IsBoundary text s.stop.toNat

namespace Splice

/-- Rebuilding a text with ranges between boundaries gives a text, even where a range runs
backwards. -/
theorem exists_encode_rebuilt_of_boundary {text : String} {cursor : Int} {ss : List Suggestion}
    (hcursor : 0 ≤ cursor) (hbound : Utf8.IsBoundary text cursor.toNat)
    (hss : ∀ s ∈ ss, (0 ≤ s.start ∧ Utf8.IsBoundary text s.start.toNat) ∧
      0 ≤ s.stop ∧ Utf8.IsBoundary text s.stop.toNat) :
    ∃ new : String, rebuilt (Utf8.encode text) cursor ss = Utf8.encode new := by
  induction ss generalizing cursor with
  | nil =>
    obtain ⟨-, after, -, hdrop⟩ := hbound.exists_cut
    exact ⟨after, by rw [rebuilt, sliceFrom_of_nonneg _ hcursor, hdrop]⟩
  | cons s ss ih =>
    obtain ⟨⟨hstart, hstartb⟩, hstop, hstopb⟩ := hss s List.mem_cons_self
    obtain ⟨gap, hgap⟩ := Utf8.exists_encode_between hbound hstartb
    obtain ⟨rest, hrest⟩ := ih hstop hstopb fun r hr => hss r (List.mem_cons_of_mem s hr)
    refine ⟨gap ++ s.text ++ rest, ?_⟩
    rw [rebuilt, slice_of_nonneg _ hcursor hstart, hgap, hrest, Utf8.encode_append,
      Utf8.encode_append]

/-- Rebuilding a text with ranges that cut no character gives a text. -/
theorem exists_encode_rebuilt {text : String} {cursor : Int} {ss : List Suggestion}
    (hcursor : 0 ≤ cursor) (hbound : Utf8.IsBoundary text cursor.toNat)
    (hss : ∀ s ∈ ss, s.Fits text) :
    ∃ new : String, rebuilt (Utf8.encode text) cursor ss = Utf8.encode new := by
  refine exists_encode_rebuilt_of_boundary hcursor hbound fun s hs => ?_
  have hfits := hss s hs
  exact ⟨⟨hfits.start_nonneg, hfits.start_boundary⟩,
    Int.le_trans hfits.start_nonneg hfits.start_le_stop, hfits.stop_boundary⟩

theorem before_trans (a b c : Suggestion) (hab : before a b = true) (hbc : before b c = true) :
    before a c = true := by
  simp only [before, decide_eq_true_eq] at *
  omega

theorem before_total (a b : Suggestion) : (before a b || before b a) = true := by
  simp only [before, Bool.or_eq_true, decide_eq_true_eq]
  omega

/-- Sorted suggestions are in order. -/
theorem pairwise_sorted (ss : List Suggestion) :
    (ss.mergeSort before).Pairwise fun a b => before a b = true :=
  List.pairwise_mergeSort before_trans before_total ss

theorem start_le_of_before {a b : Suggestion} (h : before a b = true) : a.start ≤ b.start := by
  simp only [before, decide_eq_true_eq] at h
  omega

theorem length_offered (fs : List Finding) :
    (offered fs).length = (fs.filter fun f => !f.suggestions.isEmpty).length := by
  rw [offered, List.length_filterMap_eq_countP, List.countP_eq_length_filter]
  congr 2
  funext f
  cases f.suggestions <;> rfl

/-- Suggestions chosen for a text and those passed over, and what applying gave:
the chosen ones, spliced into the text one at a time. -/
structure Selection (text : String) (ss : List Suggestion) (chosen passed : List Suggestion)
    (out : Applied) : Prop where
  /-- Each suggestion is chosen or passed over. -/
  perm : ss.Perm (chosen ++ passed)
  /-- The chosen ones are in the order of their ranges. -/
  ordered : chosen.Pairwise fun a b => before a b = true
  /-- They do not overlap. -/
  apart : chosen.Pairwise fun a b => a.stop ≤ b.start
  /-- One that was passed over starts inside a chosen one. -/
  inside : ∀ s ∈ passed, ∃ a ∈ chosen, a.start ≤ s.start ∧ s.start < a.stop
  /-- The chosen ones are counted as applied. -/
  applied : out.applied = chosen.length
  /-- The others are counted as skipped. -/
  skipped : out.skipped = passed.length
  /-- The new text is spliced from the old one, from the last range to the first. -/
  spliced : Utf8.encode out.text = chosen.foldr splice (Utf8.encode text)
  /-- Outside the chosen ranges the bytes are the same, in the same order. -/
  gaps : ∃ (gaps : List (List UInt8)) (last : List UInt8), gaps.length = chosen.length ∧
    Utf8.encode text =
      weave gaps (chosen.map fun s => slice (Utf8.encode text) s.start s.stop) ++ last ∧
    Utf8.encode out.text = weave gaps (chosen.map fun s => Utf8.encode s.text) ++ last

end Splice

/-- Suggestions in order that fit a text give a selection. -/
theorem Splice.selection_taken {text new : String} {ss : List Suggestion}
    (hfits : ∀ s ∈ ss, s.Fits text) (hsorted : ss.Pairwise fun a b => before a b = true)
    (hnew : rebuilt (Utf8.encode text) 0 (taken 0 ss) = Utf8.encode new) :
    Selection text ss (taken 0 ss) (leftOver 0 ss)
      ⟨new, (taken 0 ss).length, (leftOver 0 ss).length⟩ := by
  have hsub : ∀ s ∈ taken 0 ss, s.Fits text :=
    fun s hs => hfits s ((taken_sublist 0 ss).subset hs)
  have hrange : ∀ s ∈ taken 0 ss, 0 ≤ s.start ∧ s.start ≤ s.stop :=
    fun s hs => ⟨(hsub s hs).start_nonneg, (hsub s hs).start_le_stop⟩
  have hapart := pairwise_taken 0 fun s hs => (hfits s hs).start_le_stop
  refine
    { perm := perm_taken_append_leftOver 0 ss
      ordered := hsorted.sublist (taken_sublist 0 ss)
      apart := hapart
      inside := ?_
      applied := rfl
      skipped := rfl
      spliced := ?_
      gaps := ?_ }
  · intro s hs
    have hmem : s ∈ ss :=
      (perm_taken_append_leftOver 0 ss).symm.subset (List.mem_append_right _ hs)
    -- nothing starts before the text, where the cursor stands at first
    rcases mem_leftOver (hsorted.imp start_le_of_before) s hs with hlt | h
    · have := (hfits s hmem).start_nonneg
      omega
    · exact h
  · rw [← hnew, foldr_splice (Int.le_refl 0)
      (fun s hs => ⟨(hrange s hs).1, (hrange s hs).2, (hsub s hs).stop_le_length⟩) hapart]
    rfl
  · obtain ⟨gaps, last, hlen, hold, hrebuilt⟩ :=
      exists_gaps (Utf8.encode text) (Int.le_refl 0) hrange hapart
    refine ⟨gaps, last, hlen, ?_, ?_⟩
    · rw [← hold]
      rfl
    · rw [← hrebuilt, hnew]

/-- Suggestions that are in order are swept as they are. -/
theorem applySuggestions_of_pairwise {text : String} {fs : List Finding}
    (h : (Splice.offered fs).Pairwise fun a b => Splice.before a b = true) :
    applySuggestions text fs =
      let swept := Splice.sweep (Utf8.encode text) 0 (Splice.offered fs)
      (Utf8.decode swept.bytes).map fun new => ⟨new, swept.applied, swept.skipped⟩ := by
  rw [applySuggestions, List.mergeSort_of_pairwise h]

/-- **Applying suggestions is splicing a selection of them**, for ranges that lie in
the text and cut no character: it gives a text, each finding with a suggestion is
counted once, and the selection leaves out only what overlaps it. -/
theorem applySuggestions_eq_splices (text : String) (fs : List Finding)
    (hfits : ∀ s ∈ Splice.offered fs, s.Fits text) :
    ∃ chosen passed out, applySuggestions text fs = .ok out ∧
      Splice.Selection text (Splice.offered fs) chosen passed out ∧
      out.applied + out.skipped = (fs.filter fun f => !f.suggestions.isEmpty).length := by
  let ss := (Splice.offered fs).mergeSort Splice.before
  have hperm : (Splice.offered fs).Perm ss := (List.mergeSort_perm _ _).symm
  have hss : ∀ s ∈ ss, s.Fits text := fun s hs => hfits s (hperm.symm.subset hs)
  obtain ⟨new, hnew⟩ :=
    Splice.exists_encode_rebuilt (Int.le_refl 0) (Utf8.isBoundary_zero text)
      fun s hs => hss s ((Splice.taken_sublist 0 ss).subset hs)
  have hsel := Splice.selection_taken hss (Splice.pairwise_sorted _) hnew
  refine ⟨_, _, _, ?_, { hsel with perm := hperm.trans hsel.perm }, ?_⟩
  · show (Utf8.decode (Splice.sweep (Utf8.encode text) 0 ss).bytes).map _ = _
    rw [Splice.sweep_eq, hnew, Utf8.decode_encode]
    rfl
  · rw [← Splice.length_offered, hperm.length_eq, hsel.perm.length_eq, List.length_append]

/-- Two suggestions for one range behind a character of two bytes, and one that
touches them: the first and the last are applied. -/
theorem applySuggestions_eq_splices_touching :
    let found (start stop : Int) (text : String) : Finding :=
      ⟨"", text, 1, start, 1, stop, [⟨start, stop, text⟩]⟩
    let fs := [found 4 4 "z", found 3 4 "x", found 3 4 "y"]
    (∀ s ∈ Splice.offered fs, s.Fits "aéb") ∧
      ∃ chosen passed out, applySuggestions "aéb" fs = .ok out ∧
        Splice.Selection "aéb" (Splice.offered fs) chosen passed out ∧
        out.applied + out.skipped = 3 := by
  intro found fs
  have hthree : Utf8.IsBoundary "aéb" 3 := ⟨"aé", "b", by decide, by decide⟩
  have hfour : Utf8.IsBoundary "aéb" 4 := ⟨"aéb", "", by decide, by decide⟩
  have hfits : ∀ s ∈ Splice.offered fs, s.Fits "aéb" := by
    intro s hs
    have hs' : s = ⟨4, 4, "z"⟩ ∨ s = ⟨3, 4, "x"⟩ ∨ s = ⟨3, 4, "y"⟩ := by
      simpa [fs, found, Splice.offered] using hs
    rcases hs' with rfl | rfl | rfl
    · exact ⟨by decide, by decide, by decide, hfour, hfour⟩
    · exact ⟨by decide, by decide, by decide, hthree, hfour⟩
    · exact ⟨by decide, by decide, by decide, hthree, hfour⟩
  exact ⟨hfits, applySuggestions_eq_splices "aéb" fs hfits⟩

/-! ### The order of findings -/

namespace Splice

/-- Suggestions for the same range offer the same text. -/
def TiesAgree (ss : List Suggestion) : Prop :=
  ∀ a ∈ ss, ∀ b ∈ ss, a.start = b.start → a.stop = b.stop → a.text = b.text

instance (ss : List Suggestion) : Decidable (TiesAgree ss) :=
  inferInstanceAs
    (Decidable (∀ a ∈ ss, ∀ b ∈ ss, a.start = b.start → a.stop = b.stop → a.text = b.text))

/-- Suggestions that stand before each other are for the same range. -/
theorem same_range_of_before {a b : Suggestion} (hab : before a b = true)
    (hba : before b a = true) : a.start = b.start ∧ a.stop = b.stop := by
  simp only [before, decide_eq_true_eq] at hab hba
  omega

/-- Suggestions are sorted into one order, whatever order they came in. -/
theorem sorted_eq_of_perm {ss ts : List Suggestion} (hperm : ss.Perm ts) (hties : TiesAgree ss) :
    ss.mergeSort before = ts.mergeSort before := by
  have hsorted : (ss.mergeSort before).Perm (ts.mergeSort before) :=
    (List.mergeSort_perm ss before).trans (hperm.trans (List.mergeSort_perm ts before).symm)
  refine hsorted.eq_of_pairwise ?_ (pairwise_sorted ss) (pairwise_sorted ts)
  intro a b ha hb hab hba
  -- the sort cannot tell two suggestions for one range apart, but then they are equal
  have hmem : a ∈ ss := (List.mergeSort_perm ss before).subset ha
  have hmem' : b ∈ ss := hperm.symm.subset ((List.mergeSort_perm ts before).subset hb)
  obtain ⟨hstart, hstop⟩ := same_range_of_before hab hba
  have htext := hties a hmem b hmem' hstart hstop
  cases a
  cases b
  simp only [Suggestion.mk.injEq]
  exact ⟨hstart, hstop, htext⟩

end Splice

/-- **The order of findings does not matter** when they are applied, as long as suggestions for the
same range offer the same text: the new text and both counts are the same, or the bytes fail to be
a text in the same way.  The ranges may lie anywhere. -/
theorem applySuggestions_eq_of_perm (text : String) (fs gs : List Finding) (hperm : fs.Perm gs)
    (hties : Splice.TiesAgree (Splice.offered fs)) :
    applySuggestions text fs = applySuggestions text gs := by
  have hoffered : (Splice.offered fs).Perm (Splice.offered gs) := hperm.filterMap _
  unfold applySuggestions
  rw [Splice.sorted_eq_of_perm hoffered hties]

/-- Findings from the last to the first: one beyond the end of the text, one twice for a character
of two bytes, one without a suggestion, and one that starts before the text. -/
theorem applySuggestions_eq_of_perm_reversed :
    let found (start stop : Int) (text : String) : Finding :=
      ⟨"", text, 1, start, 1, stop, [⟨start, stop, text⟩]⟩
    let gs := [found (-1) 1 "y", found 1 3 "x", ⟨"", "", 1, 0, 1, 0, []⟩, found 1 3 "x",
      found 3 9 "z"]
    gs.reverse.Perm gs ∧ Splice.TiesAgree (Splice.offered gs.reverse) ∧
      applySuggestions "aéb" gs.reverse = .ok ⟨"axz", 2, 2⟩ := by
  intro found gs
  have hperm : gs.reverse.Perm gs := List.reverse_perm gs
  have hties : Splice.TiesAgree (Splice.offered gs.reverse) := by decide
  have hswept : Splice.sweep (Utf8.encode "aéb") 0 (Splice.offered gs) =
      ⟨Utf8.encode "axz", 2, 2⟩ := by decide
  have happlied : applySuggestions "aéb" gs = .ok ⟨"axz", 2, 2⟩ := by
    rw [applySuggestions_of_pairwise (by decide), hswept]
    simp only [Utf8.decode_encode]
    rfl
  exact ⟨hperm, hties, (applySuggestions_eq_of_perm "aéb" gs.reverse gs hperm hties).trans happlied⟩

end BindLint
