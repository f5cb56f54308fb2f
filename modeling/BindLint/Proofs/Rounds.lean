import BindLint.Fix
import BindLint.Proofs.Reportable
import BindLint.Proofs.Splicing
import Mathlib.Algebra.GroupWithZero.Nat

/-!
# How a run of fixing ends

A run lints a text and applies what it finds, round after round.  It knows four
endings: nothing is found, nothing can be applied, the rounds are used up, a round
fails.  The second never comes about: no range starts before the text, so the first of
the sorted suggestions is always applied.

What is left for a run without a failure is a row of rounds that each find and apply
something (`Rounds`), and after it either a text without findings or the last of the
rounds it was given.

## Main definitions

* `Rounds` — rounds that each find something and leave a text to the next.
* `EndsClean`, `EndsShort` — the two ways in which a run without a failure ends.

## Main results

* `applied_pos` — applying what a pass has found applies something.
* `fixRounds_cases` — the shape of every run that does not fail.
* `fix_ends_clean_or_short` — **a run without a failure ends clean or uses up its
  rounds, and never both.**
-/

namespace BindLint

/-! ### One round -/

/-- The first of some suggestions in order is taken if it does not start before the text. -/
theorem Splice.taken_ne_nil {ss : List Suggestion} (hne : ss ≠ [])
    (hss : ∀ s ∈ ss, 0 ≤ s.start) : taken 0 ss ≠ [] := by
  cases ss with
  | nil => exact absurd rfl hne
  | cons s ss =>
    have hs : ¬s.start < 0 := by
      have := hss s List.mem_cons_self
      omega
    rw [taken, if_neg hs]
    exact List.cons_ne_nil _ _

/-- What applying counts is what the sweep over the sorted suggestions takes. -/
theorem applied_eq_length_taken {text : String} {fs : List Finding} {out : Applied}
    (h : applySuggestions text fs = .ok out) :
    out.applied = (Splice.taken 0 ((Splice.offered fs).mergeSort Splice.before)).length := by
  simp only [applySuggestions, Splice.sweep_eq] at h
  obtain ⟨new, -, rfl⟩ := exists_of_map_ok h
  rfl

/-- Suggestions of which none starts before the text are not all skipped. -/
theorem applied_pos_of_start_nonneg {text : String} {fs : List Finding} {out : Applied}
    (h : applySuggestions text fs = .ok out) (hne : Splice.offered fs ≠ [])
    (hfs : ∀ s ∈ Splice.offered fs, 0 ≤ s.start) : 0 < out.applied := by
  have hperm := List.mergeSort_perm (Splice.offered fs) Splice.before
  rw [applied_eq_length_taken h]
  refine List.length_pos_iff.2 (Splice.taken_ne_nil ?_ fun s hs => hfs s (hperm.subset hs))
  intro hnil
  rw [hnil] at hperm
  exact hne (List.nil_perm.1 hperm)

/-- Each finding of a pass over a text is that of a hit in its tree. -/
theorem exists_hit_of_mem_findings {parse : Parser} {o : Options} {path : Path} {text : String}
    {fs : List Finding} (h : (lint parse o path text).findings = .ok fs) :
    ∀ f ∈ fs, ∃ hit ∈ (checkPlaces o (.ofText text) (parse path text).places).hits,
      hit.finding = f := by
  obtain ⟨-, rfl⟩ := Pass.findings_eq_ok_iff.1 h
  intro f hf
  obtain ⟨hit, hhit, hfinding⟩ := List.mem_map.1 hf
  unfold lint lintTree at hhit
  split at hhit
  · split at hhit
    · cases hhit
    · exact ⟨hit, hhit, hfinding⟩
  · cases hhit

/-- Each finding of a pass over a text describes one of the places of its tree. -/
theorem exists_describes_of_mem_findings {parse : Parser} {o : Options} {path : Path}
    {text : String} {fs : List Finding} (h : (lint parse o path text).findings = .ok fs) :
    ∀ f ∈ fs, ∃ p ∈ (parse path text).places, Describes o (.ofText text) p f := by
  intro f hf
  obtain ⟨hit, hhit, rfl⟩ := exists_hit_of_mem_findings h f hf
  exact exists_describes_of_mem_hits hhit

/-- A finding of a pass has one suggestion, and that starts in the text. -/
theorem suggestions_of_mem_findings {parse : Parser} {o : Options} {path : Path} {text : String}
    {fs : List Finding} (h : (lint parse o path text).findings = .ok fs) :
    ∀ f ∈ fs, ∃ (span : Span) (text : String),
      f.suggestions = [⟨span.start, span.stop, text⟩] := by
  intro f hf
  obtain ⟨p, -, s, span, text, -, -, -, hsuggestions⟩ := exists_describes_of_mem_findings h f hf
  exact ⟨span, text, hsuggestions⟩

/-- Applying what a pass has found applies something. -/
theorem applied_pos {parse : Parser} {o : Options} {path : Path} {text : String}
    {fs : List Finding} {out : Applied} (h : (lint parse o path text).findings = .ok fs)
    (hne : fs ≠ []) (hout : applySuggestions text fs = .ok out) : 0 < out.applied := by
  have hfs := suggestions_of_mem_findings h
  refine applied_pos_of_start_nonneg hout ?_ ?_
  · obtain ⟨f, hf⟩ := List.exists_mem_of_ne_nil fs hne
    obtain ⟨span, new, hs⟩ := hfs f hf
    exact List.ne_nil_of_mem (List.mem_filterMap.2 ⟨f, hf, by rw [hs]; rfl⟩)
  · intro s hs
    obtain ⟨f, hf, hhead⟩ := List.mem_filterMap.1 hs
    obtain ⟨span, new, hsuggestions⟩ := hfs f hf
    rw [hsuggestions] at hhead
    cases hhead
    exact Int.natCast_nonneg span.start

/-! ### Rounds -/

/-- Rounds from one text to another: each lints the text that is left, finds something
and applies part of it. -/
inductive Rounds (pass : String → Pass) : String → List Round → String → Prop where
  /-- No rounds leave the text as it is. -/
  | nil (text : String) : Rounds pass text [] text
  /-- One round leaves its text to the next. -/
  | cons {text last : String} {fs : List Finding} {out : Applied} {rs : List Round}
      (hfound : (pass text).findings = .ok fs) (hne : fs ≠ [])
      (hout : applySuggestions text fs = .ok out) (hpos : 0 < out.applied)
      (hrest : Rounds pass out.text rs last) :
      Rounds pass text (⟨text, pass text, some out⟩ :: rs) last

/-- A pass whose findings can be applied, at least in part. -/
def Productive (pass : String → Pass) : Prop :=
  ∀ text fs out, (pass text).findings = .ok fs → fs ≠ [] →
    applySuggestions text fs = .ok out → 0 < out.applied

theorem productive_lint (parse : Parser) (o : Options) (path : Path) :
    Productive (lint parse o path) :=
  fun _ _ _ hfs hne hout => applied_pos hfs hne hout

/-- The shape of a run that does not fail. -/
inductive Ran (pass : String → Pass) (n : Nat) (text : String) : Fixing → Prop where
  /-- After some rounds nothing is found. -/
  | clean {rs : List Round} {last : String} (hrounds : Rounds pass text rs last)
      (hlt : rs.length < n) (hclean : (pass last).findings = .ok []) :
      Ran pass n text ⟨rs ++ [⟨last, pass last, none⟩], last, .clean⟩
  /-- All rounds found something. -/
  | exhausted {rs : List Round} {last : String} (hrounds : Rounds pass text rs last)
      (hlength : rs.length = n) : Ran pass n text ⟨rs, last, .exhausted⟩

/-- One more round in front. -/
theorem Ran.cons {pass : String → Pass} {n : Nat} {text : String} {fs : List Finding}
    {out : Applied} {run : Fixing} (hfound : (pass text).findings = .ok fs) (hne : fs ≠ [])
    (hout : applySuggestions text fs = .ok out) (hpos : 0 < out.applied)
    (h : Ran pass n out.text run) :
    Ran pass (n + 1) text (run.cons ⟨text, pass text, some out⟩) := by
  cases h with
  | clean hrounds hlt hclean =>
    exact .clean (.cons hfound hne hout hpos hrounds) (Nat.succ_lt_succ hlt) hclean
  | exhausted hrounds hlength =>
    exact .exhausted (.cons hfound hne hout hpos hrounds) (congrArg (· + 1) hlength)

/-- A run of productive passes fails, or has one of the two shapes. -/
theorem fixRounds_cases {pass : String → Pass} (hpass : Productive pass) (n : Nat)
    (text : String) :
    (∃ e, (fixRounds pass n text).ending = .failed e) ∨
      Ran pass n text (fixRounds pass n text) := by
  induction n generalizing text with
  | zero => exact Or.inr (.exhausted (.nil text) rfl)
  | succ n ih =>
    rw [fixRounds]
    split
    · next e _ => exact Or.inl ⟨_, rfl⟩
    · next hclean => exact Or.inr (.clean (.nil text) (Nat.succ_pos n) hclean)
    · next fs hne hfound =>
      split
      · exact Or.inl ⟨_, rfl⟩
      · next out hout =>
        have hpos := hpass text fs out hfound hne hout
        rw [if_neg (Nat.pos_iff_ne_zero.1 hpos)]
        exact (ih out.text).imp id (Ran.cons hfound hne hout hpos)

/-- A run of fixing that ends clean has the first of the two shapes. -/
theorem ran_of_ending_clean {parse : Parser} {o : Options} {path : Path} {passes : Int}
    {text : String} (h : (fix parse o path passes text).ending = .clean) :
    Ran (lint parse o path) passes.toNat text (fix parse o path passes text) := by
  rcases fixRounds_cases (productive_lint parse o path) passes.toNat text with ⟨e, he⟩ | hran
  · rw [fix, he] at h
    cases h
  · exact hran

/-- Where a run ends clean, nothing is found. -/
theorem Ran.findings_of_clean {pass : String → Pass} {n : Nat} {text : String} {run : Fixing}
    (h : Ran pass n text run) (hending : run.ending = .clean) :
    (pass run.source).findings = .ok [] := by
  cases h with
  | clean hrounds hlt hclean => exact hclean
  | exhausted hrounds hlength => cases hending

/-- What every one of the rounds did. -/
theorem Rounds.of_mem {pass : String → Pass} {text last : String} {rs : List Round}
    (h : Rounds pass text rs last) :
    ∀ r ∈ rs, ∃ fs out, r.pass.findings = .ok fs ∧ fs ≠ [] ∧ r.outcome = some out ∧
      0 < out.applied := by
  induction h with
  | nil text => simp
  | @cons text last fs out rs hfound hne hout hpos hrest ih =>
    intro r hr
    rcases List.mem_cons.1 hr with rfl | hr
    · exact ⟨fs, out, hfound, hne, rfl, hpos⟩
    · exact ih r hr

/-! ### What is told about a run -/

/-- Whether a round found something. -/
def Round.found (r : Round) : Bool :=
  match r.pass.findings with
  | .error _ => false
  | .ok fs => !fs.isEmpty

/-- The number of suggestions that a round applied. -/
def Round.applied (r : Round) : Nat := (r.outcome.map Applied.applied).getD 0

/-- The warnings that a run leaves in the log. -/
def Fixing.warnings (run : Fixing) (path : Path) (passes : Int) : List Log.Record :=
  (run.records path passes).filter fun r => r.level = .warning

/-- What is said about single rounds is no warning. -/
theorem Fixing.filter_roundRecords (path : Path) (k : Nat) (rs : List Round) :
    (roundRecords path k rs).filter (fun r => r.level = .warning) = [] := by
  induction rs generalizing k with
  | nil => rfl
  | cons r rs ih =>
    rw [roundRecords, List.filter_append, List.filter_append, ih, List.append_nil,
      List.append_eq_nil_iff]
    constructor
    · rw [List.filter_eq_nil_iff]
      intro x hx
      obtain ⟨hit, -, rfl⟩ := List.mem_map.1 hx
      simp [Hit.record]
    · cases r.outcome <;> rfl

theorem Fixing.applied_eq_sum (run : Fixing) :
    run.applied = (run.rounds.map Round.applied).sum := by
  rw [applied, outcomes]
  induction run.rounds with
  | nil => rfl
  | cons r rs ih =>
    rw [List.map_cons, List.sum_cons, ← ih, List.filterMap_cons, Round.applied]
    cases r.outcome with
    | none => simp
    | some out => rfl

/-- Rounds that each apply something apply at least as much as there are of them. -/
theorem length_filter_found_le {rs : List Round} (h : ∀ r ∈ rs, r.found = true → 0 < r.applied) :
    (rs.filter Round.found).length ≤ (rs.map Round.applied).sum := by
  induction rs with
  | nil => exact Nat.le_refl 0
  | cons r rs ih =>
    have hrest := ih fun q hq => h q (List.mem_cons_of_mem r hq)
    rw [List.map_cons, List.sum_cons, List.filter_cons]
    split
    · next hr =>
      have := h r List.mem_cons_self hr
      rw [List.length_cons]
      omega
    · omega

/-- The run came to a text without findings. -/
structure Fixing.EndsClean (run : Fixing) (pass : String → Pass) (path : Path) (passes : Int)
    (text : String) : Prop where
  /-- Its last round only looked at that text. -/
  rounds : ∃ rs, Rounds pass text rs run.source ∧
    run.rounds = rs ++ [⟨run.source, pass run.source, none⟩]
  /-- Nothing is found in it. -/
  clean : (pass run.source).findings = .ok []
  /-- Nothing counts as left over. -/
  skipped : run.skipped = 0
  /-- There is no warning. -/
  silent : run.warnings path passes = []

/-- The run used up all rounds that it was given. -/
structure Fixing.EndsShort (run : Fixing) (pass : String → Pass) (path : Path) (passes : Int)
    (text : String) : Prop where
  /-- All rounds found something. -/
  rounds : Rounds pass text run.rounds run.source
  /-- There are as many as it was given. -/
  length : (run.rounds.length : Int) = max passes 0
  /-- What counts as left over was left over by the last round. -/
  skipped : run.skipped =
    ((run.rounds.getLast?.bind Round.outcome).map Applied.skipped).getD 0
  /-- There is one warning. -/
  warned : run.warnings path passes =
    [⟨.warning, logger, "Stopped fixing " ++ path.text ++ " after " ++ toString passes ++
      " passes"⟩]

theorem Rounds.getLast?_outcomes {pass : String → Pass} {text last : String} {rs : List Round}
    (h : Rounds pass text rs last) :
    (rs.filterMap Round.outcome).getLast? = rs.getLast?.bind Round.outcome := by
  rcases List.eq_nil_or_concat rs with rfl | ⟨init, r, rfl⟩
  · rfl
  · obtain ⟨fs, out, -, -, hout, -⟩ := h.of_mem r (by simp)
    simp [hout]

/-- A run that does not fail ends clean or short. -/
theorem Ran.ends {pass : String → Pass} {passes : Int} {text : String} {run : Fixing}
    (path : Path) (h : Ran pass passes.toNat text run) :
    run.EndsClean pass path passes text ∨ run.EndsShort pass path passes text := by
  cases h with
  | @clean rs last hrounds hlt hclean =>
    refine Or.inl ⟨⟨rs, hrounds, rfl⟩, hclean, rfl, ?_⟩
    simp [Fixing.warnings, Fixing.records, Fixing.filter_roundRecords]
  | @exhausted rs last hrounds hlength =>
    refine Or.inr ⟨hrounds, ?_, ?_, ?_⟩
    · simp only [hlength]
      omega
    · simp only [Fixing.skipped, Fixing.outcomes, hrounds.getLast?_outcomes]
    · simp [Fixing.warnings, Fixing.records, Fixing.filter_roundRecords]

/-- A round of a run that does not fail applies something if it finds something. -/
theorem Ran.outcome_of_mem {pass : String → Pass} {n : Nat} {text : String} {run : Fixing}
    (h : Ran pass n text run) {r : Round} (hr : r ∈ run.rounds) {fs : List Finding}
    (hfs : r.pass.findings = .ok fs) (hne : fs ≠ []) :
    ∃ out, r.outcome = some out ∧ 0 < out.applied := by
  cases h with
  | clean hrounds hlt hclean =>
    rcases List.mem_append.1 hr with hr | hr
    · obtain ⟨-, out, -, -, hout, hpos⟩ := hrounds.of_mem r hr
      exact ⟨out, hout, hpos⟩
    · -- the last round found nothing
      obtain rfl := List.mem_singleton.1 hr
      rw [hclean] at hfs
      cases hfs
      exact absurd rfl hne
  | exhausted hrounds hlength =>
    obtain ⟨-, out, -, -, hout, hpos⟩ := hrounds.of_mem r hr
    exact ⟨out, hout, hpos⟩

theorem Round.applied_pos_of_found {r : Round} (hr : r.found = true)
    (h : ∀ fs, r.pass.findings = .ok fs → fs ≠ [] → ∃ out, r.outcome = some out ∧ 0 < out.applied) :
    0 < r.applied := by
  unfold found at hr
  split at hr
  · cases hr
  · next fs hfs =>
    have hne : fs ≠ [] := by simpa using hr
    obtain ⟨out, hout, hpos⟩ := h fs hfs hne
    simpa [Round.applied, hout] using hpos

/-- The patch of a run that did not fail. -/
theorem Fixing.patch_of_not_failed {run : Fixing} (h : ∀ e, run.ending ≠ .failed e) (path : Path)
    (text : String) :
    run.patch path text =
      if run.source = text then .ok none
      else .ok (some ⟨path, run.source, unifiedDiff text run.source path.text, run.applied,
        run.skipped⟩) := by
  unfold patch
  split
  · next e he => exact absurd he (h e)
  · rfl

/-- A patch names the file and holds the text at the end of the run. -/
theorem Fixing.of_patch {run : Fixing} {path : Path} {text : String} {patch : Patch}
    (h : run.patch path text = .ok (some patch)) :
    patch.path = path ∧ patch.source = run.source := by
  unfold Fixing.patch at h
  split at h
  · cases h
  · split at h
    · cases h
    · cases h
      exact ⟨rfl, rfl⟩

/-- **A run without a failure ends clean or uses up its rounds, and never both.**  Each
round that finds something applies something, so no run gets stuck; and the patch of
the run counts all that was applied. -/
theorem fix_ends_clean_or_short (parse : Parser) (o : Options) (path : Path) (passes : Int)
    (text : String) (h : ∀ e, (fix parse o path passes text).ending ≠ .failed e) :
    let run := fix parse o path passes text
    Xor (run.EndsClean (lint parse o path) path passes text)
        (run.EndsShort (lint parse o path) path passes text) ∧
      run.ending ≠ .stuck ∧
      (∀ r ∈ run.rounds, ∀ fs, r.pass.findings = .ok fs → fs ≠ [] →
        ∃ out, r.outcome = some out ∧ 0 < out.applied) ∧
      (run.patch path text = .ok none ↔ run.source = text) ∧
      (run.source ≠ text → ∃ p, run.patch path text = .ok (some p) ∧ p.source = run.source ∧
        p.skipped = run.skipped ∧ p.applied = (run.rounds.map Round.applied).sum ∧
        (run.rounds.filter Round.found).length ≤ p.applied) := by
  intro run
  have hran : Ran (lint parse o path) passes.toNat text run := by
    rcases fixRounds_cases (productive_lint parse o path) passes.toNat text with ⟨e, he⟩ | hran
    · exact absurd he (h e)
    · exact hran
  have hrun : ∀ e, run.ending ≠ .failed e := h
  clear_value run
  have hpatch := Fixing.patch_of_not_failed hrun path text
  have houtcome : ∀ r ∈ run.rounds, ∀ fs, r.pass.findings = .ok fs → fs ≠ [] →
      ∃ out, r.outcome = some out ∧ 0 < out.applied :=
    fun r hr fs => hran.outcome_of_mem hr
  refine ⟨?_, ?_, houtcome, ?_, ?_⟩
  · -- one ending leaves a warning and the other does not
    rcases hran.ends path with hclean | hshort
    · exact Or.inl ⟨hclean, fun hshort => by simpa [hclean.silent] using hshort.warned⟩
    · exact Or.inr ⟨hshort, fun hclean => by simpa [hclean.silent] using hshort.warned⟩
  · cases hran <;> simp
  · rw [hpatch]
    split
    · next hsource => exact iff_of_true rfl hsource
    · next hsource => exact iff_of_false (by simp) hsource
  · intro hne
    rw [if_neg hne] at hpatch
    refine ⟨_, hpatch, rfl, rfl, run.applied_eq_sum, ?_⟩
    rw [Fixing.applied_eq_sum]
    exact length_filter_found_le fun r hr hfound =>
      Round.applied_pos_of_found hfound (houtcome r hr)

/-- A parser that knows `timerText`, and finds nothing in any other text. -/
def timerParser : Parser := fun _ text =>
  if text = timerText then timerTree
  else .mk ⟨⟨"program"⟩, ⟨0, (Utf8.encode text).length⟩, true, none, false, false, false⟩ []

/-- The scheduler call is written anew in the first round, and the second finds nothing. -/
theorem fix_ends_clean_or_short_timer :
    let o : Options := ⟨true, ["on"], false⟩
    let path : Path := ⟨0, ["a.js"]⟩
    let run := fix timerParser o path 10 timerText
    run.ending = .clean ∧
      Xor (run.EndsClean (lint timerParser o path) path 10 timerText)
        (run.EndsShort (lint timerParser o path) path 10 timerText) ∧
      ∃ p, run.patch path timerText = .ok (some p) ∧
        p.source = "setTimeout(é.m.bind(é), 0, x)" ∧ p.applied = 1 := by
  intro o path run
  have hending : run.ending = .clean := by decide +kernel
  have hsource : run.source = "setTimeout(é.m.bind(é), 0, x)" := by decide +kernel
  have happlied : (run.rounds.map Round.applied).sum = 1 := by decide +kernel
  have hne : run.source ≠ timerText := by
    rw [hsource]
    decide
  obtain ⟨hends, -, -, -, hpatch⟩ :=
    fix_ends_clean_or_short timerParser o path 10 timerText fun e he => by
      rw [show (fix timerParser o path 10 timerText).ending = .clean from hending] at he
      cases he
  obtain ⟨p, hp, hpsource, -, hpapplied, -⟩ := hpatch hne
  exact ⟨hending, hends, p, hp, hpsource.trans hsource, hpapplied.trans happlied⟩

end BindLint
