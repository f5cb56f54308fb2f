import BindLint.Proofs.Laminar
import BindLint.Proofs.Recheck

/-!
# Findings against suggestions

The exit code of a run that writes weighs two numbers: the findings of the scan, and the
suggestions that fixing applied.  Even if every file ends up clean, these need not be the
same.

* A round skips suggestions that overlap others.  Later rounds may apply more than was
  skipped, because the new text holds closures that were not found before, or less, because
  writing a scheduler call anew drops the arguments behind its delay and the closures in
  them.
* A file to which two paths lead is scanned twice, and its findings count twice.  It is
  fixed once: the second time there is nothing left to do.

So the exit code may be one although nothing is left to be put right:
`exit_one_after_clean_fixes`.

## Main definitions

* `Fixing.deferred`, `Fixing.appliedLater` — what the first round of a run left to later ones,
  and what these applied.
* `fixRuns` — the runs of fixing some files.
* `FileTree.firstPaths` — the paths that lead where no earlier one leads.

## Main results

* `length_findings_of_clean` — findings and suggestions of a run that ends clean.
* `exists_fixFiles_of_clean` — each file is fixed once, whatever paths lead to it.
* `exit_after_clean_fixes` — **when the exit code is nought after all fixes ended clean.**
* `exit_one_after_clean_fixes` — a run that writes with exit code one, after which a check
  passes.
-/

namespace BindLint

/-! ### One run -/

/-- The number of suggestions that the first round of a run left to later rounds. -/
def Fixing.deferred (run : Fixing) : Nat :=
  ((run.rounds.head?.bind Round.outcome).map Applied.skipped).getD 0

/-- The number of suggestions that were applied after the first round. -/
def Fixing.appliedLater (run : Fixing) : Nat := (run.rounds.tail.map Round.applied).sum

/-- Of the suggestions that a pass offers, one for each finding, all are applied or skipped. -/
theorem applied_add_skipped_of_findings {parse : Parser} {o : Options} {path : Path}
    {text : String} {fs : List Finding} {out : Applied}
    (hfs : (lint parse o path text).findings = .ok fs)
    (hout : applySuggestions text fs = .ok out) : out.applied + out.skipped = fs.length := by
  have hall : fs.filter (fun f => !f.suggestions.isEmpty) = fs := by
    refine List.filter_eq_self.2 fun f hf => ?_
    obtain ⟨span, new, hs⟩ := suggestions_of_mem_findings hfs f hf
    rw [hs]
    rfl
  have hlength : ((Splice.offered fs).mergeSort Splice.before).length = fs.length := by
    rw [List.length_mergeSort, Splice.length_offered, hall]
  obtain ⟨new, -, rfl⟩ := exists_of_map_ok hout
  rw [← hlength]
  exact Splice.applied_add_skipped _ 0 _

/-- The first round of a run, and the rest. -/
theorem fixRounds_of_found {pass : String → Pass} {text : String} {fs : List Finding}
    {out : Applied} {n : Nat} (hfs : (pass text).findings = .ok fs) (hne : fs ≠ [])
    (hout : applySuggestions text fs = .ok out) (hpos : 0 < out.applied) :
    fixRounds pass (n + 1) text =
      (fixRounds pass n out.text).cons ⟨text, pass text, some out⟩ := by
  rw [fixRounds]
  cases fs with
  | nil => exact absurd rfl hne
  | cons f fs => simp only [hfs, hout, if_neg (Nat.pos_iff_ne_zero.1 hpos)]

/-- What a run that ends clean went through. -/
theorem exists_rounds_of_clean {parse : Parser} {o : Options} {path : Path} {passes : Int}
    {text : String} (h : (fix parse o path passes text).ending = .clean) :
    ∃ rs last, Rounds (lint parse o path) text rs last ∧
      (lint parse o path last).findings = .ok [] ∧
      fix parse o path passes text =
        ⟨rs ++ [⟨last, lint parse o path last, none⟩], last, .clean⟩ := by
  have hran := ran_of_ending_clean h
  generalize fix parse o path passes text = run at hran h
  cases hran with
  | clean hrounds hlt hclean => exact ⟨_, _, hrounds, hclean, rfl⟩
  | exhausted hrounds hlength => cases h

/-- A run that ends clean began with a pass that came to its end. -/
theorem exists_findings_of_clean {parse : Parser} {o : Options} {path : Path} {passes : Int}
    {text : String} (h : (fix parse o path passes text).ending = .clean) :
    ∃ fs, (lint parse o path text).findings = .ok fs := by
  obtain ⟨rs, last, hrounds, hclean, -⟩ := exists_rounds_of_clean h
  cases hrounds with
  | nil => exact ⟨_, hclean⟩
  | cons hfound hne hout hpos hrest => exact ⟨_, hfound⟩

/-- **Findings and suggestions of a run that ends clean**: what was found at first was applied,
but for what the first round left to later ones and these did not apply. -/
theorem length_findings_of_clean {parse : Parser} {o : Options} {path : Path} {passes : Int}
    {text : String} {fs : List Finding} (hfs : (lint parse o path text).findings = .ok fs)
    (h : (fix parse o path passes text).ending = .clean) :
    fs.length + (fix parse o path passes text).appliedLater =
      (fix parse o path passes text).applied + (fix parse o path passes text).deferred := by
  obtain ⟨rs, last, hrounds, hclean, hrun⟩ := exists_rounds_of_clean h
  rw [Fixing.applied_eq_sum, hrun]
  cases hrounds with
  | nil =>
    cases hfs.symm.trans hclean
    rfl
  | @cons _ _ _ out rs hfound hne hout hpos hrest =>
    cases hfs.symm.trans hfound
    have hround := applied_add_skipped_of_findings hfs hout
    simp only [Fixing.appliedLater, Fixing.deferred, List.cons_append, List.tail_cons,
      List.map_cons, List.sum_cons, List.head?_cons, Option.bind_some, Option.map_some,
      Option.getD_some, Round.applied]
    omega

/-- A run that ends clean where it began has applied nothing. -/
theorem applied_eq_zero_of_source_eq {parse : Parser} {o : Options} {path : Path} {passes : Int}
    {text : String} (h : (fix parse o path passes text).ending = .clean)
    (hsource : (fix parse o path passes text).source = text) :
    (fix parse o path passes text).applied = 0 := by
  obtain ⟨rs, last, hrounds, hclean, hrun⟩ := exists_rounds_of_clean h
  rw [hrun] at hsource ⊢
  cases hrounds with
  | nil => rfl
  | cons hfound hne hout hpos hrest =>
    -- something was found in the first text, and it is the last one as well
    dsimp only at hsource
    rw [hsource] at hclean
    cases hclean.symm.trans hfound
    exact absurd rfl hne

/-! ### Paths to one file -/

/-- The paths among some that lead where no earlier one of them leads. -/
def FileTree.firstPaths (t : FileTree) : List Path → List Path
  | [] => []
  | p :: ps => p :: (t.firstPaths ps).filter fun q => t.locate q ≠ t.locate p

namespace FileTree

variable {t t' : FileTree} {ps : List Path}

theorem firstPaths_subset (t : FileTree) (ps : List Path) : t.firstPaths ps ⊆ ps := by
  induction ps with
  | nil => exact List.Subset.refl []
  | cons p ps ih =>
    intro q hq
    rcases List.mem_cons.1 hq with rfl | hq
    · exact List.mem_cons_self
    · exact List.mem_cons_of_mem p (ih (List.mem_filter.1 hq).1)

theorem SameShape.firstPaths_eq (h : SameShape t t') (ps : List Path) :
    t'.firstPaths ps = t.firstPaths ps := by
  induction ps with
  | nil => rfl
  | cons p ps ih => simp only [firstPaths, ih, h.locate_eq]

/-- If no two paths lead to one place, all of them are first. -/
theorem firstPaths_of_pairwise (h : ps.Pairwise fun p q => t.locate p ≠ t.locate q) :
    t.firstPaths ps = ps := by
  induction ps with
  | nil => rfl
  | cons p ps ih =>
    obtain ⟨hp, hps⟩ := List.pairwise_cons.1 h
    rw [firstPaths, ih hps, List.filter_eq_self.2]
    intro q hq
    exact decide_eq_true (hp q hq).symm

/-- To choose paths by where they lead and to take the first ones may be done in any order. -/
theorem firstPaths_filter {keep : Path → Bool}
    (h : ∀ p ∈ ps, ∀ q ∈ ps, t.locate p = t.locate q → keep p = keep q) :
    t.firstPaths (ps.filter keep) = (t.firstPaths ps).filter keep := by
  induction ps with
  | nil => rfl
  | cons p ps ih =>
    have htail := ih fun q hq q' hq' =>
      h q (List.mem_cons_of_mem p hq) q' (List.mem_cons_of_mem p hq')
    rw [firstPaths, List.filter_cons, List.filter_cons]
    split
    · rw [firstPaths, htail, List.filter_comm]
    · next hp =>
      rw [htail, List.filter_filter]
      -- what is kept does not lead where the path leads that is not kept
      refine List.filter_congr fun q hq => ?_
      have hmem := List.mem_cons_of_mem p (firstPaths_subset t ps hq)
      cases hkeep : keep q with
      | false => rfl
      | true =>
        have hne : t.locate q ≠ t.locate p := by
          intro hloc
          exact hp ((h q hmem p List.mem_cons_self hloc).symm.trans hkeep)
        simp [hne]

end FileTree

/-- What is read is told by the text that it is, if any. -/
theorem toOption_readSource_congr {t t' : FileTree} {p q : Path}
    (h : ∀ text, readSource t' q = .ok text ↔ readSource t p = .ok text) :
    (readSource t' q).toOption = (readSource t p).toOption := by
  cases hp : readSource t p with
  | ok text => rw [(h text).2 hp]
  | error e =>
    cases hq : readSource t' q with
    | error e' => rfl
    | ok text =>
      rw [hp] at h
      cases (h text).1 hq

theorem readSource_of_locate_eq {t : FileTree} {p q : Path} (h : t.locate q = t.locate p)
    (text : String) : readSource t q = .ok text ↔ readSource t p = .ok text := by
  rw [readSource_eq_ok_iff, readSource_eq_ok_iff, h]

/-! ### What is found and what is fixed -/

section Counts

variable {parse : Parser} {o : Options} {t : FileTree} {p q : Path} {ps : List Path}

/-- What is found in a file, if it can be read and linted. -/
def found? (parse : Parser) (o : Options) (t : FileTree) (p : Path) : Option (List Finding) :=
  (readSource t p).toOption.bind fun text => (lint parse o p text).findings.toOption

/-- The run of fixing a file, if it can be read. -/
def fixRun? (parse : Parser) (o : Options) (t : FileTree) (p : Path) : Option Fixing :=
  (readSource t p).toOption.map (fix parse o p maxPasses)

/-- The runs of fixing some files, each as it stands. -/
def fixRuns (parse : Parser) (o : Options) (t : FileTree) (ps : List Path) : List Fixing :=
  ps.filterMap (fixRun? parse o t)

/-- A number that is read off the run of fixing a file, nought if it cannot be read. -/
def countIn (parse : Parser) (o : Options) (t : FileTree) (count : Fixing → Nat) (p : Path) : Nat :=
  ((fixRun? parse o t p).map count).getD 0

/-- Fixing a file ends clean, if it can be read. -/
def FixesClean (parse : Parser) (o : Options) (t : FileTree) (p : Path) : Prop :=
  ∀ text, readSource t p = .ok text → (fix parse o p maxPasses text).ending = .clean

theorem found?_of_ok {text : String} (h : readSource t p = .ok text) :
    found? parse o t p = (lint parse o p text).findings.toOption := by
  rw [found?, h]
  rfl

theorem countIn_of_ok {text : String} (h : readSource t p = .ok text) (count : Fixing → Nat) :
    countIn parse o t count p = count (fix parse o p maxPasses text) := by
  rw [countIn, fixRun?, h]
  rfl

theorem countIn_of_error {e : SourceError} (h : readSource t p = .error e) (count : Fixing → Nat) :
    countIn parse o t count p = 0 := by
  rw [countIn, fixRun?, h]
  rfl

theorem sum_fixRuns (parse : Parser) (o : Options) (t : FileTree) (count : Fixing → Nat)
    (ps : List Path) :
    ((fixRuns parse o t ps).map count).sum = (ps.map (countIn parse o t count)).sum := by
  induction ps with
  | nil => rfl
  | cons p ps ih =>
    rw [List.map_cons, List.sum_cons, ← ih, fixRuns, List.filterMap_cons, countIn, fixRuns]
    cases fixRun? parse o t p with
    | none => simp
    | some run => simp

/-- Numbers that are nought for all that is not kept add up to the same. -/
theorem sum_map_filter (keep : Path → Bool) {f : Path → Nat}
    (h : ∀ p ∈ ps, keep p = false → f p = 0) :
    ((ps.filter keep).map f).sum = (ps.map f).sum := by
  induction ps with
  | nil => rfl
  | cons p ps ih =>
    have htail := ih fun q hq => h q (List.mem_cons_of_mem p hq)
    rw [List.filter_cons, List.map_cons, List.sum_cons]
    split
    · rw [List.map_cons, List.sum_cons, htail]
    · next hp =>
      rw [htail, h p List.mem_cons_self (Bool.eq_false_iff.2 hp), Nat.zero_add]

/-- The same is found through all paths that lead to one file. -/
theorem found?_congr (hparse : parse.ByLanguage) (hp : p.isScannable = true)
    (hq : q.isScannable = true) (h : t.locate q = t.locate p) :
    found? parse o t q = found? parse o t p := by
  rw [found?, found?, toOption_readSource_congr (readSource_of_locate_eq h)]
  cases hread : readSource t p with
  | error e => simp only [Except.toOption, Option.bind_none]
  | ok text =>
    obtain ⟨loc, hloc, -⟩ := readSource_eq_ok_iff.1 hread
    have hlang := FileTree.language_eq_of_locate (h.trans hloc) hloc hq hp
    exact findings_lint_congr hparse o hlang text

/-- Nothing is applied to a file in which nothing is found. -/
theorem countIn_applied_of_clean {text : String} (hread : readSource t p = .ok text)
    (h : (lint parse o p text).findings = .ok []) : countIn parse o t Fixing.applied p = 0 := by
  rw [countIn_of_ok hread, fix_of_clean h]
  rfl

/-- What is found in a file that is fixed, weighed against what is applied to it. -/
theorem FixesClean.balance (h : FixesClean parse o t p) :
    ((found? parse o t p).getD []).length + countIn parse o t Fixing.appliedLater p =
      countIn parse o t Fixing.applied p + countIn parse o t Fixing.deferred p := by
  cases hread : readSource t p with
  | error e =>
    rw [countIn_of_error hread, countIn_of_error hread, countIn_of_error hread, found?, hread]
    rfl
  | ok text =>
    obtain ⟨fs, hfs⟩ := exists_findings_of_clean (h text hread)
    rw [countIn_of_ok hread, countIn_of_ok hread, countIn_of_ok hread, found?_of_ok hread, hfs]
    exact length_findings_of_clean hfs (h text hread)

/-- The same for several files. -/
theorem sum_balance (h : ∀ p ∈ ps, FixesClean parse o t p) :
    (ps.map fun p => ((found? parse o t p).getD []).length).sum +
        (ps.map (countIn parse o t Fixing.appliedLater)).sum =
      (ps.map (countIn parse o t Fixing.applied)).sum +
        (ps.map (countIn parse o t Fixing.deferred)).sum := by
  induction ps with
  | nil => rfl
  | cons p ps ih =>
    have hfirst := (h p List.mem_cons_self).balance
    have hrest := ih fun q hq => h q (List.mem_cons_of_mem p hq)
    simp only [List.map_cons, List.sum_cons]
    omega

end Counts

/-! ### Fixing each file once -/

section Fixes

variable {parse : Parser} {o : Options} {t : FileTree} {p q : Path} {ps : List Path}

/-- The patches leave nothing over and apply a number of suggestions in all. -/
structure Fixed.Settles (fixed : Fixed) (n : Nat) : Prop where
  /-- No patch has a suggestion left over. -/
  skipped : ∀ patch ∈ fixed.patches, patch.skipped = 0
  /-- All patches together apply as many. -/
  applied : (fixed.patches.map Patch.applied).sum = n

/-- Fixing a file that ends clean settles what is applied to it. -/
theorem exists_fixFile_of_clean (h : FixesClean parse o t p) :
    ∃ first, fixFile parse o true t p = .ok first ∧
      first.Settles (countIn parse o t Fixing.applied p) := by
  unfold fixFile
  cases hread : readSource t p with
  | error e =>
    rw [countIn_of_error hread]
    exact ⟨_, rfl, by simp, rfl⟩
  | ok text =>
    have hended := h text hread
    have hunfailed : ∀ e, (fix parse o p maxPasses text).ending ≠ .failed e := by
      intro e he
      cases hended.symm.trans he
    have hpatch := Fixing.patch_of_not_failed hunfailed p text
    rw [countIn_of_ok hread]
    simp only [hpatch]
    by_cases hsource : (fix parse o p maxPasses text).source = text
    · rw [if_pos hsource, applied_eq_zero_of_source_eq hended hsource]
      exact ⟨_, rfl, by simp, rfl⟩
    · rw [if_neg hsource]
      refine ⟨_, rfl, ?_, ?_⟩
      · intro patch hmem
        obtain rfl := List.mem_singleton.1 hmem
        rw [Fixing.skipped, hended]
      · exact List.sum_singleton

/-- After a file was fixed, nothing is found in it through any path that leads to it. -/
theorem findings_of_fixFile (hparse : parse.ByLanguage) {first : Fixed} {text : String}
    (h : fixFile parse o true t p = .ok first) (hclean : FixesClean parse o t p)
    (hp : p.isScannable = true) (hq : q.isScannable = true) (hloc : t.locate q = t.locate p)
    (hread : readSource first.tree q = .ok text) : (lint parse o q text).findings = .ok [] := by
  obtain ⟨loc, hqloc, hbytes⟩ := readSource_eq_ok_iff.1 hread
  rw [(sameShape_fixFile h).locate_eq] at hqloc
  have hploc := hloc.symm.trans hqloc
  have hold : ∃ old, readSource t p = .ok old := by
    rcases fixFile_cases h with ⟨htree, -⟩ | ⟨own, old, hown, hold, -⟩
    · rw [htree] at hread
      exact ⟨text, (readSource_of_locate_eq hloc text).1 hread⟩
    · exact ⟨old, readSource_eq_ok_iff.2 ⟨own, hown, hold⟩⟩
  obtain ⟨old, hold⟩ := hold
  obtain ⟨loc', hloc', hbytes'⟩ := readSource_eq_ok_iff.1 hold
  obtain rfl : loc = loc' := Except.ok.inj (hploc.symm.trans hloc')
  -- what is read now is what fixing left
  obtain rfl : text = textLeft parse o p old := Utf8.encode_injective <|
    Option.some.inj (hbytes.symm.trans (bytesAt?_fixFile h hploc hbytes'))
  exact findings_eq_nil_of_locate hparse hploc hqloc hp hq (findings_textLeft (hclean old hold))

/-- Fixing a file leaves the texts of all others. -/
theorem readSource_of_fixFile {first : Fixed} (h : fixFile parse o true t p = .ok first)
    (hloc : t.locate q ≠ t.locate p) (text : String) :
    readSource first.tree q = .ok text ↔ readSource t q = .ok text := by
  rw [readSource_eq_ok_iff, readSource_eq_ok_iff, (sameShape_fixFile h).locate_eq]
  refine exists_congr fun loc => and_congr_right fun hq => ?_
  have hentries : first.tree.entriesAt loc = t.entriesAt loc :=
    entriesAt_fixFile h fun hp => absurd (hq.trans hp.symm) hloc
  rw [FileTree.bytesAt?_congr hentries]

/-- What fixing one file leaves to do for another: nothing if it is the same file, and what
there was to do otherwise. -/
theorem fixesClean_of_fixFile (hparse : parse.ByLanguage) {first : Fixed}
    (h : fixFile parse o true t p = .ok first) (hp : p.isScannable = true)
    (hq : q.isScannable = true) (hpclean : FixesClean parse o t p)
    (hqclean : FixesClean parse o t q) :
    FixesClean parse o first.tree q ∧
      countIn parse o first.tree Fixing.applied q =
        if t.locate q ≠ t.locate p then countIn parse o t Fixing.applied q else 0 := by
  by_cases hloc : t.locate q = t.locate p
  · have hfound : ∀ text, readSource first.tree q = .ok text →
        (lint parse o q text).findings = .ok [] :=
      fun text hread => findings_of_fixFile hparse h hpclean hp hq hloc hread
    refine ⟨fun text hread => by rw [fix_of_clean (hfound text hread)], ?_⟩
    rw [if_neg (not_not_intro hloc)]
    cases hread : readSource first.tree q with
    | error e => exact countIn_of_error hread _
    | ok text => exact countIn_applied_of_clean hread (hfound text hread)
  · have hsame := readSource_of_fixFile h hloc
    refine ⟨fun text hread => hqclean text ((hsame text).1 hread), ?_⟩
    rw [if_pos hloc, countIn, countIn, fixRun?, fixRun?, toOption_readSource_congr hsame]

/-- **Each file is fixed once, whatever paths lead to it**: fixing files that end clean settles
what is applied through the first path to each of them. -/
theorem exists_fixFiles_of_clean (hparse : parse.ByLanguage)
    (hps : ∀ p ∈ ps, p.isScannable = true) (hclean : ∀ p ∈ ps, FixesClean parse o t p) :
    ∃ fixed, fixFiles parse o true t ps = .ok fixed ∧
      fixed.Settles ((t.firstPaths ps).map (countIn parse o t Fixing.applied)).sum := by
  induction ps generalizing t with
  | nil => exact ⟨_, rfl, by simp, rfl⟩
  | cons p ps ih =>
    have hpclean := hclean p List.mem_cons_self
    obtain ⟨first, hfirst, hsettles⟩ := exists_fixFile_of_clean hpclean
    have hafter : ∀ q ∈ ps, _ := fun q hq =>
      fixesClean_of_fixFile hparse hfirst (hps p List.mem_cons_self)
        (hps q (List.mem_cons_of_mem p hq)) hpclean (hclean q (List.mem_cons_of_mem p hq))
    obtain ⟨rest, hrest, hsettles'⟩ :=
      ih (fun q hq => hps q (List.mem_cons_of_mem p hq))
        fun q hq => (hafter q hq).1
    -- of the later paths, those that lead to the first file have nothing to apply
    have hsum : ((first.tree.firstPaths ps).map (countIn parse o first.tree Fixing.applied)).sum =
        (((t.firstPaths ps).filter fun q => t.locate q ≠ t.locate p).map
          (countIn parse o t Fixing.applied)).sum := by
      rw [(sameShape_fixFile hfirst).firstPaths_eq,
        ← sum_map_filter fun q => decide (t.locate q ≠ t.locate p)]
      · congr 1
        refine List.map_congr_left fun q hq => ?_
        obtain ⟨hq, hloc⟩ := List.mem_filter.1 hq
        rw [(hafter q (FileTree.firstPaths_subset t ps hq)).2, if_pos (of_decide_eq_true hloc)]
      · intro q hq hloc
        rw [(hafter q (FileTree.firstPaths_subset t ps hq)).2, if_neg (of_decide_eq_false hloc)]
    rw [fixFiles, bind_of_ok hfirst, bind_of_ok hrest]
    refine ⟨_, rfl, ?_, ?_⟩
    · intro patch hpatch
      rcases List.mem_append.1 hpatch with hpatch | hpatch
      · exact hsettles.skipped patch hpatch
      · exact hsettles'.skipped patch hpatch
    · rw [List.map_append, List.sum_append, hsettles.applied, hsettles'.applied, hsum,
        FileTree.firstPaths, List.map_cons, List.sum_cons]

end Fixes

/-! ### The exit code -/

section Scans

variable {parse : Parser} {o : Options} {t : FileTree} {p : Path} {ps : List Path}

/-- The report on a file that can be read and parsed. -/
def soundReport? (parse : Parser) (o : Options) (t : FileTree) (p : Path) : Option FileReport :=
  (found? parse o t p).map fun fs => ⟨p, fs, none⟩

/-- Whether something is found in a file. -/
def hasFindings (parse : Parser) (o : Options) (t : FileTree) (p : Path) : Bool :=
  !((found? parse o t p).getD []).isEmpty

theorem exists_scanFile_of_clean (h : FixesClean parse o t p) :
    ∃ r, scanFile t parse o p = .ok r ∧ r.reports = (soundReport? parse o t p).toList := by
  unfold soundReport?
  cases hread : readSource t p with
  | error e =>
    unfold scanFile found?
    simp only [hread]
    exact ⟨_, rfl, rfl⟩
  | ok text =>
    obtain ⟨fs, hfs⟩ := exists_findings_of_clean (h text hread)
    obtain ⟨hstopped, hhits⟩ := Pass.findings_eq_ok_iff.1 hfs
    rw [scanFile_of_ok hread, found?_of_ok hread, hfs]
    unfold reportText
    simp only [hstopped, hhits]
    exact ⟨_, rfl, rfl⟩

/-- A scan of files whose fixes end clean reports on all that can be read. -/
theorem exists_scanFiles_of_clean (h : ∀ p ∈ ps, FixesClean parse o t p) :
    ∃ r, scanFiles t parse o ps = .ok r ∧ r.reports = ps.filterMap (soundReport? parse o t) := by
  induction ps with
  | nil => exact ⟨_, rfl, rfl⟩
  | cons p ps ih =>
    obtain ⟨first, hfirst, hreports⟩ := exists_scanFile_of_clean (h p List.mem_cons_self)
    obtain ⟨rest, hrest, hreports'⟩ := ih fun q hq => h q (List.mem_cons_of_mem p hq)
    rw [scanFiles, bind_of_ok hfirst, bind_of_ok hrest]
    refine ⟨_, rfl, ?_⟩
    dsimp only
    rw [hreports, hreports', List.filterMap_cons]
    cases soundReport? parse o t p <;> rfl

theorem isBroken_of_mem_soundReports {f : FileReport}
    (h : f ∈ ps.filterMap (soundReport? parse o t)) : f.isBroken = false := by
  obtain ⟨p, -, hp⟩ := List.mem_filterMap.1 h
  obtain ⟨fs, -, rfl⟩ := Option.map_eq_some_iff.1 hp
  rfl

/-- The files that are fixed are those in which something is found. -/
theorem map_path_soundReports (parse : Parser) (o : Options) (t : FileTree) (ps : List Path) :
    ((ps.filterMap (soundReport? parse o t)).filter fun f => !f.findings.isEmpty).map
      FileReport.path = ps.filter (hasFindings parse o t) := by
  induction ps with
  | nil => rfl
  | cons p ps ih =>
    rw [List.filterMap_cons, List.filter_cons, hasFindings, soundReport?]
    cases found? parse o t p with
    | none => simpa using ih
    | some fs => cases fs <;> simpa using ih

/-- The number of findings is that of all files together. -/
theorem ScanResult.findingCount_of_sound {r : ScanResult}
    (h : r.reports = ps.filterMap (soundReport? parse o t)) :
    r.findingCount = (ps.map fun p => ((found? parse o t p).getD []).length).sum := by
  rw [findingCount, h]
  clear h
  induction ps with
  | nil => rfl
  | cons p ps ih =>
    rw [List.map_cons, List.sum_cons, ← ih, List.filterMap_cons, soundReport?]
    cases found? parse o t p with
    | none => simp
    | some fs => rfl

end Scans

theorem foldr_tally (patches : List Patch) :
    (patches.map Patch.tally).foldr (fun t n => t.applied + n) 0 =
      ((patches.map Patch.applied).sum : Int) := by
  induction patches with
  | nil => rfl
  | cons patch patches ih =>
    rw [List.map_cons, List.foldr_cons, ih, List.map_cons, List.sum_cons, Int.natCast_add]
    rfl

/-- If no file is broken and no suggestion is left over, the exit code only weighs the
findings against what was applied. -/
theorem exitCode_of_settles {r : ScanResult} {fixed : Fixed} {n : Nat}
    (hbroken : ∀ f ∈ r.reports, f.isBroken = false) (h : fixed.Settles n) :
    exitCode r (fixed.patches.map Patch.tally) true =
      if r.findingCount ≤ n then exitOk else exitFindings := by
  have hnone : ¬r.reports.any FileReport.isBroken = true := by simpa using hbroken
  have hskipped : (fixed.patches.map Patch.tally).any (fun t => t.skipped ≠ 0) = false := by
    rw [List.any_map, List.any_eq_false]
    intro patch hpatch
    simp [Patch.tally, h.skipped patch hpatch]
  rw [exitCode, if_neg hnone, if_pos rfl, hskipped, foldr_tally, h.applied, Bool.false_or]
  by_cases hle : r.findingCount ≤ n
  · rw [if_pos hle, if_neg]
    simpa using hle
  · rw [if_neg hle, if_pos]
    simpa using hle

theorem exists_outcome {w : World} {args : CheckArguments} {s : Settings} {o : Options}
    {result : ScanResult} {records : List Log.Record} {fixed : Fixed} (before : List Log.Record)
    (hwrite : args.write = true)
    (hscan : scan w.tree w.parse o s.maxFileSize args.paths = .ok (result, records))
    (hfixed : fixReports w.parse o true w.tree result = .ok fixed) :
    ∃ out, runResolved w args s o before = .ok out ∧
      out.exit = exitCode result (fixed.patches.map Patch.tally) true := by
  unfold runResolved
  rw [bind_of_ok hscan]
  dsimp only
  rw [hwrite, Bool.or_true, if_pos rfl, bind_of_ok (mapError_eq_ok_iff.2 hfixed)]
  exact ⟨_, rfl, rfl⟩

/-- A run that writes over files whose fixes end clean comes to its end; its exit code weighs
what was found through all paths against what was applied through the first path to each
file. -/
theorem exists_outcome_of_clean {w : World} {args : CheckArguments} {s : Settings} {o : Options}
    {c : Collected} (before : List Log.Record) (hparse : w.parse.ByLanguage)
    (hwrite : args.write = true) (hcollect : collect w.tree s.maxFileSize args.paths = .ok c)
    (hclean : ∀ p ∈ c.files, FixesClean w.parse o w.tree p) :
    ∃ result records out, scan w.tree w.parse o s.maxFileSize args.paths = .ok (result, records) ∧
      runResolved w args s o before = .ok out ∧
      result.reports = c.files.filterMap (soundReport? w.parse o w.tree) ∧
      out.exit = if result.findingCount ≤
          ((fixRuns w.parse o w.tree (w.tree.firstPaths c.files)).map Fixing.applied).sum
        then exitOk else exitFindings := by
  obtain ⟨r, hr, hsound⟩ := exists_scanFiles_of_clean hclean
  obtain ⟨result, records, hscan, hreports⟩ := exists_scan hcollect hr
  rw [hsound] at hreports
  have hscannable : ∀ p ∈ c.files, p.isScannable = true :=
    fun p => isScannable_of_mem_collect hcollect
  have hkept : ∀ p ∈ c.files, ∀ q ∈ c.files, w.tree.locate p = w.tree.locate q →
      hasFindings w.parse o w.tree p = hasFindings w.parse o w.tree q := by
    intro p hp q hq hloc
    rw [hasFindings, hasFindings, found?_congr hparse (hscannable q hq) (hscannable p hp) hloc]
  have hfixes : ∀ p ∈ c.files.filter (hasFindings w.parse o w.tree),
      p.isScannable = true ∧ FixesClean w.parse o w.tree p := by
    intro p hp
    have hmem := (List.mem_filter.1 hp).1
    exact ⟨hscannable p hmem, hclean p hmem⟩
  obtain ⟨fixed, hfixed, hsettles⟩ :=
    exists_fixFiles_of_clean hparse (fun p hp => (hfixes p hp).1) fun p hp => (hfixes p hp).2
  rw [FileTree.firstPaths_filter hkept, sum_map_filter, ← sum_fixRuns] at hsettles
  · rw [← map_path_soundReports, ← hreports] at hfixed
    obtain ⟨out, hrun, hexit⟩ := exists_outcome before hwrite hscan hfixed
    refine ⟨result, records, out, hscan, hrun, hreports, ?_⟩
    rw [hexit]
    refine exitCode_of_settles (fun f hf => ?_) hsettles
    rw [hreports] at hf
    exact isBroken_of_mem_soundReports hf
  · -- nothing is applied to the files that are not fixed
    intro p hp hnone
    cases hread : readSource w.tree p with
    | error e => exact countIn_of_error hread _
    | ok text =>
      have hended := hclean p (FileTree.firstPaths_subset _ _ hp) text hread
      obtain ⟨fs, hfs⟩ := exists_findings_of_clean hended
      have hnil : fs = [] := by
        rw [hasFindings, found?_of_ok hread, hfs] at hnone
        simpa [Except.toOption] using hnone
      rw [hnil] at hfs
      exact countIn_applied_of_clean hread hfs

/-- A check passes after a run that writes over files whose fixes end clean. -/
theorem passes_of_clean {w : World} {args : CheckArguments} {s : Settings} {o : Options}
    {before : List Log.Record} {c : Collected} {out : Outcome} (hparse : w.parse.ByLanguage)
    (hproper : w.tree.Proper) (hwrite : args.write = true)
    (hcollect : collect w.tree s.maxFileSize args.paths = .ok c)
    (hclean : ∀ p ∈ c.files, FixesClean w.parse o w.tree p)
    (hrun : runResolved w args s o before = .ok out) :
    Passes { w with tree := out.tree } args s o before := by
  obtain ⟨c', r, ps, fixed, hwritten, htree, -⟩ := exists_written hwrite hrun
  obtain rfl : c = c' := Except.ok.inj (hcollect.symm.trans hwritten.collected)
  obtain ⟨r', hr', hsound⟩ := exists_scanFiles_of_clean hclean
  obtain rfl : r = r' := Except.ok.inj (hwritten.scanned.symm.trans hr')
  have hbroken : ∀ f ∈ r.reports, f.isBroken = false := by
    intro f hf
    rw [hsound] at hf
    exact isBroken_of_mem_soundReports hf
  have hended : ∀ p text, ToFix w args s o p text →
      (fix w.parse o p maxPasses text).ending = .clean := by
    rintro p text ⟨⟨c', hc', hp⟩, hread, -⟩
    obtain rfl : c = c' := Except.ok.inj (hcollect.symm.trans hc')
    exact hclean p hp text hread
  obtain ⟨d, hd⟩ := exists_collect (sameShape_fixFiles hwritten.fixes) hwritten.collected
  rw [htree]
  refine passes_iff.2 ⟨d, hd, fun p hp => ?_⟩
  exact (hwritten.clean_of_all_clean hparse hproper hbroken hended hd hp :)

/-- **When the exit code is nought after all fixes ended clean.**  It weighs all findings against
the suggestions that were applied through the first path to each file.  If no two paths lead
to one file, it is nought exactly if later rounds made up for all that first rounds skipped;
and a single run applies as much as was found at first under the same condition.  A check
passes afterwards, whatever the exit code is. -/
theorem exit_after_clean_fixes (w : World) (args : CheckArguments) (s : Settings) (o : Options)
    (before : List Log.Record) (c : Collected) (hparse : w.parse.ByLanguage)
    (hwrite : args.write = true) (hcollect : collect w.tree s.maxFileSize args.paths = .ok c)
    (hclean : ∀ p ∈ c.files, FixesClean w.parse o w.tree p) :
    (∃ result records out,
        scan w.tree w.parse o s.maxFileSize args.paths = .ok (result, records) ∧
        runResolved w args s o before = .ok out ∧
        (out.exit = if result.findingCount ≤
            ((fixRuns w.parse o w.tree (w.tree.firstPaths c.files)).map Fixing.applied).sum
          then exitOk else exitFindings) ∧
        (c.files.Pairwise (fun p q => w.tree.locate p ≠ w.tree.locate q) →
          (out.exit = exitOk ↔
            ((fixRuns w.parse o w.tree c.files).map Fixing.deferred).sum ≤
              ((fixRuns w.parse o w.tree c.files).map Fixing.appliedLater).sum)) ∧
        (w.tree.Proper → Passes { w with tree := out.tree } args s o before)) ∧
      ∀ path passes text fs, (lint w.parse o path text).findings = .ok fs →
        (fix w.parse o path passes text).ending = .clean →
        (fs.length ≤ (fix w.parse o path passes text).applied ↔
          (fix w.parse o path passes text).deferred ≤
            (fix w.parse o path passes text).appliedLater) := by
  refine ⟨?_, ?_⟩
  · obtain ⟨result, records, out, hscan, hrun, hreports, hexit⟩ :=
      exists_outcome_of_clean before hparse hwrite hcollect hclean
    refine ⟨result, records, out, hscan, hrun, hexit, fun hapart => ?_, fun hproper => ?_⟩
    · have hbalance := sum_balance hclean
      rw [hexit, FileTree.firstPaths_of_pairwise hapart,
        ScanResult.findingCount_of_sound hreports, sum_fixRuns, sum_fixRuns, sum_fixRuns]
      split
      · exact iff_of_true rfl (by omega)
      · exact iff_of_false (by decide) (by omega)
    · exact passes_of_clean hparse hproper hwrite hcollect hclean hrun
  · intro path passes text fs hfs hended
    have hbalance := length_findings_of_clean hfs hended
    omega

/-- One file can be collected by its name. -/
theorem collect_one (bytes : List UInt8) (limit : Int) :
    collect ⟨⟨1, []⟩, [(["a.js"], bytes)], []⟩ limit [⟨0, ["a.js"]⟩] =
      .ok ⟨[⟨0, ["a.js"]⟩], []⟩ := by
  have hfound : collectPaths ⟨⟨1, []⟩, [(["a.js"], bytes)], []⟩ limit [⟨0, ["a.js"]⟩] =
      .ok ⟨[⟨0, ["a.js"]⟩], []⟩ := rfl
  simp only [collect, hfound, Except.map, Path.sort_of_pairwise (List.pairwise_singleton _ _) rfl]

theorem readSource_one (text : String) :
    readSource ⟨⟨1, []⟩, [(["a.js"], Utf8.encode text)], []⟩ ⟨0, ["a.js"]⟩ = .ok text :=
  readSource_eq_ok_iff.2 ⟨["a.js"], rfl, rfl⟩

/-- The scheduler call is written anew in one round that skips nothing. -/
theorem exit_after_clean_fixes_timer :
    let args : CheckArguments := { paths := [⟨0, ["a.js"]⟩], write := true }
    let o : Options := ⟨true, ["on"], false⟩
    FixesClean timerWorld.parse o timerWorld.tree ⟨0, ["a.js"]⟩ ∧
      ∃ out, runResolved timerWorld args {} o [] = .ok out ∧ out.exit = exitOk ∧
        Passes { timerWorld with tree := out.tree } args {} o [] := by
  intro args o
  have hread : readSource timerWorld.tree ⟨0, ["a.js"]⟩ = .ok timerText := readSource_one timerText
  have hclean : FixesClean timerWorld.parse o timerWorld.tree ⟨0, ["a.js"]⟩ := by
    intro text htext
    cases hread.symm.trans htext
    decide +kernel
  have hdeferred : ((fixRuns timerWorld.parse o timerWorld.tree [⟨0, ["a.js"]⟩]).map
      Fixing.deferred).sum = 0 := by
    rw [sum_fixRuns, List.map_singleton, List.sum_singleton, countIn_of_ok hread]
    decide +kernel
  obtain ⟨⟨-, -, out, -, hrun, -, hexit, hpasses⟩, -⟩ :=
    exit_after_clean_fixes timerWorld args {} o [] _ (fun _ _ _ _ => rfl) rfl (collect_one _ _)
      (by simpa using hclean)
  refine ⟨hclean, out, hrun, (hexit (List.pairwise_singleton _ _)).2 ?_, hpasses (by decide)⟩
  rw [hdeferred]
  exact Nat.zero_le _

/-! ### A count that comes out uneven

Writing the scheduler call anew drops the closure behind its delay, which was found at first
and skipped.  There is nothing left to be put right, but one suggestion was applied and two
closures were found. -/

/-- A parser that knows `behindDelayText`, and finds nothing in any other text. -/
def behindDelayParser : Parser := fun _ text =>
  if text = behindDelayText then behindDelayTree
  else .mk ⟨⟨"program"⟩, ⟨0, (Utf8.encode text).length⟩, true, none, false, false, false⟩ []

/-- One file that holds `behindDelayText`. -/
def behindDelayWorld : World where
  environment := []
  tree := ⟨⟨1, []⟩, [(["a.js"], Utf8.encode behindDelayText)], []⟩
  parse := behindDelayParser

/-- The file is to be fixed. -/
def behindDelayArguments : CheckArguments where
  paths := [⟨0, ["a.js"]⟩]
  write := true

/-- The text without the closure behind the delay. -/
def withoutDelayedText : String := "setTimeout(o.m.bind(o), 0, x)"

/-- The pass over a text of the file. -/
def behindDelayPass : String → Pass := lint behindDelayParser unevenOptions ⟨0, ["a.js"]⟩

/-- What is found in the file at first. -/
def behindDelayFindings : List Finding := (behindDelayPass behindDelayText).hits.map Hit.finding

theorem findings_behindDelay :
    (behindDelayPass behindDelayText).findings = .ok behindDelayFindings :=
  Pass.findings_eq_ok_iff.2 ⟨by decide +kernel, rfl⟩

theorem length_behindDelayFindings : behindDelayFindings.length = 2 := by decide +kernel

theorem fix_behindDelay :
    fix behindDelayParser unevenOptions ⟨0, ["a.js"]⟩ maxPasses behindDelayText =
      ⟨[⟨behindDelayText, behindDelayPass behindDelayText, some ⟨withoutDelayedText, 1, 1⟩⟩,
        ⟨withoutDelayedText, behindDelayPass withoutDelayedText, none⟩],
        withoutDelayedText, .clean⟩ := by
  have hsorted : (Splice.offered behindDelayFindings).Pairwise
      fun a b => Splice.before a b = true := by decide +kernel
  have hout : applySuggestions behindDelayText behindDelayFindings =
      .ok ⟨withoutDelayedText, 1, 1⟩ := by
    rw [applySuggestions_of_pairwise hsorted]
    decide +kernel
  have hne : behindDelayFindings ≠ [] := by
    rw [← List.length_pos_iff, length_behindDelayFindings]
    exact Nat.two_pos
  have hclean : (behindDelayPass withoutDelayedText).findings = .ok [] := by decide +kernel
  have hrest : fixRounds behindDelayPass (8 + 1) withoutDelayedText =
      ⟨[⟨withoutDelayedText, behindDelayPass withoutDelayedText, none⟩], withoutDelayedText,
        .clean⟩ := by
    rw [fixRounds, hclean]
  change fixRounds behindDelayPass (8 + 1 + 1) behindDelayText = _
  rw [fixRounds_of_found findings_behindDelay hne hout Nat.one_pos, hrest, Fixing.cons]

theorem fixesClean_behindDelay :
    FixesClean behindDelayWorld.parse unevenOptions behindDelayWorld.tree ⟨0, ["a.js"]⟩ := by
  intro text hread
  cases (readSource_one behindDelayText).symm.trans hread
  exact congrArg Fixing.ending fix_behindDelay

/-- All fixes end clean, but the one run applies less than was found at first.  The exit code is
one, and a second run finds nothing. -/
theorem exit_one_after_clean_fixes :
    (∀ c, collect behindDelayWorld.tree ({} : Settings).maxFileSize behindDelayArguments.paths =
        .ok c → ∀ p ∈ c.files,
      FixesClean behindDelayWorld.parse unevenOptions behindDelayWorld.tree p) ∧
      (∃ fs, (lint behindDelayWorld.parse unevenOptions ⟨0, ["a.js"]⟩ behindDelayText).findings =
          .ok fs ∧
        (fix behindDelayWorld.parse unevenOptions ⟨0, ["a.js"]⟩ maxPasses
          behindDelayText).applied < fs.length) ∧
      ∃ out, runResolved behindDelayWorld behindDelayArguments {} unevenOptions [] = .ok out ∧
        out.exit = exitFindings ∧
        Passes { behindDelayWorld with tree := out.tree } behindDelayArguments {} unevenOptions
          [] := by
  have hcollect : collect behindDelayWorld.tree ({} : Settings).maxFileSize
      behindDelayArguments.paths = .ok ⟨[⟨0, ["a.js"]⟩], []⟩ := collect_one _ _
  have hread : readSource behindDelayWorld.tree ⟨0, ["a.js"]⟩ = .ok behindDelayText :=
    readSource_one behindDelayText
  have hclean : ∀ p ∈ [(⟨0, ["a.js"]⟩ : Path)],
      FixesClean behindDelayWorld.parse unevenOptions behindDelayWorld.tree p := by
    simpa using fixesClean_behindDelay
  have hlength := length_behindDelayFindings
  have happlied : (fix behindDelayWorld.parse unevenOptions ⟨0, ["a.js"]⟩ maxPasses
      behindDelayText).applied = 1 := congrArg Fixing.applied fix_behindDelay
  obtain ⟨result, records, out, -, hrun, hreports, hexit⟩ :=
    exists_outcome_of_clean [] (fun _ _ _ _ => rfl) rfl hcollect hclean
  refine ⟨?_, ⟨_, findings_behindDelay, by omega⟩, out, hrun, ?_,
    passes_of_clean (fun _ _ _ _ => rfl) (by decide) rfl hcollect hclean hrun⟩
  · intro c hc
    cases hcollect.symm.trans hc
    exact hclean
  · have hfound : found? behindDelayWorld.parse unevenOptions behindDelayWorld.tree
        ⟨0, ["a.js"]⟩ = some behindDelayFindings :=
      (found?_of_ok hread).trans (congrArg Except.toOption findings_behindDelay)
    have hcount : result.findingCount = 2 := by
      rw [ScanResult.findingCount_of_sound hreports, List.map_singleton, List.sum_singleton,
        hfound, Option.getD_some, hlength]
    have hsum : ((fixRuns behindDelayWorld.parse unevenOptions behindDelayWorld.tree
        (behindDelayWorld.tree.firstPaths [⟨0, ["a.js"]⟩])).map Fixing.applied).sum = 1 := by
      rw [FileTree.firstPaths_of_pairwise (List.pairwise_singleton _ _), sum_fixRuns,
        List.map_singleton, List.sum_singleton, countIn_of_ok hread, happlied]
    rw [hexit, hcount, hsum]
    rfl

end BindLint
