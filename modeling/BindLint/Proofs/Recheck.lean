import BindLint.Proofs.FixedFiles

/-!
# Checking again what was written

A run that writes fixes is told to be done by its exit code: no file is broken, no patch
left a suggestion over, and all patches together applied as many suggestions as there
were findings.  That is a count over all files.  A suggestion that a later round applies
to one file counts for a finding of another, so the code can be nought although the fix
of a file failed: `exit_zero_after_failed_fix`.

What a second run finds is decided file by file.  It passes exactly if every file that it
looks at and that had something to be put right has nothing of the kind any more; it
does not if a fix failed; and it does if all fixes ended clean.

## Main definitions

* `Clean` — there is nothing to be put right in a file.
* `Passes` — a run that only checks ends with exit code nought.
* `ToFix` — a file of a scan that is fixed, and its text.
* `Written` — what a run that writes does.

## Main results

* `passes_iff` — a check passes exactly if all files it looks at are clean.
* `passes_after_write_iff` — **when a check passes after the fixes were written.**
* `exit_zero_after_failed_fix` — a run that writes with exit code nought, after which a
  check does not pass.
-/

namespace BindLint

/-! ### Scans -/

/-- There is nothing to be put right in a file, if it can be read. -/
def Clean (parse : Parser) (o : Options) (t : FileTree) (p : Path) : Prop :=
  ∀ text, readSource t p = .ok text → (lint parse o p text).findings = .ok []

/-- A report says of a file what a pass over its text gave. -/
def ReportOn (parse : Parser) (o : Options) (t : FileTree) (p : Path) (f : FileReport) : Prop :=
  ∃ text, readSource t p = .ok text ∧
    ((∃ fs, (lint parse o p text).findings = .ok fs ∧ f = ⟨p, fs, none⟩) ∨
      ∃ e, (lint parse o p text).findings = .error (.unparsable e) ∧ f = ⟨p, [], some e.message⟩)

theorem SyntaxError.message_ne_empty (e : SyntaxError) : e.message ≠ "" := by
  unfold message
  rw [Ne, String.append_eq_empty_iff, String.append_eq_empty_iff, String.append_eq_empty_iff,
    String.append_eq_empty_iff]
  rintro ⟨⟨⟨⟨-, hat⟩, -⟩, -⟩, -⟩
  exact absurd hat (by decide)

theorem mem_reportText {parse : Parser} {o : Options} {p : Path} {text : String} {r : Reported}
    (h : reportText parse o p text = .ok r) (f : FileReport) :
    f ∈ r.reports ↔
      (∃ fs, (lint parse o p text).findings = .ok fs ∧ f = ⟨p, fs, none⟩) ∨
        ∃ e, (lint parse o p text).findings = .error (.unparsable e) ∧
          f = ⟨p, [], some e.message⟩ := by
  unfold reportText at h
  cases hstop : (lint parse o p text).stopped with
  | none =>
    simp only [hstop] at h
    obtain rfl := Except.ok.inj h
    simp [Pass.findings, hstop]
  | some e =>
    cases e with
    | unchecked e =>
      simp only [hstop] at h
      cases h
    | unparsable e =>
      simp only [hstop] at h
      obtain rfl := Except.ok.inj h
      simp [Pass.findings, hstop]

theorem scanFile_of_ok {parse : Parser} {o : Options} {t : FileTree} {p : Path} {text : String}
    (h : readSource t p = .ok text) : scanFile t parse o p = reportText parse o p text := by
  unfold scanFile
  rw [h]

/-- The reports on one file. -/
theorem mem_scanFile {parse : Parser} {o : Options} {t : FileTree} {p : Path} {r : Reported}
    (h : scanFile t parse o p = .ok r) (f : FileReport) :
    f ∈ r.reports ↔ ReportOn parse o t p f := by
  unfold ReportOn
  cases hread : readSource t p with
  | error e =>
    unfold scanFile at h
    simp only [hread] at h
    obtain rfl := Except.ok.inj h
    simp
  | ok text =>
    rw [scanFile_of_ok hread] at h
    rw [mem_reportText h]
    simp

theorem scanFiles_cons_ok {parse : Parser} {o : Options} {t : FileTree} {p : Path}
    {ps : List Path} {r : Reported} (h : scanFiles t parse o (p :: ps) = .ok r) :
    ∃ first rest, scanFile t parse o p = .ok first ∧ scanFiles t parse o ps = .ok rest ∧
      r.reports = first.reports ++ rest.reports := by
  obtain ⟨first, hfirst, h⟩ := exists_of_bind_ok h
  obtain ⟨rest, hrest, h⟩ := exists_of_bind_ok h
  cases h
  exact ⟨first, rest, hfirst, hrest, rfl⟩

/-- The reports of a scan are those on its files. -/
theorem mem_scanFiles {parse : Parser} {o : Options} {t : FileTree} {ps : List Path}
    {r : Reported} (h : scanFiles t parse o ps = .ok r) (f : FileReport) :
    f ∈ r.reports ↔ ∃ p ∈ ps, ReportOn parse o t p f := by
  induction ps generalizing r with
  | nil =>
    cases h
    simp
  | cons p ps ih =>
    obtain ⟨first, rest, hfirst, hrest, hreports⟩ := scanFiles_cons_ok h
    rw [hreports, List.mem_append, mem_scanFile hfirst, ih hrest, List.exists_mem_cons_iff]

theorem reportText_of_unchecked {parse : Parser} {o : Options} {p : Path} {text : String}
    {e : CheckError} (h : (lint parse o p text).stopped = some (.unchecked e)) :
    reportText parse o p text = .error e := by
  unfold reportText
  simp only [h]

theorem exists_reportText {parse : Parser} {o : Options} {p : Path} {text : String}
    (h : (lint parse o p text).stopped = none) : ∃ r, reportText parse o p text = .ok r := by
  unfold reportText
  simp only [h]
  exact ⟨_, rfl⟩

/-- A scan that comes to its end reports on every file that can be read. -/
theorem exists_reportOn {parse : Parser} {o : Options} {t : FileTree} {ps : List Path}
    {r : Reported} (h : scanFiles t parse o ps = .ok r) {p : Path} (hp : p ∈ ps) {text : String}
    (hread : readSource t p = .ok text) : ∃ f, ReportOn parse o t p f := by
  induction ps generalizing r with
  | nil => cases hp
  | cons q ps ih =>
    obtain ⟨first, rest, hfirst, hrest, -⟩ := scanFiles_cons_ok h
    rcases List.mem_cons.1 hp with rfl | hp
    · cases hfound : (lint parse o p text).findings with
      | ok fs => exact ⟨_, text, hread, Or.inl ⟨fs, hfound, rfl⟩⟩
      | error e =>
        cases e with
        | unparsable e => exact ⟨_, text, hread, Or.inr ⟨e, hfound, rfl⟩⟩
        | unchecked e =>
          rw [scanFile_of_ok hread,
            reportText_of_unchecked (Pass.findings_eq_error_iff.1 hfound)] at hfirst
          cases hfirst
    · exact ih hrest hp

theorem exists_scanFile {parse : Parser} {o : Options} {t : FileTree} {p : Path}
    (h : Clean parse o t p) : ∃ r, scanFile t parse o p = .ok r := by
  cases hread : readSource t p with
  | error e =>
    unfold scanFile
    rw [hread]
    exact ⟨_, rfl⟩
  | ok text =>
    rw [scanFile_of_ok hread]
    exact exists_reportText (Pass.findings_eq_ok_iff.1 (h text hread)).1

/-- A scan of clean files comes to its end. -/
theorem exists_scanFiles {parse : Parser} {o : Options} {t : FileTree} {ps : List Path}
    (h : ∀ p ∈ ps, Clean parse o t p) : ∃ r, scanFiles t parse o ps = .ok r := by
  induction ps with
  | nil => exact ⟨_, rfl⟩
  | cons p ps ih =>
    obtain ⟨first, hfirst⟩ := exists_scanFile (h p List.mem_cons_self)
    obtain ⟨rest, hrest⟩ := ih fun q hq => h q (List.mem_cons_of_mem p hq)
    unfold scanFiles
    rw [hfirst, hrest]
    exact ⟨_, rfl⟩

/-- There is nothing to be put right according to a report. -/
def FileReport.IsClean (f : FileReport) : Prop := f.findings = [] ∧ f.isBroken = false

theorem ReportOn.isClean_iff {parse : Parser} {o : Options} {t : FileTree} {p : Path}
    {f : FileReport} (h : ReportOn parse o t p f) : f.IsClean ↔ Clean parse o t p := by
  obtain ⟨text, hread, h⟩ := h
  have hclean : Clean parse o t p ↔ (lint parse o p text).findings = .ok [] := by
    constructor
    · exact fun hp => hp text hread
    · rintro hp text' htext'
      cases hread.symm.trans htext'
      exact hp
  rw [hclean]
  rcases h with ⟨fs, hfs, rfl⟩ | ⟨e, he, rfl⟩
  · simp [FileReport.IsClean, FileReport.isBroken, hfs]
  · simp [FileReport.IsClean, FileReport.isBroken, he, e.message_ne_empty]

/-- A file of a scan is clean exactly if its reports say so. -/
theorem clean_iff_of_scanFiles {parse : Parser} {o : Options} {t : FileTree} {ps : List Path}
    {r : Reported} (h : scanFiles t parse o ps = .ok r) :
    (∀ p ∈ ps, Clean parse o t p) ↔ ∀ f ∈ r.reports, f.IsClean := by
  constructor
  · intro hps f hf
    obtain ⟨p, hp, hreport⟩ := (mem_scanFiles h f).1 hf
    exact hreport.isClean_iff.2 (hps p hp)
  · intro hr p hp text hread
    -- a text that can be read has a report
    obtain ⟨f, hreport⟩ := exists_reportOn h hp hread
    exact hreport.isClean_iff.1 (hr f ((mem_scanFiles h f).2 ⟨p, hp, hreport⟩)) text hread

/-! ### Checks -/

theorem scan_ok {t : FileTree} {parse : Parser} {o : Options} {limit : Int} {paths : List Path}
    {result : ScanResult} {records : List Log.Record}
    (h : scan t parse o limit paths = .ok (result, records)) :
    ∃ c r, collect t limit paths = .ok c ∧ scanFiles t parse o c.files = .ok r ∧
      result.reports = r.reports := by
  obtain ⟨c, hc, h⟩ := exists_of_bind_ok h
  obtain ⟨r, hr, h⟩ := exists_of_bind_ok h
  cases h
  exact ⟨c, r, mapError_eq_ok_iff.1 hc, mapError_eq_ok_iff.1 hr, rfl⟩

theorem exists_scan {t : FileTree} {parse : Parser} {o : Options} {limit : Int}
    {paths : List Path} {c : Collected} {r : Reported} (hc : collect t limit paths = .ok c)
    (hr : scanFiles t parse o c.files = .ok r) :
    ∃ result records, scan t parse o limit paths = .ok (result, records) ∧
      result.reports = r.reports := by
  unfold scan
  rw [bind_of_ok (mapError_eq_ok_iff.2 hc), bind_of_ok (mapError_eq_ok_iff.2 hr)]
  exact ⟨_, _, rfl, rfl⟩

theorem ScanResult.findingCount_eq_zero_iff {r : ScanResult} :
    r.findingCount = 0 ↔ ∀ f ∈ r.reports, f.findings = [] := by
  rw [findingCount]
  induction r.reports with
  | nil => simp
  | cons f fs ih => simp [ih]

theorem exitCode_eq_exitOk_iff {r : ScanResult} :
    exitCode r [] false = exitOk ↔ ∀ f ∈ r.reports, f.IsClean := by
  unfold exitCode FileReport.IsClean
  by_cases hbroken : r.reports.any FileReport.isBroken = true
  · rw [if_pos hbroken]
    obtain ⟨f, hf, hfb⟩ := List.any_eq_true.1 hbroken
    simp only [exitFindings, exitOk, Nat.one_ne_zero, false_iff]
    intro h
    rw [(h f hf).2] at hfb
    cases hfb
  · rw [if_neg hbroken]
    have hnone : ∀ f ∈ r.reports, f.isBroken = false := by simpa using hbroken
    by_cases hcount : r.findingCount = 0
    · simp only [Bool.false_eq_true, if_false, if_pos hcount, true_iff]
      exact fun f hf => ⟨ScanResult.findingCount_eq_zero_iff.1 hcount f hf, hnone f hf⟩
    · simp only [Bool.false_eq_true, if_false, if_neg hcount, exitFindings, exitOk, Nat.one_ne_zero,
        false_iff]
      exact fun h => hcount (ScanResult.findingCount_eq_zero_iff.2 fun f hf => (h f hf).1)

/-- With exit code nought no file is broken. -/
theorem isBroken_of_exitCode {r : ScanResult} {tallies : List Tally} {written : Bool}
    (h : exitCode r tallies written = exitOk) : ∀ f ∈ r.reports, f.isBroken = false := by
  unfold exitCode at h
  split at h
  · cases h
  · next hnone => simpa using hnone

/-- A run that only checks ends with exit code nought. -/
def Passes (w : World) (args : CheckArguments) (s : Settings) (o : Options)
    (before : List Log.Record) : Prop :=
  ∃ out, runResolved w { args with diff := false, write := false } s o before = .ok out ∧
    out.exit = exitOk

/-- A check passes exactly if all files that it looks at are clean. -/
theorem passes_iff {w : World} {args : CheckArguments} {s : Settings} {o : Options}
    {before : List Log.Record} :
    Passes w args s o before ↔
      ∃ c, collect w.tree s.maxFileSize args.paths = .ok c ∧
        ∀ p ∈ c.files, Clean w.parse o w.tree p := by
  constructor
  · rintro ⟨out, hrun, hexit⟩
    obtain ⟨⟨result, records⟩, hscan, hrun⟩ := exists_of_bind_ok hrun
    obtain ⟨fixed, hfixed, hrun⟩ := exists_of_bind_ok hrun
    cases hfixed
    cases hrun
    obtain ⟨c, r, hc, hr, hreports⟩ := scan_ok hscan
    refine ⟨c, hc, (clean_iff_of_scanFiles hr).2 ?_⟩
    rw [← hreports]
    exact exitCode_eq_exitOk_iff.1 hexit
  · rintro ⟨c, hc, hclean⟩
    obtain ⟨r, hr⟩ := exists_scanFiles hclean
    obtain ⟨result, records, hscan, hreports⟩ := exists_scan hc hr
    unfold Passes runResolved
    rw [bind_of_ok hscan]
    refine ⟨_, rfl, exitCode_eq_exitOk_iff.2 ?_⟩
    rw [hreports]
    exact (clean_iff_of_scanFiles hr).1 hclean

/-! ### Checks after writing -/

/-- A file of a scan that is fixed, and its text: something was found in it. -/
structure ToFix (w : World) (args : CheckArguments) (s : Settings) (o : Options) (p : Path)
    (text : String) : Prop where
  /-- It is one of the files to look at. -/
  collected : ∃ c, collect w.tree s.maxFileSize args.paths = .ok c ∧ p ∈ c.files
  /-- It holds the text. -/
  read : readSource w.tree p = .ok text
  /-- Something is found in the text. -/
  found : ∃ fs, (lint w.parse o p text).findings = .ok fs ∧ fs ≠ []

theorem isScannable_of_mem_collect {t : FileTree} {limit : Int} {roots : List Path} {p : Path}
    {c : Collected} (h : collect t limit roots = .ok c) (hp : p ∈ c.files) :
    p.isScannable = true := by
  obtain ⟨root, -, hcollects⟩ := (mem_collect h).1 hp
  exact hcollects.isScannable

theorem ToFix.isScannable {w : World} {args : CheckArguments} {s : Settings} {o : Options}
    {p : Path} {text : String} (h : ToFix w args s o p text) : p.isScannable = true := by
  obtain ⟨c, hc, hp⟩ := h.collected
  exact isScannable_of_mem_collect hc hp

/-- What a run that writes does: it scans files, and fixes those in which it found
something. -/
structure Written (w : World) (args : CheckArguments) (s : Settings) (o : Options)
    (c : Collected) (r : Reported) (ps : List Path) (fixed : Fixed) : Prop where
  /-- The files it looked at. -/
  collected : collect w.tree s.maxFileSize args.paths = .ok c
  /-- What it reported on them. -/
  scanned : scanFiles w.tree w.parse o c.files = .ok r
  /-- What fixing gave. -/
  fixes : fixFiles w.parse o true w.tree ps = .ok fixed
  /-- The files it fixed. -/
  mem_iff : ∀ p, p ∈ ps ↔ ∃ text, ToFix w args s o p text

/-- A run that writes leaves the files as they were fixed; if its exit code is nought, no
file was broken. -/
theorem exists_written {w : World} {args : CheckArguments} {s : Settings} {o : Options}
    {before : List Log.Record} {out : Outcome} (hwrite : args.write = true)
    (h : runResolved w args s o before = .ok out) :
    ∃ c r ps fixed, Written w args s o c r ps fixed ∧ out.tree = fixed.tree ∧
      (out.exit = exitOk → ∀ f ∈ r.reports, f.isBroken = false) := by
  obtain ⟨⟨result, records⟩, hscan, h⟩ := exists_of_bind_ok h
  obtain ⟨c, r, hc, hr, hreports⟩ := scan_ok hscan
  dsimp only at h
  rw [hwrite, Bool.or_true, if_pos rfl] at h
  obtain ⟨fixed, hfixed, h⟩ := exists_of_bind_ok h
  obtain rfl := Except.ok.inj h
  refine ⟨c, r, _, fixed, ⟨hc, hr, mapError_eq_ok_iff.1 hfixed, ?_⟩, rfl, ?_⟩
  · intro p
    rw [hreports, List.mem_map]
    constructor
    · rintro ⟨f, hf, rfl⟩
      obtain ⟨hf, hfound⟩ := List.mem_filter.1 hf
      obtain ⟨p, hp, text, hread, ⟨fs, hfs, rfl⟩ | ⟨e, -, rfl⟩⟩ := (mem_scanFiles hr f).1 hf
      · exact ⟨text, ⟨c, hc, hp⟩, hread, fs, hfs, by simpa using hfound⟩
      · simp at hfound
    · rintro ⟨text, ⟨c', hc', hp⟩, hread, fs, hfs, hne⟩
      obtain rfl : c = c' := Except.ok.inj (hc.symm.trans hc')
      refine ⟨⟨p, fs, none⟩, List.mem_filter.2 ⟨?_, by simpa using hne⟩, rfl⟩
      exact (mem_scanFiles hr _).2 ⟨p, hp, text, hread, Or.inl ⟨fs, hfs, rfl⟩⟩
  · intro hexit f hf
    rw [← hreports] at hf
    exact isBroken_of_exitCode hexit f hf

/-- If nothing is found in a file through one path, nothing is through another. -/
theorem findings_eq_nil_of_locate {parse : Parser} (hparse : parse.ByLanguage) {o : Options}
    {t : FileTree} {p q : Path} {loc : Location} (hp : t.locate p = .ok loc)
    (hq : t.locate q = .ok loc) (hps : p.isScannable = true) (hqs : q.isScannable = true)
    {text : String} (h : (lint parse o p text).findings = .ok []) :
    (lint parse o q text).findings = .ok [] := by
  have hlang := FileTree.language_eq_of_locate hp hq hps hqs
  have hfound := findings_lint_congr hparse o hlang text
  rw [h] at hfound
  cases hfoundq : (lint parse o q text).findings with
  | error e =>
    rw [hfoundq] at hfound
    cases hfound
  | ok fs =>
    rw [hfoundq] at hfound
    cases hfound
    rfl

namespace Written

variable {w : World} {args : CheckArguments} {s : Settings} {o : Options} {c c' : Collected}
  {r : Reported} {ps : List Path} {fixed : Fixed} {p q : Path} {loc : Location} {text : String}

/-- A file that is clean at first is clean afterwards: nothing is written to it. -/
theorem clean_of_clean (h : Written w args s o c r ps fixed) (hparse : w.parse.ByLanguage)
    (hp : p.isScannable = true) (hclean : Clean w.parse o w.tree p) :
    Clean w.parse o fixed.tree p := by
  intro text hread
  obtain ⟨loc, hloc, hbytes⟩ := readSource_eq_ok_iff.1 hread
  rw [(sameShape_fixFiles h.fixes).locate_eq] at hloc
  have hentries : fixed.tree.entriesAt loc = w.tree.entriesAt loc := by
    refine entriesAt_fixFiles h.fixes fun q hq hqloc old hold => ?_
    -- something would be found in the file through one path and not through the other
    obtain ⟨old', hfixq⟩ := (h.mem_iff q).1 hq
    obtain rfl : old = old' := Except.ok.inj <|
      (readSource_eq_ok_iff.2 ⟨loc, hqloc, hold⟩).symm.trans hfixq.read
    have hnil := findings_eq_nil_of_locate hparse hloc hqloc hp hfixq.isScannable <|
      hclean old (readSource_eq_ok_iff.2 ⟨loc, hloc, hold⟩)
    obtain ⟨fs, hfs, hne⟩ := hfixq.found
    rw [hnil] at hfs
    cases hfs
    exact absurd rfl hne
  rw [FileTree.bytesAt?_congr hentries] at hbytes
  exact hclean text (readSource_eq_ok_iff.2 ⟨loc, hloc, hbytes⟩)

/-- A file whose fix failed keeps its text, and is looked at again. -/
theorem not_passes_of_failed (h : Written w args s o c r ps fixed) (hparse : w.parse.ByLanguage)
    (hproper : w.tree.Proper) {e : FixError} (hp : ToFix w args s o p text)
    (hfailed : (fix w.parse o p maxPasses text).ending = .failed e) (before : List Log.Record) :
    ¬Passes { w with tree := fixed.tree } args s o before := by
  intro hpasses
  obtain ⟨c', hc', hclean⟩ := passes_iff.1 hpasses
  obtain ⟨c, hc, hmem⟩ := hp.collected
  obtain ⟨loc, hloc, hbytes⟩ := readSource_eq_ok_iff.1 hp.read
  have hshape := sameShape_fixFiles h.fixes
  have hentries : fixed.tree.entriesAt loc = w.tree.entriesAt loc := by
    refine entriesAt_fixFiles h.fixes fun q hq hqloc old hold => ?_
    -- the fix fails through every path that leads to the file
    obtain rfl : old = text :=
      Utf8.encode_injective (Option.some.inj (hold.symm.trans hbytes))
    obtain ⟨_, hfixq⟩ := (h.mem_iff q).1 hq
    have hlang := FileTree.language_eq_of_locate hqloc hloc hfixq.isScannable hp.isScannable
    rw [textLeft_congr hparse o hlang, textLeft_of_failed hfailed]
  have hmem' := mem_collect_of_entriesAt hshape hproper hc hc' hloc hentries hmem
  rw [← FileTree.bytesAt?_congr hentries] at hbytes
  have hread : readSource fixed.tree p = .ok text :=
    readSource_eq_ok_iff.2 ⟨loc, by rw [hshape.locate_eq, hloc], hbytes⟩
  obtain ⟨fs, hfs, hne⟩ := hp.found
  rw [hclean p hmem' text hread] at hfs
  cases hfs
  exact hne rfl

/-- A file whose fix ends clean holds the text that the fix left. -/
theorem bytesAt?_of_clean (h : Written w args s o c r ps fixed) (hparse : w.parse.ByLanguage)
    (hq : ToFix w args s o q text) (hloc : w.tree.locate q = .ok loc)
    (hended : (fix w.parse o q maxPasses text).ending = .clean) :
    fixed.tree.bytesAt? loc = some (Utf8.encode (textLeft w.parse o q text)) := by
  obtain ⟨loc', hloc', hbytes⟩ := readSource_eq_ok_iff.1 hq.read
  obtain rfl : loc = loc' := Except.ok.inj (hloc.symm.trans hloc')
  have hleft : ∀ p ∈ ps, w.tree.locate p = .ok loc →
      textLeft w.parse o p = textLeft w.parse o q := by
    intro p hp hploc
    obtain ⟨_, hfixp⟩ := (h.mem_iff p).1 hp
    exact textLeft_congr hparse o <|
      FileTree.language_eq_of_locate hploc hloc hfixp.isScannable hq.isScannable
  obtain ⟨k, hk, hpos⟩ := bytesAt?_fixFiles h.fixes hleft hbytes
  have hne : k ≠ 0 := Nat.pos_iff_ne_zero.1 (hpos ⟨q, (h.mem_iff q).2 ⟨text, hq⟩, hloc⟩)
  obtain ⟨k, rfl⟩ := Nat.exists_eq_succ_of_ne_zero hne
  -- a text without findings is left as it is by all later fixes
  have hfixed : textLeft w.parse o q (textLeft w.parse o q text) = textLeft w.parse o q text :=
    textLeft_of_clean (findings_textLeft hended)
  rw [hk, Function.iterate_succ_apply, Function.iterate_fixed hfixed]

/-- A file to which nothing is written is clean if the scan found nothing broken. -/
theorem clean_of_not_fixed (h : Written w args s o c r ps fixed) (hproper : w.tree.Proper)
    (hbroken : ∀ f ∈ r.reports, f.isBroken = false)
    (hc' : collect fixed.tree s.maxFileSize args.paths = .ok c') (hp : p ∈ c'.files)
    (hloc : w.tree.locate p = .ok loc) (hnone : ∀ q ∈ ps, w.tree.locate q ≠ .ok loc) :
    Clean w.parse o fixed.tree p := by
  intro text hread
  have hshape := sameShape_fixFiles h.fixes
  have hentries : fixed.tree.entriesAt loc = w.tree.entriesAt loc :=
    entriesAt_fixFiles h.fixes fun q hq hqloc => absurd hqloc (hnone q hq)
  have hloc' : fixed.tree.locate p = .ok loc := by rw [hshape.locate_eq, hloc]
  have hmem : p ∈ c.files :=
    mem_collect_of_entriesAt hshape.symm (hshape.proper hproper) hc' h.collected hloc'
      hentries.symm hp
  have hold : readSource w.tree p = .ok text := by
    obtain ⟨loc', hloc'', hbytes⟩ := readSource_eq_ok_iff.1 hread
    obtain rfl : loc = loc' := Except.ok.inj (hloc'.symm.trans hloc'')
    rw [FileTree.bytesAt?_congr hentries] at hbytes
    exact readSource_eq_ok_iff.2 ⟨loc, hloc, hbytes⟩
  obtain ⟨f, hf⟩ := exists_reportOn h.scanned hmem hold
  have hunbroken := hbroken f ((mem_scanFiles h.scanned f).2 ⟨p, hmem, hf⟩)
  obtain ⟨text', hread', ⟨fs, hfs, -⟩ | ⟨e, -, rfl⟩⟩ := hf
  · obtain rfl : text = text' := Except.ok.inj (hold.symm.trans hread')
    -- otherwise the file would have been fixed
    have hnil : fs = [] := by
      by_contra hne
      exact hnone p ((h.mem_iff p).2 ⟨text, ⟨c, h.collected, hmem⟩, hold, fs, hfs, hne⟩) hloc
    rw [hfs, hnil]
  · simp [FileReport.isBroken, e.message_ne_empty] at hunbroken

/-- All files are clean if all fixes end clean and the scan found nothing broken. -/
theorem clean_of_all_clean (h : Written w args s o c r ps fixed) (hparse : w.parse.ByLanguage)
    (hproper : w.tree.Proper) (hbroken : ∀ f ∈ r.reports, f.isBroken = false)
    (hended : ∀ p text, ToFix w args s o p text →
      (fix w.parse o p maxPasses text).ending = .clean)
    (hc' : collect fixed.tree s.maxFileSize args.paths = .ok c') (hp : p ∈ c'.files) :
    Clean w.parse o fixed.tree p := by
  intro text hread
  obtain ⟨loc, hloc, hbytes⟩ := readSource_eq_ok_iff.1 hread
  rw [(sameShape_fixFiles h.fixes).locate_eq] at hloc
  by_cases hfixed : ∃ q ∈ ps, w.tree.locate q = .ok loc
  · obtain ⟨q, hq, hqloc⟩ := hfixed
    obtain ⟨old, hq⟩ := (h.mem_iff q).1 hq
    have hleft := h.bytesAt?_of_clean hparse hq hqloc (hended q old hq)
    obtain rfl : text = textLeft w.parse o q old :=
      Utf8.encode_injective (Option.some.inj (hbytes.symm.trans hleft))
    exact findings_eq_nil_of_locate hparse hqloc hloc hq.isScannable
      (isScannable_of_mem_collect hc' hp) (findings_textLeft (hended q old hq))
  · have hnone : ∀ q ∈ ps, w.tree.locate q ≠ .ok loc := fun q hq hqloc => hfixed ⟨q, hq, hqloc⟩
    exact h.clean_of_not_fixed hproper hbroken hc' hp hloc hnone text hread

end Written

/-- **When a check passes after the fixes were written.**  It does exactly if each file
that it looks at and that was not clean has become so.  It does not if a fix failed, even
though the exit code may be nought; and it does if the exit code is nought and all fixes
ended clean. -/
theorem passes_after_write_iff (w : World) (args : CheckArguments) (s : Settings) (o : Options)
    (before : List Log.Record) (out : Outcome) (hparse : w.parse.ByLanguage)
    (hwrite : args.write = true) (hrun : runResolved w args s o before = .ok out) :
    (Passes { w with tree := out.tree } args s o before ↔
        ∀ c, collect out.tree s.maxFileSize args.paths = .ok c → ∀ p ∈ c.files,
          ¬Clean w.parse o w.tree p → Clean w.parse o out.tree p) ∧
      (w.tree.Proper → (∃ p text e, ToFix w args s o p text ∧
          (fix w.parse o p maxPasses text).ending = .failed e) →
        ¬Passes { w with tree := out.tree } args s o before) ∧
      (w.tree.Proper → out.exit = exitOk →
        (∀ p text, ToFix w args s o p text →
          (fix w.parse o p maxPasses text).ending = .clean) →
        Passes { w with tree := out.tree } args s o before) := by
  obtain ⟨c, r, ps, fixed, h, htree, hbroken⟩ := exists_written hwrite hrun
  obtain ⟨c', hc'⟩ := exists_collect (sameShape_fixFiles h.fixes) h.collected
  rw [htree]
  refine ⟨⟨?_, ?_⟩, ?_, ?_⟩
  · intro hpasses c'' hc'' p hp _
    obtain ⟨d, hd, hclean⟩ := passes_iff.1 hpasses
    obtain rfl : c'' = d := Except.ok.inj (hc''.symm.trans hd)
    exact hclean p hp
  · intro hbecome
    refine passes_iff.2 ⟨c', hc', fun p hp => ?_⟩
    by_cases hclean : Clean w.parse o w.tree p
    · exact (h.clean_of_clean hparse (isScannable_of_mem_collect hc' hp) hclean :)
    · exact hbecome c' hc' p hp hclean
  · rintro hproper ⟨p, text, e, hp, hfailed⟩
    exact h.not_passes_of_failed hparse hproper hp hfailed before
  · intro hproper hexit hended
    refine passes_iff.2 ⟨c', hc', fun p hp => ?_⟩
    exact (h.clean_of_all_clean hparse hproper (hbroken hexit) hended hc' hp :)

theorem Path.sort_of_pairwise {ps : List Path} (h : ps.Pairwise fun p q => p.le q = true)
    (hdups : ps.eraseDups = ps) : Path.sort ps = ps := by
  rw [sort, List.mergeSort_of_pairwise h, hdups]

/-- One file that holds `timerText`. -/
def timerWorld : World where
  environment := []
  tree := ⟨⟨1, []⟩, [(["a.js"], Utf8.encode timerText)], []⟩
  parse := timerParser

/-- The scheduler call is written anew, and nothing is found in it any more. -/
theorem passes_after_write_timer :
    let args : CheckArguments := { paths := [⟨0, ["a.js"]⟩], write := true }
    let o : Options := ⟨true, ["on"], false⟩
    timerWorld.tree.Proper ∧ ∃ out, runResolved timerWorld args {} o [] = .ok out ∧
      out.exit = exitOk ∧ Passes { timerWorld with tree := out.tree } args {} o [] := by
  intro args o
  have hproper : timerWorld.tree.Proper := by decide
  have hexit : (runResolved timerWorld args {} o []).toOption.map Outcome.exit = some exitOk := by
    decide +kernel
  have hcollect : collect timerWorld.tree ({} : Settings).maxFileSize args.paths =
      .ok ⟨[⟨0, ["a.js"]⟩], []⟩ := by
    have hfound : collectPaths timerWorld.tree ({} : Settings).maxFileSize args.paths =
        .ok ⟨[⟨0, ["a.js"]⟩], []⟩ := rfl
    simp only [collect, hfound, Except.map, Path.sort_of_pairwise (List.pairwise_singleton _ _) rfl]
  have hended : ∀ p text, ToFix timerWorld args {} o p text →
      (fix timerWorld.parse o p maxPasses text).ending = .clean := by
    rintro p text ⟨⟨c, hc, hp⟩, hread, -⟩
    cases hcollect.symm.trans hc
    obtain rfl := List.mem_singleton.1 hp
    have hread' : readSource timerWorld.tree ⟨0, ["a.js"]⟩ = .ok timerText :=
      readSource_eq_ok_iff.2 ⟨["a.js"], rfl, rfl⟩
    cases hread'.symm.trans hread
    decide +kernel
  cases hrun : runResolved timerWorld args {} o [] with
  | error e =>
    rw [hrun] at hexit
    cases hexit
  | ok out =>
    rw [hrun] at hexit
    have hexit' : out.exit = exitOk := Option.some.inj hexit
    obtain ⟨-, -, hpasses⟩ :=
      passes_after_write_iff timerWorld args {} o [] out (fun _ _ _ _ => rfl) rfl hrun
    exact ⟨hproper, out, rfl, hexit', hpasses hproper hexit' hended⟩

/-! ### A count that comes out even

The fix of the first file fails: the new text `1.m` does not parse.  The second file has one
finding, and the first round uncovers another, so that two suggestions are applied to it.
The count of applied suggestions is that of the findings, and nothing is left over. -/

/-- A tree with an error from an offset on. -/
def faultyTree (start stop : Nat) : Node :=
  .ofLabel ⟨⟨"program"⟩, ⟨0, stop⟩, true, none, false, false, false⟩
    [.ofLabel ⟨⟨"ERROR"⟩, ⟨start, stop⟩, true, none, true, false, false⟩ []]

/-- A parser that knows the texts of both files. -/
def unevenParser : Parser := fun _ text =>
  if text = "on(() => 1 .m())" then
    callTree 2 16 [forwardingTree 3 15 ⟨"number"⟩ ⟨9, 10⟩ 12 []]
  else if text = "on(1.m.bind(1))" then faultyTree 5 15
  else if text = "setTimeout(() => o.m(() => a.b()))" then
    callTree 10 34
      [forwardingTree 11 33 .identifier ⟨17, 18⟩ 19
        [forwardingTree 21 32 .identifier ⟨27, 28⟩ 29 []]]
  else if text = "setTimeout(o.m.bind(o), 0, () => a.b())" then
    callTree 10 39
      [.part .call 11 22 none [], .part ⟨"number"⟩ 24 25 none [],
        forwardingTree 27 38 .identifier ⟨33, 34⟩ 35 []]
  else callTree 10 39 []

/-- Two files, each with one finding. -/
def unevenWorld : World where
  environment := []
  tree :=
    { base := ⟨1, []⟩
      files :=
        [(["a.js"], Utf8.encode "on(() => 1 .m())"),
          (["b.js"], Utf8.encode "setTimeout(() => o.m(() => a.b()))")]
      directories := [] }
  parse := unevenParser

/-- The options that are used if none are given. -/
def unevenOptions : Options :=
  ⟨true, ["addEventListener", "on", "once", "setInterval", "setTimeout", "subscribe"], false⟩

/-- Both files are to be fixed. -/
def unevenArguments : CheckArguments where
  paths := [⟨0, ["a.js"]⟩, ⟨0, ["b.js"]⟩]
  write := true

/-- Two files can be collected by their names. -/
theorem collect_two (x y : List UInt8) (limit : Int) :
    collect ⟨⟨1, []⟩, [(["a.js"], x), (["b.js"], y)], []⟩ limit [⟨0, ["a.js"]⟩, ⟨0, ["b.js"]⟩] =
      .ok ⟨[⟨0, ["a.js"]⟩, ⟨0, ["b.js"]⟩], []⟩ := by
  have hfound : collectPaths ⟨⟨1, []⟩, [(["a.js"], x), (["b.js"], y)], []⟩ limit
      [⟨0, ["a.js"]⟩, ⟨0, ["b.js"]⟩] = .ok ⟨[⟨0, ["a.js"]⟩, ⟨0, ["b.js"]⟩], []⟩ := rfl
  have hsort : Path.sort [⟨0, ["a.js"]⟩, ⟨0, ["b.js"]⟩] = [⟨0, ["a.js"]⟩, ⟨0, ["b.js"]⟩] :=
    Path.sort_of_pairwise (by decide +kernel) (by decide)
  simp only [collect, hfound, Except.map, hsort]

theorem collect_unevenWorld :
    collect unevenWorld.tree ({} : Settings).maxFileSize unevenArguments.paths =
      .ok ⟨[⟨0, ["a.js"]⟩, ⟨0, ["b.js"]⟩], []⟩ :=
  collect_two _ _ _

theorem toFix_unevenWorld :
    ToFix unevenWorld unevenArguments {} unevenOptions ⟨0, ["a.js"]⟩ "on(() => 1 .m())" where
  collected := ⟨_, collect_unevenWorld, List.mem_cons_self⟩
  read := readSource_eq_ok_iff.2 ⟨["a.js"], rfl, rfl⟩
  found := ⟨_, Pass.findings_eq_ok_iff.2 ⟨by decide +kernel, rfl⟩, by decide +kernel⟩

theorem fix_unevenWorld :
    (fix unevenWorld.parse unevenOptions ⟨0, ["a.js"]⟩ maxPasses "on(() => 1 .m())").ending =
      .failed (.stopped (.unparsable ⟨⟨0, ["a.js"]⟩, 1, 5⟩)) := by
  decide +kernel

/-- The fix of a file fails and another one makes up for it: the exit code is nought, and a
second run finds what was left in the first file. -/
theorem exit_zero_after_failed_fix :
    ∃ out, runResolved unevenWorld unevenArguments {} unevenOptions [] = .ok out ∧
      out.exit = exitOk ∧
      ¬Passes { unevenWorld with tree := out.tree } unevenArguments {} unevenOptions [] := by
  have hexit : (runResolved unevenWorld unevenArguments {} unevenOptions []).toOption.map
      Outcome.exit = some exitOk := by
    unfold runResolved scan
    rw [bind_of_ok (mapError_eq_ok_iff.2 collect_unevenWorld)]
    decide +kernel
  cases hrun : runResolved unevenWorld unevenArguments {} unevenOptions [] with
  | error e =>
    rw [hrun] at hexit
    cases hexit
  | ok out =>
    rw [hrun] at hexit
    refine ⟨out, rfl, Option.some.inj hexit, ?_⟩
    obtain ⟨c, r, ps, fixed, hwritten, htree, -⟩ := exists_written rfl hrun
    rw [htree]
    exact hwritten.not_passes_of_failed (fun _ _ _ _ => rfl) (by decide) toFix_unevenWorld
      fix_unevenWorld []

end BindLint
