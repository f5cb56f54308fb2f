import BindLint.Proofs.Balance
import BindLint.Proofs.Collected
import BindLint.Proofs.Gating
import BindLint.Proofs.Untouched

/-!
# Files are scanned one by one

The report on a file depends on its path and on its bytes, and on nothing else: not on the files
scanned before it, and not on whether these could be read, decoded or parsed.  A scan is the list
of these reports, over what was collected, in the order of the paths (`scan_of_collect`).  If the
bytes of one file change, then at most this file comes in or drops out of what is collected, and
all other reports stay.

A scan over aligned trees gives no result only if nothing is collected because a path is too long
to be looked up; then it fails whatever the bytes of the files are.

## Main definitions

* `reportOn?` — the report on a file by itself.
* `FileReport.Tells` — a report says about a text what there is to say.
* `FileTree.SameElsewhere` — two file systems differ at most in the bytes of one file.

## Main results

* `reports_of_scanFiles` — the reports are those on the files by themselves.
* `filter_collect_of_sameElsewhere` — other files are collected as before.
* `scan_separate` — **files are scanned independently of each other.**
-/

namespace BindLint

/-! ### The report on one file -/

section Reports

variable {parse : Parser} {o : Options} {t : FileTree} {p : Path} {ps : List Path} {text : String}

/-- The report on a text. -/
def textReport (parse : Parser) (o : Options) (p : Path) (text : String) : FileReport :=
  match (lint parse o p text).stopped with
  | some e => { path := p, parseError := some e.message }
  | none => { path := p, findings := (lint parse o p text).hits.map Hit.finding }

/-- The report on a file by itself: none if it cannot be read or decoded. -/
def reportOn? (parse : Parser) (o : Options) (t : FileTree) (p : Path) : Option FileReport :=
  (readSource t p).toOption.map (textReport parse o p)

/-- A report says about a text what there is to say: where its tree has an error, or else what
is found in it. -/
def FileReport.Tells (f : FileReport) (parse : Parser) (o : Options) (text : String) : Prop :=
  if (parse f.path text).hasError then
    f.findings = [] ∧
      f.parseError = some (SyntaxError.ofTree f.path (.ofText text) (parse f.path text)).message
  else f.parseError = none ∧ (lint parse o f.path text).findings = .ok f.findings

@[simp] theorem path_textReport : (textReport parse o p text).path = p := by
  unfold textReport
  split <;> rfl

theorem tells_textReport (hp : p.isScannable = true) (halign : (parse p text).Aligned text) :
    (textReport parse o p text).Tells parse o text := by
  unfold FileReport.Tells
  rw [path_textReport]
  split
  · next herror =>
    have hrefused : (lint parse o p text).findings =
        .error (.unparsable (.ofTree p (.ofText text) (parse p text))) :=
      findings_eq_unparsable_iff.2 ⟨hp, herror, rfl⟩
    have hstop := Pass.findings_eq_error_iff.1 hrefused
    unfold textReport
    rw [hstop]
    exact ⟨rfl, rfl⟩
  · next herror =>
    obtain ⟨fs, hfs, -⟩ := exists_findings o (Bool.eq_false_iff.2 herror) halign
    obtain ⟨hstop, hhits⟩ := Pass.findings_eq_ok_iff.1 hfs
    unfold textReport
    rw [hstop, hhits]
    exact ⟨rfl, hfs⟩

theorem reportOn?_eq_some_iff {f : FileReport} :
    reportOn? parse o t p = some f ↔
      ∃ text, readSource t p = .ok text ∧ textReport parse o p text = f := by
  unfold reportOn?
  cases readSource t p <;> simp [Except.toOption]

theorem path_of_reportOn? {f : FileReport} (h : reportOn? parse o t p = some f) : f.path = p := by
  obtain ⟨text, -, rfl⟩ := reportOn?_eq_some_iff.1 h
  exact path_textReport

theorem reports_of_scanFile {r : Reported} (h : scanFile t parse o p = .ok r) :
    r.reports = (reportOn? parse o t p).toList := by
  unfold reportOn?
  cases hread : readSource t p with
  | error e =>
    simp only [scanFile, hread] at h
    cases h
    rfl
  | ok text =>
    rw [scanFile_of_ok hread] at h
    unfold reportText at h
    unfold textReport Except.toOption
    cases hstop : (lint parse o p text).stopped with
    | none =>
      simp only [hstop] at h
      cases h
      simp [hstop]
    | some e =>
      cases e with
      | unparsable e =>
        simp only [hstop] at h
        cases h
        simp [hstop, LintError.message]
      | unchecked e =>
        simp only [hstop] at h
        cases h

/-- The reports of a scan are those on its files by themselves. -/
theorem reports_of_scanFiles {r : Reported} (h : scanFiles t parse o ps = .ok r) :
    r.reports = ps.filterMap (reportOn? parse o t) := by
  induction ps generalizing r with
  | nil =>
    cases h
    rfl
  | cons p ps ih =>
    obtain ⟨first, rest, hfirst, hrest, hreports⟩ := scanFiles_cons_ok h
    rw [hreports, reports_of_scanFile hfirst, ih hrest, List.filterMap_cons]
    cases reportOn? parse o t p <;> rfl

/-- There is one report for each file that can be read. -/
theorem map_path_reports (parse : Parser) (o : Options) (t : FileTree) (ps : List Path) :
    (ps.filterMap (reportOn? parse o t)).map FileReport.path =
      ps.filter fun p => (readSource t p).toOption.isSome := by
  induction ps with
  | nil => rfl
  | cons p ps ih =>
    rw [List.filterMap_cons, List.filter_cons, reportOn?]
    cases (readSource t p).toOption with
    | none => simpa using ih
    | some text => simpa using ih

end Reports

/-! ### Whole scans -/

section Scans

variable {parse : Parser} {o : Options} {t t' : FileTree} {limit : Int} {roots : List Path}
  {loc : Location}

/-- The scan of files that were collected: each is reported on by itself. -/
def scanOf (parse : Parser) (o : Options) (t : FileTree) (files : List Path) : ScanResult :=
  let reports := files.filterMap (reportOn? parse o t)
  ⟨reports, reports.length⟩

/-- Over aligned trees, a scan comes to its end once its files are collected. -/
theorem scan_of_collect (halign : ∀ p text, (parse p text).Aligned text) {c : Collected}
    (hc : collect t limit roots = .ok c) :
    ∃ records, scan t parse o limit roots = .ok (scanOf parse o t c.files, records) := by
  obtain ⟨r, hr⟩ := exists_scanFiles_of_aligned o t halign c.files
  unfold scan scanOf
  rw [bind_of_ok (mapError_eq_ok_iff.2 hc), bind_of_ok (mapError_eq_ok_iff.2 hr),
    ← reports_of_scanFiles hr]
  exact ⟨_, rfl⟩

theorem scan_of_collect_error {e : ReadError} (hc : collect t limit roots = .error e) :
    scan t parse o limit roots = .error (.unreachable e) := by
  unfold scan
  rw [hc]
  rfl

/-- What is reported depends on which files are collected. -/
theorem map_fst_scan_congr (halign : ∀ p text, (parse p text).Aligned text) {roots' : List Path}
    (h : (collect t limit roots').map Collected.files = (collect t limit roots).map Collected.files) :
    (scan t parse o limit roots').map Prod.fst = (scan t parse o limit roots).map Prod.fst := by
  cases hc : collect t limit roots with
  | error e =>
    rw [hc] at h
    cases hc' : collect t limit roots' with
    | error e' =>
      rw [hc'] at h
      cases h
      rw [scan_of_collect_error hc, scan_of_collect_error hc']
    | ok c' =>
      rw [hc'] at h
      cases h
  | ok c =>
    rw [hc] at h
    obtain ⟨c', hc', hfiles⟩ := exists_of_map_ok h
    obtain ⟨records, hscan⟩ := scan_of_collect (o := o) halign hc
    obtain ⟨records', hscan'⟩ := scan_of_collect (o := o) halign hc'
    rw [hscan, hscan', hfiles]
    rfl

/-! ### Two file systems -/

/-- Two file systems differ at most in the bytes of the file at a location. -/
structure FileTree.SameElsewhere (t t' : FileTree) (loc : Location) : Prop
    extends FileTree.SameShape t t' where
  elsewhere : ∀ other, other ≠ loc → t'.entriesAt other = t.entriesAt other

theorem FileTree.SameElsewhere.symm (h : t.SameElsewhere t' loc) : t'.SameElsewhere t loc :=
  ⟨h.toSameShape.symm, fun other hne => (h.elsewhere other hne).symm⟩

theorem FileTree.sameElsewhere_put (h : t.hasFile loc = true) (bytes : List UInt8) :
    t.SameElsewhere (t.put loc bytes) loc :=
  ⟨sameShape_put h bytes, fun _ hne => entriesAt_put_of_ne h bytes hne.symm⟩

/-- The reports on the file at a location. -/
def ScanResult.reportsAt (r : ScanResult) (t : FileTree) (loc : Location) : List FileReport :=
  r.reports.filter fun f => t.locate f.path = .ok loc

/-- The reports on all other files. -/
def ScanResult.reportsElsewhere (r : ScanResult) (t : FileTree) (loc : Location) :
    List FileReport :=
  r.reports.filter fun f => t.locate f.path ≠ .ok loc

theorem ScanResult.findingCount_eq_add (r : ScanResult) (t : FileTree) (loc : Location) :
    r.findingCount =
      ((r.reportsAt t loc).flatMap FileReport.findings).length +
        ((r.reportsElsewhere t loc).flatMap FileReport.findings).length := by
  unfold findingCount reportsAt reportsElsewhere
  induction r.reports with
  | nil => rfl
  | cons f fs ih =>
    rw [List.foldr_cons, ih, List.filter_cons, List.filter_cons]
    by_cases hf : t.locate f.path = .ok loc
    · simp [hf]
      omega
    · simp [hf]
      omega

/-- Paths that lead elsewhere are reported on as before. -/
theorem reportOn?_of_sameElsewhere (h : t.SameElsewhere t' loc) {p : Path}
    (hp : t.locate p ≠ .ok loc) : reportOn? parse o t' p = reportOn? parse o t p := by
  unfold reportOn?
  congr 1
  apply toOption_readSource_congr
  intro text
  rw [readSource_eq_ok_iff, readSource_eq_ok_iff, h.locate_eq]
  refine exists_congr fun other => and_congr_right fun hother => ?_
  have hne : other ≠ loc := by
    rintro rfl
    exact hp hother
  rw [FileTree.bytesAt?_congr (h.elsewhere other hne)]

/-- Whether files can be collected depends on the shape alone. -/
theorem collect_error_of_sameShape (h : t.SameShape t') {e : ReadError}
    (hc : collect t limit roots = .error e) : collect t' limit roots = .error e := by
  rcases collect_cases t' limit roots with ⟨-, c', hc'⟩ | ⟨-, hc'⟩
  · obtain ⟨c, hok⟩ := exists_collect h.symm hc'
    cases hc.symm.trans hok
  · rcases collect_cases t limit roots with ⟨-, c, hok⟩ | ⟨-, hlong⟩
    · cases hc.symm.trans hok
    · rw [hc', ← hc, hlong]

theorem FileTree.SameShape.wellFormed (h : t.SameShape t') (ht : t.WellFormed) :
    t'.WellFormed := by
  have hmem : ∀ f ∈ t'.files, ∃ g ∈ t.files, g.1 = f.1 := by
    intro f hf
    have hloc : f.1 ∈ t'.files.map Prod.fst := List.mem_map.2 ⟨f, hf, rfl⟩
    rw [h.locations] at hloc
    exact List.mem_map.1 hloc
  refine ⟨?_, by rw [h.locations]; exact ht.unique, ?_⟩
  · intro f hf
    obtain ⟨g, hg, hloc⟩ := hmem f hf
    rw [← hloc]
    exact ht.names g hg
  · intro f hf
    obtain ⟨g, hg, hloc⟩ := hmem f hf
    rw [← hloc, h.hasDirectory_eq]
    exact ht.apart g hg

theorem FileTree.WellFormed.proper (ht : t.WellFormed) : t.Proper :=
  fun f hf hup => (ht.names f hf ".." hup).1 rfl

/-- A path that leads elsewhere is collected as before. -/
theorem mem_collect_of_sameElsewhere (ht : t.WellFormed) (h : t.SameElsewhere t' loc)
    {c c' : Collected} (hc : collect t limit roots = .ok c) (hc' : collect t' limit roots = .ok c')
    {p : Path} (hp : t.locate p ≠ .ok loc) (hmem : p ∈ c.files) : p ∈ c'.files := by
  obtain ⟨other, hother, -⟩ := FileTree.isFile_iff.1 (isFile_of_mem_collect ht hc hmem).1
  have hne : other ≠ loc := by
    rintro rfl
    exact hp hother
  exact mem_collect_of_entriesAt h.toSameShape ht.proper hc hc' hother (h.elsewhere other hne) hmem

/-- The other files are collected as before, in the same order. -/
theorem filter_collect_of_sameElsewhere (ht : t.WellFormed) (h : t.SameElsewhere t' loc)
    {c c' : Collected} (hc : collect t limit roots = .ok c)
    (hc' : collect t' limit roots = .ok c') :
    (c'.files.filter fun p => t.locate p ≠ .ok loc) =
      c.files.filter fun p => t.locate p ≠ .ok loc := by
  have hsorted := (pairwise_before_collect hc).filter fun p => decide (t.locate p ≠ .ok loc)
  have hsorted' := (pairwise_before_collect hc').filter fun p => decide (t.locate p ≠ .ok loc)
  refine hsorted'.eq_of_mem_iff hsorted fun p => ?_
  rw [List.mem_filter, List.mem_filter, decide_eq_true_eq]
  refine and_congr_left fun hp => ⟨?_, mem_collect_of_sameElsewhere ht h hc hc' hp⟩
  have hp' : t'.locate p ≠ .ok loc := by rwa [h.locate_eq]
  exact mem_collect_of_sameElsewhere (h.wellFormed ht) h.symm hc' hc hp'

theorem reportsElsewhere_scanOf (parse : Parser) (o : Options) (s t : FileTree) (loc : Location)
    (files : List Path) :
    (scanOf parse o s files).reportsElsewhere t loc =
      (files.filter fun p => t.locate p ≠ .ok loc).filterMap (reportOn? parse o s) := by
  unfold ScanResult.reportsElsewhere scanOf
  rw [List.filter_filterMap, List.filterMap_filter]
  refine List.filterMap_congr fun p _ => ?_
  cases hreport : reportOn? parse o s p with
  | none => simp
  | some f =>
    -- a report names the path it is on
    rw [Option.filter_some, path_of_reportOn? hreport]

/-- All other reports stay if one file changes. -/
theorem reportsElsewhere_eq (parse : Parser) (o : Options) (ht : t.WellFormed)
    (h : t.SameElsewhere t' loc) {c c' : Collected} (hc : collect t limit roots = .ok c)
    (hc' : collect t' limit roots = .ok c') :
    (scanOf parse o t' c'.files).reportsElsewhere t loc =
      (scanOf parse o t c.files).reportsElsewhere t loc := by
  rw [reportsElsewhere_scanOf, reportsElsewhere_scanOf,
    filter_collect_of_sameElsewhere ht h hc hc']
  refine List.filterMap_congr fun p hp => reportOn?_of_sameElsewhere h ?_
  simpa using (List.mem_filter.1 hp).2

end Scans

/-- **Files are scanned independently of each other.**  Which reports there are does not depend on
the order of the roots.  Once files are collected there is one report for each that can be read
and decoded, in the order of the paths, and it tells about its own text alone.  If the bytes of
one file change, all reports on other files stay, and the number of findings changes by as many
as are reported on this file. -/
theorem scan_separate (t : FileTree) (parse : Parser) (o : Options) (limit : Int)
    (roots : List Path) (ht : t.WellFormed) (halign : ∀ p text, (parse p text).Aligned text) :
    (∀ roots', (∀ r, r ∈ roots' ↔ r ∈ roots) →
      (scan t parse o limit roots').map Prod.fst = (scan t parse o limit roots).map Prod.fst) ∧
    (∀ e, collect t limit roots = .error e →
      ∀ t' loc, t.SameElsewhere t' loc → scan t' parse o limit roots = .error (.unreachable e)) ∧
    ∀ c, collect t limit roots = .ok c →
      ∃ result records, scan t parse o limit roots = .ok (result, records) ∧
        result.reports.map FileReport.path =
          (c.files.filter fun p => (readSource t p).toOption.isSome) ∧
        (result.reports.map FileReport.path).Pairwise Path.Before ∧
        (∀ f ∈ result.reports, ∃ text, readSource t f.path = .ok text ∧ f.Tells parse o text) ∧
        ∀ t' loc, t.SameElsewhere t' loc →
          ∃ result' records', scan t' parse o limit roots = .ok (result', records') ∧
            result'.reportsElsewhere t loc = result.reportsElsewhere t loc ∧
            result'.findingCount + ((result.reportsAt t loc).flatMap FileReport.findings).length =
              result.findingCount +
                ((result'.reportsAt t loc).flatMap FileReport.findings).length := by
  refine ⟨?_, ?_, ?_⟩
  · intro roots' hroots
    exact map_fst_scan_congr halign (collect_congr hroots)
  · intro e hc t' loc h
    exact scan_of_collect_error (collect_error_of_sameShape h.toSameShape hc)
  · intro c hc
    obtain ⟨records, hscan⟩ := scan_of_collect (o := o) halign hc
    have hpaths := map_path_reports parse o t c.files
    refine ⟨_, records, hscan, hpaths, ?_, ?_, ?_⟩
    · change ((c.files.filterMap (reportOn? parse o t)).map FileReport.path).Pairwise Path.Before
      rw [hpaths]
      exact (pairwise_before_collect hc).filter _
    · intro f hf
      obtain ⟨p, hp, hreport⟩ := List.mem_filterMap.1 hf
      obtain ⟨text, hread, rfl⟩ := reportOn?_eq_some_iff.1 hreport
      rw [path_textReport]
      exact ⟨text, hread, tells_textReport (isScannable_of_mem_collect hc hp) (halign p text)⟩
    · intro t' loc h
      obtain ⟨c', hc'⟩ := exists_collect h.toSameShape hc
      obtain ⟨records', hscan'⟩ := scan_of_collect (o := o) halign hc'
      have hstay := reportsElsewhere_eq parse o ht h hc hc'
      refine ⟨_, records', hscan', hstay, ?_⟩
      rw [ScanResult.findingCount_eq_add _ t loc, hstay,
        ScanResult.findingCount_eq_add (scanOf parse o t c.files) t loc]
      omega

/-- The first of two files is made undecodable: its report and the finding in it are gone, and the
report on the second stays. -/
theorem scan_separate_undecodable :
    let t' := apartTree.put ["a.js"] [0xFF]
    let roots := apartArguments.paths
    apartTree.WellFormed ∧ (∀ p text, (apartParser p text).Aligned text) ∧
      apartTree.SameElsewhere t' ["a.js"] ∧
      ∃ result records result' records',
        scan apartTree apartParser apartOptions 262144 roots = .ok (result, records) ∧
        scan t' apartParser apartOptions 262144 roots = .ok (result', records') ∧
        result.reports.map FileReport.path = [⟨0, ["a.js"]⟩, ⟨0, ["b.js"]⟩] ∧
        result'.reports.map FileReport.path = [⟨0, ["b.js"]⟩] ∧
        result'.reportsElsewhere apartTree ["a.js"] = result.reportsElsewhere apartTree ["a.js"] ∧
        result'.findingCount + 1 = result.findingCount := by
  intro t' roots
  have ht : apartTree.WellFormed := by decide
  have hsame : apartTree.SameElsewhere t' ["a.js"] := FileTree.sameElsewhere_put (by decide) [0xFF]
  have hc' : collect t' 262144 roots = .ok ⟨[⟨0, ["a.js"]⟩, ⟨0, ["b.js"]⟩], []⟩ :=
    collect_two _ _ _
  obtain ⟨-, -, hall⟩ :=
    scan_separate apartTree apartParser apartOptions 262144 roots ht aligned_apartParser
  obtain ⟨result, records, hscan, hpaths, -, -, hother⟩ := hall _ collect_apartTree
  obtain ⟨result', records', hscan', hstay, hcount⟩ := hother t' ["a.js"] hsame
  obtain ⟨_, hresult⟩ := scan_of_collect (o := apartOptions) aligned_apartParser collect_apartTree
  obtain ⟨_, hresult'⟩ := scan_of_collect (o := apartOptions) aligned_apartParser hc'
  cases hscan.symm.trans hresult
  cases hscan'.symm.trans hresult'
  refine ⟨ht, aligned_apartParser, hsame, _, _, _, _, hscan, hscan', ?_, ?_, hstay, ?_⟩
  · rw [hpaths]
    decide +kernel
  · decide +kernel
  · have hown : (((scanOf apartParser apartOptions apartTree
        [⟨0, ["a.js"]⟩, ⟨0, ["b.js"]⟩]).reportsAt apartTree ["a.js"]).flatMap
          FileReport.findings).length = 1 := by decide +kernel
    have hown' : (((scanOf apartParser apartOptions t'
        [⟨0, ["a.js"]⟩, ⟨0, ["b.js"]⟩]).reportsAt apartTree ["a.js"]).flatMap
          FileReport.findings).length = 0 := by decide +kernel
    rw [hown, hown'] at hcount
    exact hcount

end BindLint
