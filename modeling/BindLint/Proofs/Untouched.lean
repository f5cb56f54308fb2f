import BindLint.Proofs.Laminar
import BindLint.Proofs.Recheck

/-!
# A run touches only what it fixes

A run of linting reads settings and options, scans files, and then fixes those in which it found
something, one after the other, for each path that it came to them by.  Files are changed only at
the very end, and only if fixes are to be written.

What happens to one file can be told without looking at any other: `refix` fixes its text for
each of the paths that lead to it, and leaves it as it is where a fix fails.  All else that a run
does to the files is nothing.  So a failure in one file is not seen in any other, neither in its
bytes nor in its patches.

## Main definitions

* `patchFor?`, `refix` — a text fixed for one path, and for several in turn.
* `Checked` — a run that came to its report, with what it scanned and what it fixed.
* `LeavesAt` — what such a run leaves at a location.

## Main results

* `bytesAt?_eq_refix` — the file at a location and its patches, after fixing any files.
* `exists_fixFiles` — fixing comes to its end, whatever fails.
* `failed_of_aligned` — over aligned trees a fix fails only where a text does not parse.
* `check_touches_only_fixed` — **a run changes only files that it fixes, and fixes each of them as
  if there were no other.**
-/

namespace BindLint

/-! ### The file at one location -/

/-- The paths among some that lead to a location. -/
def FileTree.pathsTo (t : FileTree) (loc : Location) (ps : List Path) : List Path :=
  ps.filter fun p => t.locate p = .ok loc

/-- The patches among some for the file at a location. -/
def FileTree.patchesTo (t : FileTree) (loc : Location) (patches : List Patch) : List Patch :=
  patches.filter fun patch => t.locate patch.path = .ok loc

/-- The patch that fixing a text for a path gives: none if the fix fails, or if the text stays. -/
def patchFor? (parse : Parser) (o : Options) (p : Path) (text : String) : Option Patch :=
  ((fix parse o p maxPasses text).patch p text).toOption.join

/-- A text fixed for some paths in turn: the patches, and the text that is left.  If fixes are
written, each fix starts from what the one before left; a fix that fails leaves what it found. -/
def refix (parse : Parser) (o : Options) (write : Bool) :
    List Path → String → List Patch × String
  | [], text => ([], text)
  | p :: ps, text =>
      let patch? := patchFor? parse o p text
      let next := if write then (patch?.map Patch.source).getD text else text
      let rest := refix parse o write ps next
      (patch?.toList ++ rest.1, rest.2)

section

variable {parse parse' : Parser} {o : Options} {write : Bool} {t : FileTree} {p : Path}
  {ps : List Path} {loc : Location} {text : String}

theorem patchFor?_eq_some_iff {patch : Patch} :
    patchFor? parse o p text = some patch ↔
      (fix parse o p maxPasses text).patch p text = .ok (some patch) := by
  unfold patchFor?
  cases (fix parse o p maxPasses text).patch p text with
  | error e => simp [Except.toOption]
  | ok patch? => simp [Except.toOption]

theorem refix_cons_of_none (h : patchFor? parse o p text = none) :
    refix parse o write (p :: ps) text = refix parse o write ps text := by
  cases write <;> simp [refix, h]

theorem refix_cons_of_some {patch : Patch} (h : patchFor? parse o p text = some patch) :
    refix parse o write (p :: ps) text =
      (patch :: (refix parse o write ps (if write then patch.source else text)).1,
        (refix parse o write ps (if write then patch.source else text)).2) := by
  simp [refix, h]

/-- The text that is left is the old one, or that of a patch. -/
theorem refix_cases (parse : Parser) (o : Options) (write : Bool) (ps : List Path)
    (text : String) :
    (refix parse o write ps text).2 = text ∨
      write = true ∧ ∃ patch ∈ (refix parse o write ps text).1,
        (refix parse o write ps text).2 = patch.source := by
  induction ps generalizing text with
  | nil => exact Or.inl rfl
  | cons p ps ih =>
    cases hpatch : patchFor? parse o p text with
    | none =>
      rw [refix_cons_of_none hpatch]
      exact ih text
    | some patch =>
      rw [refix_cons_of_some hpatch]
      rcases ih (if write then patch.source else text) with hsame | ⟨hwrite, q, hq, hsource⟩
      · cases write with
        | false => exact Or.inl hsame
        | true => exact Or.inr ⟨rfl, patch, List.mem_cons_self, hsame⟩
      · exact Or.inr ⟨hwrite, q, List.mem_cons_of_mem patch hq, hsource⟩

/-- Parsers that agree on a path fix its texts alike. -/
theorem patchFor?_congr (h : ∀ text, parse' p text = parse p text) (text : String) :
    patchFor? parse' o p text = patchFor? parse o p text := by
  have hlint : lint parse' o p = lint parse o p := by
    funext text
    rw [lint, lint, h text]
  rw [patchFor?, patchFor?, fix, fix, hlint]

theorem refix_congr (h : ∀ p ∈ ps, ∀ text, parse' p text = parse p text) (text : String) :
    refix parse' o write ps text = refix parse o write ps text := by
  induction ps generalizing text with
  | nil => rfl
  | cons p ps ih =>
    have htail := ih fun q hq => h q (List.mem_cons_of_mem p hq)
    simp only [refix, patchFor?_congr (h p List.mem_cons_self), htail]

/-! ### Fixing files -/

/-- Fixing a file leaves other locations alone, and all of them if nothing is written. -/
theorem entriesAt_of_fixFile {first : Fixed} (h : fixFile parse o write t p = .ok first)
    (hloc : write = true → t.locate p ≠ .ok loc) : first.tree.entriesAt loc = t.entriesAt loc := by
  rcases fixFile_parts h with ⟨htree, -⟩ | ⟨own, text, patch, hown, hbytes, -, -, htree⟩
  · rw [htree]
  · rw [htree]
    split
    · next hwrite =>
      have hne : own ≠ loc := by
        rintro rfl
        exact hloc hwrite hown
      exact FileTree.entriesAt_put_of_ne (FileTree.hasFile_of_bytesAt? hbytes) _ hne
    · rfl

theorem entriesAt_of_fixFiles {fixed : Fixed} (h : fixFiles parse o write t ps = .ok fixed)
    (hloc : write = true → ∀ p ∈ ps, t.locate p ≠ .ok loc) :
    fixed.tree.entriesAt loc = t.entriesAt loc := by
  induction ps generalizing t fixed with
  | nil =>
    cases h
    rfl
  | cons p ps ih =>
    obtain ⟨first, rest, hfirst, hrest, htree, -⟩ := fixFiles_cons_ok h
    have hown := entriesAt_of_fixFile hfirst fun hwrite => hloc hwrite p List.mem_cons_self
    rw [htree, ← hown]
    refine ih hrest fun hwrite q hq => ?_
    rw [(sameShape_fixFile hfirst).locate_eq]
    exact hloc hwrite q (List.mem_cons_of_mem p hq)

/-- A patch stands for the path that the file was fixed for. -/
theorem patchesTo_fixFile {first : Fixed} (h : fixFile parse o write t p = .ok first) :
    t.patchesTo loc first.patches = if t.locate p = .ok loc then first.patches else [] := by
  rcases fixFile_parts h with ⟨-, hnil, -⟩ | ⟨own, text, patch, -, -, hpatch, hone, -⟩
  · rw [hnil]
    split <;> rfl
  · have hpath : patch.path = p := (Fixing.of_patch hpatch).1
    rw [hone, FileTree.patchesTo, List.filter_singleton, hpath]
    simp

theorem FileTree.patchesTo_append (t : FileTree) (loc : Location) (a b : List Patch) :
    t.patchesTo loc (a ++ b) = t.patchesTo loc a ++ t.patchesTo loc b :=
  List.filter_append a b

theorem FileTree.SameShape.patchesTo_eq {t' : FileTree} (h : t.SameShape t') (loc : Location)
    (patches : List Patch) : t'.patchesTo loc patches = t.patchesTo loc patches := by
  simp only [FileTree.patchesTo, h.locate_eq]

theorem FileTree.SameShape.pathsTo_eq {t' : FileTree} (h : t.SameShape t') (loc : Location)
    (ps : List Path) : t'.pathsTo loc ps = t.pathsTo loc ps := by
  simp only [FileTree.pathsTo, h.locate_eq]

/-- A file that does not hold a text is left alone, and has no patch. -/
theorem fixFiles_of_not_text {fixed : Fixed} (h : fixFiles parse o write t ps = .ok fixed)
    (hbytes : ∀ text, t.bytesAt? loc ≠ some (Utf8.encode text)) :
    fixed.tree.entriesAt loc = t.entriesAt loc ∧ t.patchesTo loc fixed.patches = [] := by
  induction ps generalizing t fixed with
  | nil =>
    cases h
    exact ⟨rfl, rfl⟩
  | cons p ps ih =>
    obtain ⟨first, rest, hfirst, hrest, htree, hpatches⟩ := fixFiles_cons_ok h
    have hown : first.tree.entriesAt loc = t.entriesAt loc ∧
        t.patchesTo loc first.patches = [] := by
      rcases fixFile_parts hfirst with ⟨hsame, hnil, -⟩ | ⟨own, text, patch, hown, hold, -, -, -⟩
      · rw [hsame, hnil]
        exact ⟨rfl, rfl⟩
      · -- a patch comes from a text, so it is for another file
        have hne : t.locate p ≠ .ok loc := by
          intro hp
          obtain rfl : own = loc := Except.ok.inj (hown.symm.trans hp)
          exact hbytes text hold
        exact ⟨entriesAt_of_fixFile hfirst fun _ => hne, by rw [patchesTo_fixFile hfirst, if_neg hne]⟩
    obtain ⟨hentries, hnone⟩ := ih hrest fun text => by
      rw [FileTree.bytesAt?_congr hown.1]
      exact hbytes text
    rw [(sameShape_fixFile hfirst).patchesTo_eq] at hnone
    rw [htree, hentries, hown.1, hpatches, FileTree.patchesTo_append, hown.2, hnone]
    exact ⟨rfl, rfl⟩

/-- **The file at a location and its patches, after fixing any files**: what comes of its text by
the paths that lead to it, whatever else is fixed before or after and however that ends. -/
theorem bytesAt?_eq_refix {fixed : Fixed} (h : fixFiles parse o write t ps = .ok fixed)
    (hbytes : t.bytesAt? loc = some (Utf8.encode text)) :
    fixed.tree.bytesAt? loc =
        some (Utf8.encode (refix parse o write (t.pathsTo loc ps) text).2) ∧
      t.patchesTo loc fixed.patches = (refix parse o write (t.pathsTo loc ps) text).1 := by
  induction ps generalizing t fixed text with
  | nil =>
    cases h
    exact ⟨hbytes, rfl⟩
  | cons p ps ih =>
    obtain ⟨first, rest, hfirst, hrest, htree, hpatches⟩ := fixFiles_cons_ok h
    have hshape := sameShape_fixFile hfirst
    have hrest' : ∀ text', first.tree.bytesAt? loc = some (Utf8.encode text') →
        rest.tree.bytesAt? loc =
            some (Utf8.encode (refix parse o write (t.pathsTo loc ps) text').2) ∧
          t.patchesTo loc rest.patches = (refix parse o write (t.pathsTo loc ps) text').1 := by
      intro text' htext'
      have hih := ih hrest htext'
      rwa [hshape.pathsTo_eq, hshape.patchesTo_eq] at hih
    rw [htree, hpatches, FileTree.patchesTo_append, patchesTo_fixFile hfirst]
    by_cases hloc : t.locate p = .ok loc
    · have hcons : t.pathsTo loc (p :: ps) = p :: t.pathsTo loc ps := by
        simp [FileTree.pathsTo, hloc]
      have hread : readSource t p = .ok text := readSource_eq_ok_iff.2 ⟨loc, hloc, hbytes⟩
      rw [if_pos hloc, hcons]
      rcases fixFile_parts hfirst with ⟨hsame, hnil, hnone⟩ |
        ⟨own, text', patch, hown, hold, hpatch, hone, hput⟩
      · -- the fix failed, or left the old text
        have hno : patchFor? parse o p text = none :=
          Option.eq_none_iff_forall_ne_some.2 fun patch hpatch =>
            hnone text hread patch (patchFor?_eq_some_iff.1 hpatch)
        rw [refix_cons_of_none hno, hnil, List.nil_append]
        exact hrest' text (by rw [hsame, hbytes])
      · obtain rfl : own = loc := Except.ok.inj (hown.symm.trans hloc)
        obtain rfl : text' = text :=
          Utf8.encode_injective (Option.some.inj (hold.symm.trans hbytes))
        have hnext : first.tree.bytesAt? own =
            some (Utf8.encode (if write then patch.source else text')) := by
          rw [hput]
          split
          · exact FileTree.bytesAt?_put (FileTree.hasFile_of_bytesAt? hold) _
          · exact hold
        obtain ⟨hlast, hothers⟩ := hrest' _ hnext
        rw [refix_cons_of_some (patchFor?_eq_some_iff.2 hpatch), hone, hothers]
        exact ⟨hlast, rfl⟩
    · have hskip : t.pathsTo loc (p :: ps) = t.pathsTo loc ps := by
        simp [FileTree.pathsTo, hloc]
      have hentries : first.tree.entriesAt loc = t.entriesAt loc :=
        entriesAt_of_fixFile hfirst fun _ => hloc
      rw [if_neg hloc, hskip, List.nil_append]
      exact hrest' text (by rw [FileTree.bytesAt?_congr hentries, hbytes])

/-! ### Failures -/

/-- What makes a run fail: a pass that does not come to its end, or bytes that are no text. -/
theorem failed_cases {pass : String → Pass} {n : Nat} {e : FixError}
    (h : (fixRounds pass n text).ending = .failed e) :
    (∃ last e', (pass last).findings = .error e' ∧ e = .stopped e') ∨
      ∃ last fs fault, (pass last).findings = .ok fs ∧ applySuggestions last fs = .error fault ∧
        e = .undecodable fault := by
  induction n generalizing text with
  | zero => cases h
  | succ n ih =>
    rw [fixRounds] at h
    split at h
    · next e' he' =>
      cases h
      exact Or.inl ⟨text, e', he', rfl⟩
    · cases h
    · next fs hne hfs =>
      split at h
      · next fault hfault =>
        cases h
        exact Or.inr ⟨text, fs, fault, hfs, hfault, rfl⟩
      · split at h
        · cases h
        · exact ih h

theorem ending_of_patch_error {run : Fixing} {e : FixError} (h : run.patch p text = .error e) :
    run.ending = .failed e := by
  unfold Fixing.patch at h
  split at h
  · next e' he' =>
    cases h
    exact he'
  · split at h <;> cases h

theorem findings_ne_irreplaceable (parse : Parser) (o : Options) (p : Path) (text : String)
    (e : EditError) : (lint parse o p text).findings ≠ .error (.unchecked (.irreplaceable e)) := by
  intro h
  rw [Pass.findings_eq_error_iff] at h
  unfold lint lintTree at h
  split at h
  · split at h
    · cases h
    · obtain ⟨q, -, e', hcheck, he'⟩ := exists_error_of_stopped h
      cases he'
      exact check_ne_irreplaceable o _ q e hcheck
  · cases h

theorem exists_fixFile (parse : Parser) (o : Options) (write : Bool) (t : FileTree) (p : Path) :
    ∃ first, fixFile parse o write t p = .ok first := by
  unfold fixFile
  split
  · exact ⟨_, rfl⟩
  · next text _ =>
    dsimp only
    split
    · next e he =>
      -- nothing is reported that cannot be replaced
      rcases failed_cases (ending_of_patch_error he) with ⟨last, e', hlast, heq⟩ |
        ⟨last, fs, fault, -, -, heq⟩
      · cases heq
        exact absurd hlast (findings_ne_irreplaceable parse o p last e)
      · cases heq
    · exact ⟨_, rfl⟩
    · exact ⟨_, rfl⟩
    · split <;> exact ⟨_, rfl⟩

/-- **Fixing comes to its end, whatever fails.** -/
theorem exists_fixFiles (parse : Parser) (o : Options) (write : Bool) (t : FileTree)
    (ps : List Path) : ∃ fixed, fixFiles parse o write t ps = .ok fixed := by
  induction ps generalizing t with
  | nil => exact ⟨_, rfl⟩
  | cons p ps ih =>
    obtain ⟨first, hfirst⟩ := exists_fixFile parse o write t p
    obtain ⟨rest, hrest⟩ := ih first.tree
    rw [fixFiles, bind_of_ok hfirst, bind_of_ok hrest]
    exact ⟨_, rfl⟩

/-- A pass over an aligned tree comes to its end, unless the text does not parse. -/
theorem findings_of_aligned (o : Options) (halign : (parse p text).Aligned text) :
    (∃ fs, (lint parse o p text).findings = .ok fs ∧
        ∀ f ∈ fs, ∃ s : Suggestion, f.suggestions = [s] ∧ s.Replaces (parse p text)) ∨
      ∃ e, (lint parse o p text).findings = .error (.unparsable e) := by
  by_cases herror : (parse p text).hasError = true
  · by_cases hpath : p.isScannable = true
    · refine Or.inr ⟨.ofTree p (.ofText text) (parse p text), ?_⟩
      rw [lint, if_pos hpath, lintTree, if_pos herror]
      rfl
    · refine Or.inl ⟨[], ?_, by simp⟩
      rw [lint, if_neg hpath]
      rfl
  · exact Or.inl (exists_findings o (Bool.eq_false_iff.2 herror) halign)

/-- **Over aligned trees a fix fails only where a text does not parse.** -/
theorem failed_of_aligned (halign : ∀ text, (parse p text).Aligned text) {n : Int} {e : FixError}
    (h : (fix parse o p n text).patch p text = .error e) :
    ∃ e', e = .stopped (.unparsable e') := by
  rcases failed_cases (ending_of_patch_error h) with ⟨last, e', hlast, rfl⟩ |
    ⟨last, fs, fault, hlast, hfault, -⟩
  · rcases findings_of_aligned o (halign last) with ⟨fs, hfs, -⟩ | ⟨e'', he''⟩
    · cases hlast.symm.trans hfs
    · cases hlast.symm.trans he''
      exact ⟨e'', rfl⟩
  · rcases findings_of_aligned o (halign last) with ⟨fs', hfs', hone⟩ | ⟨e'', he''⟩
    · -- what replaces nodes of an aligned tree can be applied
      cases hlast.symm.trans hfs'
      have hboundary : ∀ s ∈ Splice.offered fs,
          (0 ≤ s.start ∧ Utf8.IsBoundary last s.start.toNat) ∧
            0 ≤ s.stop ∧ Utf8.IsBoundary last s.stop.toNat := by
        intro s hs
        obtain ⟨f, hf, hhead⟩ := List.mem_filterMap.1 hs
        obtain ⟨s', hs', hreplaces⟩ := hone f hf
        rw [hs'] at hhead
        cases hhead
        exact hreplaces.boundary (halign last)
      obtain ⟨out, hout, -⟩ := Splice.exists_applied hboundary
      cases hfault.symm.trans hout
    · cases hlast.symm.trans he''

theorem exists_scanFiles_of_aligned (o : Options) (t : FileTree)
    (halign : ∀ p text, (parse p text).Aligned text) (ps : List Path) :
    ∃ r, scanFiles t parse o ps = .ok r := by
  induction ps with
  | nil => exact ⟨_, rfl⟩
  | cons p ps ih =>
    obtain ⟨rest, hrest⟩ := ih
    have hfirst : ∃ first, scanFile t parse o p = .ok first := by
      cases hread : readSource t p with
      | error e =>
        unfold scanFile
        rw [hread]
        exact ⟨_, rfl⟩
      | ok text =>
        rw [scanFile_of_ok hread]
        rcases findings_of_aligned o (halign p text) with ⟨fs, hfs, -⟩ | ⟨e, he⟩
        · exact exists_reportText (Pass.findings_eq_ok_iff.1 hfs).1
        · unfold reportText
          simp only [Pass.findings_eq_error_iff.1 he]
          exact ⟨_, rfl⟩
    obtain ⟨first, hfirst⟩ := hfirst
    rw [scanFiles, bind_of_ok hfirst, bind_of_ok hrest]
    exact ⟨_, rfl⟩

/-! ### Scans -/

/-- Parsers that agree on the paths to a location report the same on it. -/
theorem filter_reports_congr {r r' : Reported}
    (hparse : ∀ p, t.locate p = .ok loc → ∀ text, parse' p text = parse p text)
    (hr : scanFiles t parse o ps = .ok r) (hr' : scanFiles t parse' o ps = .ok r') :
    (r'.reports.filter fun f => t.locate f.path = .ok loc) =
      r.reports.filter fun f => t.locate f.path = .ok loc := by
  induction ps generalizing r r' with
  | nil =>
    cases hr
    cases hr'
    rfl
  | cons p ps ih =>
    obtain ⟨first, rest, hfirst, hrest, hreports⟩ := scanFiles_cons_ok hr
    obtain ⟨first', rest', hfirst', hrest', hreports'⟩ := scanFiles_cons_ok hr'
    rw [hreports, hreports', List.filter_append, List.filter_append, ih hrest hrest']
    congr 1
    by_cases hloc : t.locate p = .ok loc
    · have hlint : ∀ text, lint parse' o p text = lint parse o p text := by
        intro text
        rw [lint, lint, hparse p hloc text]
      have hsame : scanFile t parse' o p = scanFile t parse o p := by
        unfold scanFile
        split
        · rfl
        · unfold reportText
          rw [hlint]
      rw [hsame, hfirst] at hfirst'
      rw [Except.ok.inj hfirst']
    · -- reports on a path name it, and this one leads elsewhere
      have hnone : ∀ {q : Parser} {r : Reported}, scanFile t q o p = .ok r →
          (r.reports.filter fun f => t.locate f.path = .ok loc) = [] := by
        intro q r h
        rw [List.filter_eq_nil_iff]
        intro f hf
        obtain ⟨text, -, ⟨fs, -, rfl⟩ | ⟨e, -, rfl⟩⟩ := (mem_scanFile h f).1 hf <;> simpa using hloc
      rw [hnone hfirst, hnone hfirst']

end

/-- The paths for which files are fixed: those of the reports with findings, if fixes are asked
for. -/
def CheckArguments.fixedPaths (args : CheckArguments) (reports : List FileReport) : List Path :=
  if args.diff || args.write then
    (reports.filter fun f => !f.findings.isEmpty).map FileReport.path
  else []

theorem CheckArguments.mem_fixedPaths {args : CheckArguments} {reports : List FileReport}
    {p : Path} (h : p ∈ args.fixedPaths reports) :
    ∃ f ∈ reports, f.findings ≠ [] ∧ f.path = p := by
  unfold fixedPaths at h
  split at h
  · obtain ⟨f, hf, rfl⟩ := List.mem_map.1 h
    obtain ⟨hf, hfound⟩ := List.mem_filter.1 hf
    exact ⟨f, hf, by simpa using hfound, rfl⟩
  · cases h

theorem CheckArguments.pathsTo_fixedPaths (args : CheckArguments) (t : FileTree) (loc : Location)
    (reports : List FileReport) :
    t.pathsTo loc (args.fixedPaths reports) =
      args.fixedPaths (reports.filter fun f => t.locate f.path = .ok loc) := by
  unfold FileTree.pathsTo fixedPaths
  split
  · rw [List.filter_map, List.filter_comm]
    rfl
  · rfl

/-! ### Runs -/

/-- A run that came to its report: the options it used, what the scan reported, what fixing gave,
and what all this leaves. -/
structure Checked (w : World) (args : CheckArguments) (out : Outcome) (o : Options)
    (result : ScanResult) (fixed : Fixed) : Prop where
  options : ∃ object records, findOptions w.tree args.config = .ok (object, records) ∧
    Options.resolve (args.overrides.applyTo object) = .ok o
  scanned : ∃ s records, Settings.read w.environment w.tree = .ok s ∧
    scan w.tree w.parse o s.maxFileSize args.paths = .ok (result, records)
  fixes : fixFiles w.parse o args.write w.tree (args.fixedPaths result.reports) = .ok fixed
  tree : out.tree = fixed.tree
  output : out.output = checkOutput args result fixed.patches
  exit : out.exit = exitCode result (fixed.patches.map Patch.tally) args.write

theorem runResolved_ok {w : World} {args : CheckArguments} {s : Settings} {o : Options}
    {before : List Log.Record} {out : Outcome} (h : runResolved w args s o before = .ok out) :
    ∃ result records fixed,
      scan w.tree w.parse o s.maxFileSize args.paths = .ok (result, records) ∧
      fixFiles w.parse o args.write w.tree (args.fixedPaths result.reports) = .ok fixed ∧
      out.tree = fixed.tree ∧ out.output = checkOutput args result fixed.patches ∧
      out.exit = exitCode result (fixed.patches.map Patch.tally) args.write := by
  obtain ⟨⟨result, records⟩, hscan, h⟩ := exists_of_bind_ok h
  dsimp only at h
  unfold CheckArguments.fixedPaths
  split at h
  · next hasked =>
    obtain ⟨fixed, hfixed, h⟩ := exists_of_bind_ok h
    obtain rfl := Except.ok.inj h
    refine ⟨result, records, fixed, hscan, ?_, rfl, rfl, rfl⟩
    rw [if_pos hasked]
    exact mapError_eq_ok_iff.1 hfixed
  · next hasked =>
    obtain rfl := Except.ok.inj h
    refine ⟨result, records, { tree := w.tree }, hscan, ?_, rfl, rfl, rfl⟩
    rw [if_neg hasked]
    rfl

theorem exitCode_ne_exitConfigError (r : ScanResult) (tallies : List Tally) (written : Bool) :
    exitCode r tallies written ≠ exitConfigError := by
  unfold exitCode
  split_ifs <;> decide

/-- A run that has scanned comes to its report. -/
theorem exists_runResolved {w : World} {args : CheckArguments} {s : Settings} {o : Options}
    {result : ScanResult} {logs : List Log.Record}
    (hscan : scan w.tree w.parse o s.maxFileSize args.paths = .ok (result, logs))
    (before : List Log.Record) : ∃ out, runResolved w args s o before = .ok out := by
  unfold runResolved
  rw [bind_of_ok hscan]
  dsimp only
  split
  · obtain ⟨fixed, hfixed⟩ := exists_fixFiles w.parse o args.write w.tree
      ((result.reports.filter fun f => !f.findings.isEmpty).map FileReport.path)
    have hfixed' : fixReports w.parse o args.write w.tree result = .ok fixed := hfixed
    rw [bind_of_ok (mapError_eq_ok_iff.2 hfixed')]
    exact ⟨_, rfl⟩
  · exact ⟨_, rfl⟩

/-- A run that ends with an outcome was refused before it scanned, or came to its report. -/
theorem runCheck_cases {w : World} {args : CheckArguments} {out : Outcome}
    (h : runCheck w args = .ok out) :
    (out.tree = w.tree ∧ out.exit = exitConfigError) ∨
      ∃ o result fixed, Checked w args out o result fixed := by
  unfold runCheck at h
  split at h
  · cases h
  · next s hs =>
    dsimp only at h
    split at h
    · split at h
      · cases h
        exact Or.inl ⟨rfl, rfl⟩
      · cases h
    · next object records hobject =>
      split at h
      · split at h
        · cases h
          exact Or.inl ⟨rfl, rfl⟩
        · cases h
      · next o ho =>
        split at h
        · cases h
        · next outcome hrun =>
          cases h
          obtain ⟨result, logs, fixed, hscan, hfixed, htree, houtput, hexit⟩ := runResolved_ok hrun
          exact Or.inr ⟨o, result, fixed, ⟨object, records, hobject, ho⟩, ⟨s, logs, hs, hscan⟩,
            hfixed, htree, houtput, hexit⟩

/-- What a run that came to its report leaves at a location. -/
structure LeavesAt (w : World) (args : CheckArguments) (o : Options) (result : ScanResult)
    (fixed : Fixed) (loc : Location) : Prop where
  /-- Nothing changes unless fixes are written and something was found in the file. -/
  untouched : (args.write = true → ∀ f ∈ result.reports, f.findings ≠ [] →
    w.tree.locate f.path ≠ .ok loc) → fixed.tree.entriesAt loc = w.tree.entriesAt loc
  /-- Nothing changes if the file holds no text, and there is no patch for it. -/
  unreadable : (∀ text, w.tree.bytesAt? loc ≠ some (Utf8.encode text)) →
    fixed.tree.entriesAt loc = w.tree.entriesAt loc ∧ w.tree.patchesTo loc fixed.patches = []
  /-- A text is fixed for each report on the file, and by nothing else. -/
  refixed : ∀ text, w.tree.bytesAt? loc = some (Utf8.encode text) →
    let left := refix w.parse o args.write
      (w.tree.pathsTo loc (args.fixedPaths result.reports)) text
    fixed.tree.bytesAt? loc = some (Utf8.encode left.2) ∧
      w.tree.patchesTo loc fixed.patches = left.1
  /-- The file holds what it held, or the new text of one of its patches. -/
  old_or_patched : fixed.tree.bytesAt? loc = w.tree.bytesAt? loc ∨
    args.write = true ∧ ∃ patch ∈ w.tree.patchesTo loc fixed.patches,
      fixed.tree.bytesAt? loc = some (Utf8.encode patch.source)

section

variable {w : World} {args : CheckArguments} {out : Outcome} {o : Options} {result : ScanResult}
  {fixed : Fixed}

theorem Checked.leavesAt (h : Checked w args out o result fixed) (loc : Location) :
    LeavesAt w args o result fixed loc where
  untouched := by
    intro hfound
    refine entriesAt_of_fixFiles h.fixes fun hwrite p hp => ?_
    obtain ⟨f, hf, hne, rfl⟩ := CheckArguments.mem_fixedPaths hp
    exact hfound hwrite f hf hne
  unreadable := fixFiles_of_not_text h.fixes
  refixed := fun text hbytes => bytesAt?_eq_refix h.fixes hbytes
  old_or_patched := by
    by_cases htext : ∃ text, w.tree.bytesAt? loc = some (Utf8.encode text)
    · obtain ⟨text, hbytes⟩ := htext
      obtain ⟨hlast, hpatches⟩ := bytesAt?_eq_refix h.fixes hbytes
      rw [hlast, hpatches, hbytes]
      rcases refix_cases w.parse o args.write
          (w.tree.pathsTo loc (args.fixedPaths result.reports)) text with
        hsame | ⟨hwrite, patch, hpatch, hsource⟩
      · exact Or.inl (by rw [hsame])
      · exact Or.inr ⟨hwrite, patch, hpatch, by rw [hsource]⟩
    · have hleft := fixFiles_of_not_text h.fixes fun text hbytes => htext ⟨text, hbytes⟩
      exact Or.inl (FileTree.bytesAt?_congr hleft.1)

/-- **What a parser makes of one file is not seen in any other.** -/
theorem Checked.eq_elsewhere {parse' : Parser} {floc loc : Location} {out' : Outcome}
    {o' : Options} {result' : ScanResult} {fixed' : Fixed}
    (hparse : ∀ p, w.tree.locate p ≠ .ok floc → ∀ text, parse' p text = w.parse p text)
    (h : Checked w args out o result fixed)
    (h' : Checked { w with parse := parse' } args out' o' result' fixed') (hloc : loc ≠ floc) :
    out'.tree.bytesAt? loc = out.tree.bytesAt? loc ∧
      w.tree.patchesTo loc fixed'.patches = w.tree.patchesTo loc fixed.patches := by
  -- settings, options and files do not depend on the parser
  obtain ⟨object, records, hobject, ho⟩ := h.options
  obtain ⟨object', records', hobject', ho'⟩ := h'.options
  cases hobject.symm.trans hobject'
  obtain rfl : o = o' := Except.ok.inj (ho.symm.trans ho')
  obtain ⟨s, logs, hs, hscan⟩ := h.scanned
  obtain ⟨s', logs', hs', hscan'⟩ := h'.scanned
  obtain rfl : s = s' := Except.ok.inj (hs.symm.trans hs')
  obtain ⟨c, r, hc, hr, hreports⟩ := scan_ok hscan
  obtain ⟨c', r', hc', hr', hreports'⟩ := scan_ok hscan'
  obtain rfl : c = c' := Except.ok.inj (hc.symm.trans hc')
  have hagree : ∀ p, w.tree.locate p = .ok loc → ∀ text, parse' p text = w.parse p text := by
    intro p hp
    refine hparse p fun hfloc => hloc ?_
    exact Except.ok.inj (hp.symm.trans hfloc)
  have hpaths : w.tree.pathsTo loc (args.fixedPaths result'.reports) =
      w.tree.pathsTo loc (args.fixedPaths result.reports) := by
    rw [args.pathsTo_fixedPaths, args.pathsTo_fixedPaths, hreports, hreports',
      filter_reports_congr hagree hr hr']
  rw [h.tree, h'.tree]
  by_cases htext : ∃ text, w.tree.bytesAt? loc = some (Utf8.encode text)
  · obtain ⟨text, hbytes⟩ := htext
    obtain ⟨hlast, hpatches⟩ := bytesAt?_eq_refix h.fixes hbytes
    obtain ⟨hlast', hpatches'⟩ := bytesAt?_eq_refix h'.fixes hbytes
    have hsame : refix parse' o args.write
          (w.tree.pathsTo loc (args.fixedPaths result'.reports)) text =
        refix w.parse o args.write
          (w.tree.pathsTo loc (args.fixedPaths result.reports)) text := by
      rw [hpaths]
      refine refix_congr (fun p hp => hagree p ?_) text
      exact of_decide_eq_true (List.mem_filter.1 hp).2
    rw [hlast, hlast', hpatches, hpatches', hsame]
    exact ⟨rfl, rfl⟩
  · have hnot : ∀ text, w.tree.bytesAt? loc ≠ some (Utf8.encode text) :=
      fun text hbytes => htext ⟨text, hbytes⟩
    obtain ⟨hentries, hnone⟩ := fixFiles_of_not_text h.fixes hnot
    obtain ⟨hentries', hnone'⟩ := fixFiles_of_not_text h'.fixes hnot
    rw [FileTree.bytesAt?_congr hentries, FileTree.bytesAt?_congr hentries', hnone]
    exact ⟨rfl, hnone'⟩

/-- Over aligned trees a run is ended by a scan only where a path cannot be looked up. -/
theorem collect_of_runCheck_error (halign : ∀ p text, (w.parse p text).Aligned text)
    {e : ScanError} (h : runCheck w args = .error (.scan e)) :
    ∃ s e', Settings.read w.environment w.tree = .ok s ∧
      collect w.tree s.maxFileSize args.paths = .error e' := by
  unfold runCheck at h
  split at h
  · cases h
  · next s hs =>
    dsimp only at h
    split at h
    · split at h <;> cases h
    · next object records hobject =>
      split at h
      · split at h <;> cases h
      · next o ho =>
        split at h
        · next e' hrun =>
          cases hc : collect w.tree s.maxFileSize args.paths with
          | error e'' => exact ⟨s, e'', hs, hc⟩
          | ok c =>
            -- both the scan and the fixes come to their end
            obtain ⟨r, hr⟩ := exists_scanFiles_of_aligned o w.tree halign c.files
            obtain ⟨result, logs, hscan, -⟩ := exists_scan hc hr
            obtain ⟨out, hout⟩ := exists_runResolved hscan records
            cases hout.symm.trans hrun
        · cases h

/-- **A run changes only files that it fixes, and fixes each of them as if there were no other.**
No file comes or goes.  A file changes only if fixes are written and the scan found something in
it; then it holds what it held, or the text that fixing it came to, once for each report on it.
What happens to it does not depend on what the parser makes of any other file, so that a failure
there is not seen.  Over aligned trees a fix fails only where a text does not parse, and no file
ends the run. -/
theorem check_touches_only_fixed (w : World) (args : CheckArguments) :
    (∀ out, runCheck w args = .ok out → w.tree.SameShape out.tree ∧
        ((out.tree = w.tree ∧ out.exit = exitConfigError) ∨
          ∃ o result fixed, Checked w args out o result fixed ∧
            ∀ loc, LeavesAt w args o result fixed loc)) ∧
      (∀ parse' floc, (∀ p, w.tree.locate p ≠ .ok floc → ∀ text, parse' p text = w.parse p text) →
        ∀ out o result fixed, Checked w args out o result fixed →
        ∀ out' o' result' fixed', Checked { w with parse := parse' } args out' o' result' fixed' →
        ∀ loc, loc ≠ floc → out'.tree.bytesAt? loc = out.tree.bytesAt? loc ∧
          w.tree.patchesTo loc fixed'.patches = w.tree.patchesTo loc fixed.patches) ∧
      ((∀ p text, (w.parse p text).Aligned text) →
        (∀ o p text e, (fix w.parse o p maxPasses text).patch p text = .error e →
          ∃ e', e = .stopped (.unparsable e')) ∧
        ∀ e, runCheck w args = .error (.scan e) →
          ∃ s e', Settings.read w.environment w.tree = .ok s ∧
            collect w.tree s.maxFileSize args.paths = .error e') := by
  refine ⟨?_, ?_, ?_⟩
  · intro out hout
    rcases runCheck_cases hout with ⟨htree, hexit⟩ | ⟨o, result, fixed, h⟩
    · rw [htree]
      exact ⟨.refl _, Or.inl ⟨rfl, hexit⟩⟩
    · refine ⟨?_, Or.inr ⟨o, result, fixed, h, h.leavesAt⟩⟩
      rw [h.tree]
      exact sameShape_fixFiles h.fixes
  · intro parse' floc hparse out o result fixed h out' o' result' fixed' h' loc hloc
    exact h.eq_elsewhere hparse h' hloc
  · intro halign
    exact ⟨fun o p text e he => failed_of_aligned (halign p) he,
      fun e he => collect_of_runCheck_error halign he⟩

end

/-- A parser of aligned trees that knows two texts besides `timerText`: the second does not
parse. -/
def apartParser : Parser := fun path text =>
  if text = "on(() => 1 .m())" then
    callTree 2 16 [forwardingTree 3 15 ⟨"number"⟩ ⟨9, 10⟩ 12 []]
  else if text = "on(1.m.bind(1))" then faultyTree 5 15
  else timerParser path text

/-- Two files; the fix of the first one fails. -/
def apartTree : FileTree where
  base := ⟨1, []⟩
  files := [(["a.js"], Utf8.encode "on(() => 1 .m())"), (["b.js"], Utf8.encode timerText)]
  directories := []

/-- The two files and a parser. -/
def apartWorld (parse : Parser) : World := ⟨[], apartTree, parse⟩

/-- Both files are to be fixed. -/
def apartArguments : CheckArguments where
  paths := [⟨0, ["a.js"]⟩, ⟨0, ["b.js"]⟩]
  overrides := ⟨none, ["on"], none⟩
  write := true

theorem aligned_timerParser (p : Path) (text : String) : (timerParser p text).Aligned text := by
  unfold timerParser
  split
  · next htext =>
    rw [htext]
    decide +kernel
  · intro n hn
    cases hn with
    | refl => exact ⟨Utf8.isBoundary_zero text, text, "", String.append_empty, rfl⟩
    | child hc => cases hc

theorem aligned_apartParser (p : Path) (text : String) : (apartParser p text).Aligned text := by
  unfold apartParser
  split
  · next htext =>
    rw [htext]
    decide +kernel
  · split
    · next htext =>
      rw [htext]
      decide +kernel
    · exact aligned_timerParser p text

/-- What is found to be the options for both files. -/
def apartOptions : Options := ⟨true, ["on"], false⟩

theorem settings_apartTree : Settings.read [] apartTree = .ok {} := by decide +kernel

theorem findOptions_apartTree : findOptions apartTree none = .ok (.obj [], []) := rfl

theorem resolve_apartArguments :
    Options.resolve (apartArguments.overrides.applyTo (.obj [])) = .ok apartOptions := by
  decide +kernel

theorem collect_apartTree :
    collect apartTree ({} : Settings).maxFileSize apartArguments.paths =
      .ok ⟨[⟨0, ["a.js"]⟩, ⟨0, ["b.js"]⟩], []⟩ :=
  collect_two _ _ _

/-- A run over both files comes to its report if the parser gives aligned trees. -/
theorem checked_apartWorld {parse : Parser} (halign : ∀ p text, (parse p text).Aligned text) :
    ∃ out result fixed, runCheck (apartWorld parse) apartArguments = .ok out ∧
      Checked (apartWorld parse) apartArguments out apartOptions result fixed := by
  obtain ⟨r, hr⟩ := exists_scanFiles_of_aligned apartOptions apartTree halign
    [⟨0, ["a.js"]⟩, ⟨0, ["b.js"]⟩]
  obtain ⟨result, logs, hscan, -⟩ := exists_scan collect_apartTree hr
  have hscan' : scan (apartWorld parse).tree (apartWorld parse).parse apartOptions
      ({} : Settings).maxFileSize apartArguments.paths = .ok (result, logs) := hscan
  obtain ⟨out, hout⟩ := exists_runResolved hscan' []
  have hrun : runCheck (apartWorld parse) apartArguments = .ok out := by
    have hsettings : Settings.read (apartWorld parse).environment (apartWorld parse).tree =
        .ok {} := settings_apartTree
    have hobject : findOptions (apartWorld parse).tree apartArguments.config = .ok (.obj [], []) :=
      findOptions_apartTree
    simp only [runCheck, hsettings, hobject, resolve_apartArguments, hout]
  obtain ⟨result, logs, fixed, hscan, hfixed, htree, houtput, hexit⟩ := runResolved_ok hout
  exact ⟨out, result, fixed, hrun, ⟨.obj [], [], findOptions_apartTree, resolve_apartArguments⟩,
    ⟨{}, logs, settings_apartTree, hscan⟩, hfixed, htree, houtput, hexit⟩

/-- Something is found in both files. -/
theorem Checked.fixedPaths_apart {out : Outcome} {o : Options} {result : ScanResult}
    {fixed : Fixed} (h : Checked (apartWorld apartParser) apartArguments out o result fixed) :
    o = apartOptions ∧
      apartArguments.fixedPaths result.reports = [⟨0, ["a.js"]⟩, ⟨0, ["b.js"]⟩] := by
  obtain ⟨object, records, hobject, ho⟩ := h.options
  cases findOptions_apartTree.symm.trans hobject
  obtain rfl : apartOptions = o := Except.ok.inj (resolve_apartArguments.symm.trans ho)
  obtain ⟨s, logs, hs, hscan⟩ := h.scanned
  obtain rfl : {} = s := Except.ok.inj (settings_apartTree.symm.trans hs)
  obtain ⟨c, r, hc, hr, hreports⟩ := scan_ok hscan
  obtain rfl := Except.ok.inj (collect_apartTree.symm.trans hc)
  have hpaths : ((scanFiles apartTree apartParser apartOptions
      [⟨0, ["a.js"]⟩, ⟨0, ["b.js"]⟩]).map fun r => apartArguments.fixedPaths r.reports).toOption =
      some [⟨0, ["a.js"]⟩, ⟨0, ["b.js"]⟩] := by decide +kernel
  have hr' : scanFiles apartTree apartParser apartOptions [⟨0, ["a.js"]⟩, ⟨0, ["b.js"]⟩] = .ok r :=
    hr
  rw [hr'] at hpaths
  exact ⟨rfl, by rw [hreports]; exact Option.some.inj hpaths⟩

/-- The fix of the first file fails, and it stays as it is; the second one is written, and holds
the same if nothing is found in the first. -/
theorem check_touches_only_fixed_apart :
    (∀ p text, (apartParser p text).Aligned text) ∧
      ∃ out, runCheck (apartWorld apartParser) apartArguments = .ok out ∧
        out.tree.bytesAt? ["a.js"] = some (Utf8.encode "on(() => 1 .m())") ∧
        out.tree.bytesAt? ["b.js"] = some (Utf8.encode "setTimeout(é.m.bind(é), 0, x)") ∧
        ∃ out', runCheck (apartWorld fun p text =>
            if p = ⟨0, ["a.js"]⟩ then timerParser p text else apartParser p text)
            apartArguments = .ok out' ∧
          out'.tree.bytesAt? ["b.js"] = out.tree.bytesAt? ["b.js"] := by
  obtain ⟨hleaves, helsewhere, -⟩ := check_touches_only_fixed (apartWorld apartParser) apartArguments
  obtain ⟨out, _, _, hrun, hreported⟩ := checked_apartWorld aligned_apartParser
  rcases (hleaves out hrun).2 with ⟨-, hrejected⟩ | ⟨o, result, fixed, hchecked, hat⟩
  · exact absurd (hreported.exit.symm.trans hrejected) (exitCode_ne_exitConfigError _ _ _)
  obtain ⟨rfl, hpaths⟩ := hchecked.fixedPaths_apart
  refine ⟨aligned_apartParser, out, hrun, ?_, ?_, ?_⟩
  · have hfirst := ((hat ["a.js"]).refixed "on(() => 1 .m())" rfl).1
    rw [hpaths] at hfirst
    rw [hchecked.tree, hfirst]
    decide +kernel
  · have hsecond := ((hat ["b.js"]).refixed timerText rfl).1
    rw [hpaths] at hsecond
    rw [hchecked.tree, hsecond]
    decide +kernel
  · have halign : ∀ (p : Path) (text : String), (if p = ⟨0, ["a.js"]⟩ then timerParser p text
        else apartParser p text).Aligned text := by
      intro p text
      split
      · exact aligned_timerParser p text
      · exact aligned_apartParser p text
    obtain ⟨out', result', fixed', hrun', hchecked'⟩ := checked_apartWorld halign
    refine ⟨out', hrun', (helsewhere _ ["a.js"] ?_ out _ _ _ hchecked out' _ _ _ hchecked'
      ["b.js"] (by decide)).1⟩
    intro p hp text
    have hne : p ≠ ⟨0, ["a.js"]⟩ := by
      rintro rfl
      exact hp rfl
    exact if_neg hne

end BindLint
