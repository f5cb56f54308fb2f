import BindLint.Command.Run
import BindLint.Proofs.Rounds
import BindLint.Proofs.Writes
import Mathlib.Logic.Function.Iterate

/-!
# What fixing files leaves behind

Fixing a file leaves a text in it: the one that the run of fixing came to, or the old
one if the run failed (`textLeft`).  Several paths may lead to one file, and the file is
then fixed once for each of them, always from what was left the time before.  Its text at
the end is what is left after so many times; all other files keep their bytes.

## Main definitions

* `Parser.ByLanguage` — a parser that looks at a path only for its language.
* `textLeft` — the text that fixing leaves in a file.

## Main results

* `textLeft_congr` — what is left depends on the path only through the language.
* `entriesAt_fixFiles` — a file that no fix changes stays as it is.
* `bytesAt?_fixFiles` — **a file that is fixed holds what is left after some fixes.**
-/

namespace BindLint

/-! ### Paths of one language -/

/-- A parser that looks at a path only for its language. -/
def Parser.ByLanguage (parse : Parser) : Prop :=
  ∀ p q text, Language.ofPath? p = Language.ofPath? q → parse p text = parse q text

/-- What is found in a text depends on the path only through its language. -/
theorem findings_lint_congr {parse : Parser} (hparse : parse.ByLanguage) (o : Options)
    {p q : Path} (h : Language.ofPath? p = Language.ofPath? q) (text : String) :
    (lint parse o p text).findings.toOption = (lint parse o q text).findings.toOption := by
  unfold lint Path.isScannable lintTree
  rw [h, hparse p q text h]
  split
  · split <;> rfl
  · rfl

/-! ### The text that is left -/

/-- The text that a run came to, if it did not fail. -/
def Fixing.final? (run : Fixing) : Option String :=
  match run.ending with
  | .failed _ => none
  | _ => some run.source

/-- The text that fixing leaves in a file. -/
def textLeft (parse : Parser) (o : Options) (path : Path) (text : String) : String :=
  (fix parse o path maxPasses text).final?.getD text

@[simp] theorem Fixing.final?_cons (r : Round) (run : Fixing) : (run.cons r).final? = run.final? :=
  rfl

/-- Runs of passes that find the same come to the same. -/
theorem final?_fixRounds_congr {pass pass' : String → Pass}
    (h : ∀ text, (pass text).findings.toOption = (pass' text).findings.toOption) (n : Nat)
    (text : String) : (fixRounds pass n text).final? = (fixRounds pass' n text).final? := by
  induction n generalizing text with
  | zero => rfl
  | succ n ih =>
    have hfs := h text
    rw [fixRounds, fixRounds]
    cases hfound : (pass text).findings with
    | error e =>
      cases hfound' : (pass' text).findings with
      | error e' => rfl
      | ok fs' =>
        rw [hfound, hfound'] at hfs
        cases hfs
    | ok fs =>
      cases hfound' : (pass' text).findings with
      | error e' =>
        rw [hfound, hfound'] at hfs
        cases hfs
      | ok fs' =>
        rw [hfound, hfound'] at hfs
        cases hfs
        cases fs with
        | nil => rfl
        | cons f fs =>
          simp only
          split
          · rfl
          · split
            · rfl
            · rw [Fixing.final?_cons, Fixing.final?_cons, ih]

/-- What fixing leaves in a file depends on the path only through its language. -/
theorem textLeft_congr {parse : Parser} (hparse : parse.ByLanguage) (o : Options) {p q : Path}
    (h : Language.ofPath? p = Language.ofPath? q) : textLeft parse o p = textLeft parse o q := by
  funext text
  rw [textLeft, textLeft, fix, fix, final?_fixRounds_congr (findings_lint_congr hparse o h)]

theorem textLeft_of_failed {parse : Parser} {o : Options} {path : Path} {text : String}
    {e : FixError} (h : (fix parse o path maxPasses text).ending = .failed e) :
    textLeft parse o path text = text := by
  rw [textLeft, Fixing.final?, h]
  rfl

/-- Fixing a text without findings ends after one look at it. -/
theorem fix_of_clean {parse : Parser} {o : Options} {path : Path} {text : String}
    (h : (lint parse o path text).findings = .ok []) :
    fix parse o path maxPasses text = ⟨[⟨text, lint parse o path text, none⟩], text, .clean⟩ := by
  change fixRounds (lint parse o path) (9 + 1) text = _
  rw [fixRounds, h]

/-- A text without findings is left as it is. -/
theorem textLeft_of_clean {parse : Parser} {o : Options} {path : Path} {text : String}
    (h : (lint parse o path text).findings = .ok []) : textLeft parse o path text = text := by
  rw [textLeft, fix_of_clean h]
  rfl

/-- A run that ends clean leaves a text without findings. -/
theorem findings_textLeft {parse : Parser} {o : Options} {path : Path} {text : String}
    (h : (fix parse o path maxPasses text).ending = .clean) :
    (lint parse o path (textLeft parse o path text)).findings = .ok [] := by
  have hleft : textLeft parse o path text = (fix parse o path maxPasses text).source := by
    rw [textLeft, Fixing.final?, h]
    rfl
  rw [hleft]
  exact (ran_of_ending_clean h).findings_of_clean h

/-! ### One file -/

theorem readSource_eq_ok_iff {t : FileTree} {p : Path} {text : String} :
    readSource t p = .ok text ↔
      ∃ loc, t.locate p = .ok loc ∧ t.bytesAt? loc = some (Utf8.encode text) := by
  unfold readSource FileTree.read
  cases t.locate p with
  | error e => simp
  | ok loc =>
    cases hbytes : t.bytesAt? loc with
    | none => simp [hbytes]
    | some bytes =>
      simp only [Except.ok.injEq, exists_eq_left', hbytes, Option.some.injEq]
      rw [← Utf8.decode_eq_ok_iff]
      cases Utf8.decode bytes <;> simp

/-- What the patch of a run says about the text it came to. -/
theorem Fixing.patch_cases (run : Fixing) (path : Path) (text : String) :
    (∃ e, run.patch path text = .error e ∧ run.final? = none) ∨
      (run.patch path text = .ok none ∧ run.final? = some text) ∨
      ∃ p, run.patch path text = .ok (some p) ∧ run.final? = some p.source ∧
        p.source ≠ text := by
  unfold patch final?
  cases run.ending with
  | failed e => exact Or.inl ⟨e, rfl, rfl⟩
  | clean | stuck | exhausted =>
    simp only
    split
    · next hsource => exact Or.inr (Or.inl ⟨rfl, congrArg some hsource⟩)
    · next hsource => exact Or.inr (Or.inr ⟨_, rfl, rfl, hsource⟩)

theorem textLeft_of_patch {parse : Parser} {o : Options} {path : Path} {text : String}
    {patch : Patch} (h : (fix parse o path maxPasses text).patch path text = .ok (some patch)) :
    textLeft parse o path text = patch.source ∧ patch.source ≠ text := by
  rcases Fixing.patch_cases (fix parse o path maxPasses text) path text with
    ⟨e, hpatch, -⟩ | ⟨hpatch, -⟩ | ⟨patch', hpatch, hfinal, hne⟩
  · cases h.symm.trans hpatch
  · cases h.symm.trans hpatch
  · cases h.symm.trans hpatch
    exact ⟨by rw [textLeft, hfinal, Option.getD_some], hne⟩

/-- A run without a patch failed, or came back to the old text. -/
theorem textLeft_of_no_patch {parse : Parser} {o : Options} {path : Path} {text : String}
    (h : ∀ patch, (fix parse o path maxPasses text).patch path text ≠ .ok (some patch)) :
    textLeft parse o path text = text := by
  rcases Fixing.patch_cases (fix parse o path maxPasses text) path text with
    ⟨e, -, hfinal⟩ | ⟨-, hfinal⟩ | ⟨patch, hpatch, -⟩
  · rw [textLeft, hfinal, Option.getD_none]
  · rw [textLeft, hfinal, Option.getD_some]
  · exact absurd hpatch (h patch)

/-- What fixing one file gives: nothing, or a patch, and the files with its text where the path
leads if fixes are written. -/
theorem fixFile_parts {parse : Parser} {o : Options} {write : Bool} {t : FileTree} {path : Path}
    {first : Fixed} (h : fixFile parse o write t path = .ok first) :
    (first.tree = t ∧ first.patches = [] ∧ ∀ text, readSource t path = .ok text →
        ∀ patch, (fix parse o path maxPasses text).patch path text ≠ .ok (some patch)) ∨
      ∃ loc text patch, t.locate path = .ok loc ∧ t.bytesAt? loc = some (Utf8.encode text) ∧
        (fix parse o path maxPasses text).patch path text = .ok (some patch) ∧
        first.patches = [patch] ∧
        first.tree = if write then t.put loc (Utf8.encode patch.source) else t := by
  unfold fixFile at h
  cases hread : readSource t path with
  | error e =>
    rw [hread] at h
    cases h
    exact Or.inl ⟨rfl, rfl, fun text htext => by cases htext⟩
  | ok text =>
    simp only [hread] at h
    -- a failure, no patch, and a patch that is written or not
    cases hpatch : (fix parse o path maxPasses text).patch path text with
    | error e =>
      rw [hpatch] at h
      have hnone : ∀ text', (.ok text : Except SourceError String) = .ok text' → ∀ patch,
          (fix parse o path maxPasses text').patch path text' ≠ .ok (some patch) := by
        rintro _ ⟨⟩ patch heq
        cases hpatch.symm.trans heq
      split at h
      · cases h
      · cases h
        exact Or.inl ⟨rfl, rfl, hnone⟩
      · next heq => cases heq
      · next heq => cases heq
    | ok patch? =>
      cases patch? with
      | none =>
        rw [hpatch] at h
        cases h
        refine Or.inl ⟨rfl, rfl, ?_⟩
        rintro _ ⟨⟩ patch heq
        cases hpatch.symm.trans heq
      | some patch =>
        obtain ⟨loc, hloc, hbytes⟩ := readSource_eq_ok_iff.1 hread
        rw [hpatch] at h
        cases write with
        | false =>
          cases h
          exact Or.inr ⟨loc, text, patch, hloc, hbytes, hpatch, rfl, rfl⟩
        | true =>
          cases h
          refine Or.inr ⟨loc, text, patch, hloc, hbytes, hpatch, rfl, ?_⟩
          change t.write path _ = _
          rw [FileTree.write, hloc]
          rfl

/-- What fixing one file does to the files: nothing, or the text that is left is written
where the path leads. -/
theorem fixFile_cases {parse : Parser} {o : Options} {t : FileTree} {path : Path} {first : Fixed}
    (h : fixFile parse o true t path = .ok first) :
    (first.tree = t ∧ ∀ text, readSource t path = .ok text → textLeft parse o path text = text) ∨
      ∃ loc text, t.locate path = .ok loc ∧ t.bytesAt? loc = some (Utf8.encode text) ∧
        textLeft parse o path text ≠ text ∧
        first.tree = t.put loc (Utf8.encode (textLeft parse o path text)) := by
  rcases fixFile_parts h with ⟨htree, -, hnone⟩ | ⟨loc, text, patch, hloc, hbytes, hpatch, -, htree⟩
  · exact Or.inl ⟨htree, fun text hread => textLeft_of_no_patch (hnone text hread)⟩
  · obtain ⟨hleft, hne⟩ := textLeft_of_patch hpatch
    rw [if_pos rfl] at htree
    exact Or.inr ⟨loc, text, hloc, hbytes, by rwa [hleft], by rw [hleft, htree]⟩

theorem FileTree.hasFile_of_bytesAt? {t : FileTree} {loc : Location} {bytes : List UInt8}
    (h : t.bytesAt? loc = some bytes) : t.hasFile loc = true := by
  rw [hasFile, h]
  rfl

theorem sameShape_fixFile {parse : Parser} {o : Options} {write : Bool} {t : FileTree}
    {path : Path} {first : Fixed} (h : fixFile parse o write t path = .ok first) :
    t.SameShape first.tree := by
  rcases fixFile_parts h with ⟨htree, -⟩ | ⟨loc, text, patch, -, hbytes, -, -, htree⟩
  · rw [htree]
    exact FileTree.SameShape.refl t
  · rw [htree]
    split
    · exact FileTree.sameShape_put (FileTree.hasFile_of_bytesAt? hbytes) _
    · exact FileTree.SameShape.refl t

/-- Fixing a file leaves other locations alone, and its own if the text that is left is
the old one. -/
theorem entriesAt_fixFile {parse : Parser} {o : Options} {t : FileTree} {path : Path}
    {first : Fixed} {loc : Location} (h : fixFile parse o true t path = .ok first)
    (hloc : t.locate path = .ok loc → ∀ text, t.bytesAt? loc = some (Utf8.encode text) →
      textLeft parse o path text = text) :
    first.tree.entriesAt loc = t.entriesAt loc := by
  rcases fixFile_cases h with ⟨htree, -⟩ | ⟨own, text, hown, hbytes, hne, htree⟩
  · rw [htree]
  · have hother : own ≠ loc := by
      rintro rfl
      exact hne (hloc hown text hbytes)
    rw [htree, FileTree.entriesAt_put_of_ne (FileTree.hasFile_of_bytesAt? hbytes) _ hother]

/-- Fixing a file leaves the text that is left where its path leads. -/
theorem bytesAt?_fixFile {parse : Parser} {o : Options} {t : FileTree} {path : Path}
    {first : Fixed} {loc : Location} {text : String} (h : fixFile parse o true t path = .ok first)
    (hloc : t.locate path = .ok loc) (hbytes : t.bytesAt? loc = some (Utf8.encode text)) :
    first.tree.bytesAt? loc = some (Utf8.encode (textLeft parse o path text)) := by
  rcases fixFile_cases h with ⟨htree, hsame⟩ | ⟨own, text', hown, hbytes', -, htree⟩
  · rw [htree, hsame text (readSource_eq_ok_iff.2 ⟨loc, hloc, hbytes⟩), hbytes]
  · obtain rfl : loc = own := Except.ok.inj (hloc.symm.trans hown)
    have htext : text = text' :=
      Utf8.encode_injective (Option.some.inj (hbytes.symm.trans hbytes'))
    rw [htree, FileTree.bytesAt?_put (FileTree.hasFile_of_bytesAt? hbytes), htext]

/-! ### All files -/

theorem fixFiles_cons_ok {parse : Parser} {o : Options} {write : Bool} {t : FileTree} {p : Path}
    {ps : List Path} {fixed : Fixed} (h : fixFiles parse o write t (p :: ps) = .ok fixed) :
    ∃ first rest, fixFile parse o write t p = .ok first ∧
      fixFiles parse o write first.tree ps = .ok rest ∧ fixed.tree = rest.tree ∧
      fixed.patches = first.patches ++ rest.patches := by
  obtain ⟨first, hfirst, h⟩ := exists_of_bind_ok h
  obtain ⟨rest, hrest, h⟩ := exists_of_bind_ok h
  cases h
  exact ⟨first, rest, hfirst, hrest, rfl, rfl⟩

theorem sameShape_fixFiles {parse : Parser} {o : Options} {write : Bool} {t : FileTree}
    {ps : List Path} {fixed : Fixed} (h : fixFiles parse o write t ps = .ok fixed) :
    t.SameShape fixed.tree := by
  induction ps generalizing t fixed with
  | nil =>
    cases h
    exact FileTree.SameShape.refl t
  | cons p ps ih =>
    obtain ⟨first, rest, hfirst, hrest, htree, -⟩ := fixFiles_cons_ok h
    rw [htree]
    exact (sameShape_fixFile hfirst).trans (ih hrest)

/-- A location at which every fix leaves the old text stays as it is. -/
theorem entriesAt_fixFiles {parse : Parser} {o : Options} {t : FileTree} {ps : List Path}
    {fixed : Fixed} {loc : Location} (h : fixFiles parse o true t ps = .ok fixed)
    (hloc : ∀ p ∈ ps, t.locate p = .ok loc → ∀ text, t.bytesAt? loc = some (Utf8.encode text) →
      textLeft parse o p text = text) :
    fixed.tree.entriesAt loc = t.entriesAt loc := by
  induction ps generalizing t fixed with
  | nil =>
    cases h
    rfl
  | cons p ps ih =>
    obtain ⟨first, rest, hfirst, hrest, htree, -⟩ := fixFiles_cons_ok h
    have hentries := entriesAt_fixFile hfirst (hloc p List.mem_cons_self)
    rw [htree, ih hrest, hentries]
    intro q hq hqloc text htext
    rw [(sameShape_fixFile hfirst).locate_eq] at hqloc
    rw [FileTree.bytesAt?_congr hentries] at htext
    exact hloc q (List.mem_cons_of_mem p hq) hqloc text htext

/-- **A file that is fixed holds what is left after some fixes**, if all paths that lead
to it leave the same. -/
theorem bytesAt?_fixFiles {parse : Parser} {o : Options} {t : FileTree} {ps : List Path}
    {fixed : Fixed} {loc : Location} {left : String → String} {text : String}
    (h : fixFiles parse o true t ps = .ok fixed)
    (hleft : ∀ p ∈ ps, t.locate p = .ok loc → textLeft parse o p = left)
    (hbytes : t.bytesAt? loc = some (Utf8.encode text)) :
    ∃ k, fixed.tree.bytesAt? loc = some (Utf8.encode (left^[k] text)) ∧
      ((∃ p ∈ ps, t.locate p = .ok loc) → 0 < k) := by
  induction ps generalizing t fixed text with
  | nil =>
    cases h
    exact ⟨0, hbytes, by simp⟩
  | cons p ps ih =>
    obtain ⟨first, rest, hfirst, hrest, htree, -⟩ := fixFiles_cons_ok h
    have hshape := sameShape_fixFile hfirst
    have htail : ∀ q ∈ ps, first.tree.locate q = .ok loc → textLeft parse o q = left := by
      intro q hq hqloc
      rw [hshape.locate_eq] at hqloc
      exact hleft q (List.mem_cons_of_mem p hq) hqloc
    rw [htree]
    by_cases hloc : t.locate p = .ok loc
    · have hfirstbytes := bytesAt?_fixFile hfirst hloc hbytes
      rw [hleft p List.mem_cons_self hloc] at hfirstbytes
      obtain ⟨k, hk, -⟩ := ih hrest htail hfirstbytes
      exact ⟨k + 1, hk, fun _ => Nat.succ_pos k⟩
    · have hentries : first.tree.entriesAt loc = t.entriesAt loc :=
        entriesAt_fixFile hfirst fun hp => absurd hp hloc
      rw [← FileTree.bytesAt?_congr hentries] at hbytes
      obtain ⟨k, hk, hpos⟩ := ih hrest htail hbytes
      refine ⟨k, hk, ?_⟩
      rintro ⟨q, hq, hqloc⟩
      rcases List.mem_cons.1 hq with rfl | hq
      · exact absurd hqloc hloc
      · exact hpos ⟨q, hq, by rw [hshape.locate_eq, hqloc]⟩

end BindLint
