import BindLint.Proofs.Names
import BindLint.Proofs.Writes
import Mathlib.Data.List.Lex
import Mathlib.Data.List.Sort
import Mathlib.Data.String.Basic

/-!
# Exactly the right files are collected

What is collected for some roots is settled root by root.  A root that is a file counts as it
is, whatever its size and wherever it lies.  Below a root that is a directory a file counts if
nothing on the way down from the root has the name of a skipped directory, and if it is not too
large.  Two roots may therefore disagree about one file, and it is collected if one of them takes
it.

All of this holds as long as every path can be looked up.  A root that is too long, or that has
something too long to be looked up below it, ends the whole run instead of being passed over like
a path that leads nowhere: `collect_stops_at_long_name`.  Nothing else does, because a file tree has
no permissions: whatever is in it may be read and searched.

## Main definitions

* `Path.Before` — the order of paths.
* `FileTree.WellFormed` — what all file systems keep to.
* `FileTree.FoundBelow` — a file counts for a directory that was named.
* `FileTree.InReach` — a path, and all that is looked up for it, is short enough.

## Main results

* `Path.pairwise_before_sort` — paths are sorted strictly.
* `FileTree.WellFormed.locate_join` — what lies below a directory is found by its names.
* `collects_iff` — what is collected for one root.
* `collect_exact` — **exactly the right files are collected.**
* `collect_stops_at_long_name` — nothing is collected if one name is too long.
-/

namespace BindLint

/-! ### The order of paths -/

namespace Path

/-- A path stands before another: it is less by its names, one by one. -/
def Before (p q : Path) : Prop :=
  p.components < q.components ∨ p.components = q.components ∧ p.slashes < q.slashes

instance (p q : Path) : Decidable (p.Before q) :=
  inferInstanceAs (Decidable (_ ∨ _))

theorem eq_of_components {p q : Path} (h : p.components = q.components)
    (hslashes : p.slashes = q.slashes) : p = q := by
  obtain ⟨n, ps⟩ := p
  obtain ⟨m, qs⟩ := q
  obtain rfl : n = m := hslashes
  unfold components at h
  split at h
  · next hzero => simp_all
  · next hzero => simp_all

theorem le_iff {p q : Path} : p.le q = true ↔ p.Before q ∨ p = q := by
  unfold le Before
  rw [Bool.or_eq_true, Bool.and_eq_true, decide_eq_true_eq, decide_eq_true_eq, decide_eq_true_eq]
  constructor
  · rintro (h | ⟨h, hslashes⟩)
    · exact Or.inl (Or.inl h)
    · rcases Nat.lt_or_eq_of_le hslashes with hlt | heq
      · exact Or.inl (Or.inr ⟨h, hlt⟩)
      · exact Or.inr (eq_of_components h heq)
  · rintro ((h | ⟨h, hslashes⟩) | rfl)
    · exact Or.inl h
    · exact Or.inr ⟨h, hslashes.le⟩
    · exact Or.inr ⟨rfl, le_rfl⟩

theorem Before.trans {p q r : Path} (hpq : p.Before q) (hqr : q.Before r) : p.Before r := by
  rcases hpq with hpq | ⟨hpq, hslashes⟩
  · rcases hqr with hqr | ⟨hqr, -⟩
    · exact Or.inl (List.lt_trans hpq hqr)
    · exact Or.inl (hqr ▸ hpq)
  · rcases hqr with hqr | ⟨hqr, hslashes'⟩
    · exact Or.inl (hpq ▸ hqr)
    · exact Or.inr ⟨hpq.trans hqr, hslashes.trans hslashes'⟩

theorem not_before_self (p : Path) : ¬p.Before p := by
  rintro (h | ⟨-, h⟩)
  · exact List.lt_irrefl _ h
  · exact Nat.lt_irrefl _ h

theorem before_or_eq_or_before (p q : Path) : p.Before q ∨ p = q ∨ q.Before p := by
  rcases lt_trichotomy p.components q.components with h | h | h
  · exact Or.inl (Or.inl h)
  · rcases Nat.lt_trichotomy p.slashes q.slashes with hs | hs | hs
    · exact Or.inl (Or.inr ⟨h, hs⟩)
    · exact Or.inr (Or.inl (eq_of_components h hs))
    · exact Or.inr (Or.inr (Or.inr ⟨h.symm, hs⟩))
  · exact Or.inr (Or.inr (Or.inl h))

instance : Std.Irrefl Before := ⟨not_before_self⟩

instance : Std.Antisymm Before :=
  ⟨fun p _ hpq hqp => absurd (hpq.trans hqp) (not_before_self p)⟩

theorem le_trans (p q r : Path) (hpq : p.le q = true) (hqr : q.le r = true) : p.le r = true := by
  rcases le_iff.1 hpq with hpq | rfl
  · rcases le_iff.1 hqr with hqr | rfl
    · exact le_iff.2 (Or.inl (hpq.trans hqr))
    · exact le_iff.2 (Or.inl hpq)
  · exact hqr

theorem le_total (p q : Path) : (p.le q || q.le p) = true := by
  rw [Bool.or_eq_true, le_iff, le_iff]
  rcases before_or_eq_or_before p q with h | rfl | h
  · exact Or.inl (Or.inl h)
  · exact Or.inl (Or.inr rfl)
  · exact Or.inr (Or.inl h)

theorem mem_sort {ps : List Path} {p : Path} : p ∈ sort ps ↔ p ∈ ps := by simp [sort]

/-- Paths are sorted strictly, so that none is there twice. -/
theorem pairwise_before_sort (ps : List Path) : (sort ps).Pairwise Before := by
  have hsorted := List.pairwise_mergeSort le_trans le_total ps
  refine (pairwise_eraseDups hsorted).imp ?_
  rintro p q ⟨hle, hne⟩
  exact (le_iff.1 hle).resolve_right hne

theorem sort_of_pairwise_before {ps : List Path} (h : ps.Pairwise Before) : sort ps = ps :=
  (pairwise_before_sort ps).eq_of_mem_iff h fun _ => mem_sort

end Path

/-! ### File systems -/

namespace FileTree

/-- What all file systems keep to: names can be looked up, no location holds two things, and
nothing lies below a file. -/
structure WellFormed (t : FileTree) : Prop where
  names : ∀ f ∈ t.files, ∀ name ∈ f.1,
    name ≠ ".." ∧ '\x00' ∉ name.toList ∧ name.utf8ByteSize ≤ nameLimit
  unique : (t.files.map Prod.fst).Nodup
  apart : ∀ f ∈ t.files, t.hasDirectory f.1 = false

instance (t : FileTree) : Decidable t.WellFormed :=
  decidable_of_iff
    ((∀ f ∈ t.files, ∀ name ∈ f.1,
        name ≠ ".." ∧ '\x00' ∉ name.toList ∧ name.utf8ByteSize ≤ nameLimit) ∧
      (t.files.map Prod.fst).Nodup ∧ ∀ f ∈ t.files, t.hasDirectory f.1 = false)
    ⟨fun h => ⟨h.1, h.2.1, h.2.2⟩, fun h => ⟨h.names, h.unique, h.apart⟩⟩

theorem below_iff {top loc : Location} :
    below top loc = true ↔ ∃ names, names ≠ [] ∧ loc = top ++ names := by
  rw [below, Bool.and_eq_true, List.isPrefixOf_iff_prefix, decide_eq_true_eq]
  constructor
  · rintro ⟨⟨names, rfl⟩, hlength⟩
    refine ⟨names, ?_, rfl⟩
    rintro rfl
    simp at hlength
  · rintro ⟨names, hne, rfl⟩
    have := List.length_pos_iff.2 hne
    refine ⟨List.prefix_append _ _, ?_⟩
    rw [List.length_append]
    omega

theorem mem_filesBelow {t : FileTree} {top : Location} {f : List String × List UInt8} :
    f ∈ t.filesBelow top ↔ f.1 ≠ [] ∧ (top ++ f.1, f.2) ∈ t.files := by
  rw [filesBelow, List.mem_map]
  constructor
  · rintro ⟨g, hg, rfl⟩
    obtain ⟨hg, hbelow⟩ := List.mem_filter.1 hg
    obtain ⟨names, hne, hloc⟩ := below_iff.1 hbelow
    have hdrop : g.1.drop top.length = names := by rw [hloc, List.drop_left]
    rw [hdrop, ← hloc]
    exact ⟨hne, hg⟩
  · rintro ⟨hne, hmem⟩
    refine ⟨(top ++ f.1, f.2), List.mem_filter.2 ⟨hmem, below_iff.2 ⟨f.1, hne, rfl⟩⟩, ?_⟩
    rw [List.drop_left]

theorem prefix_dropLast_iff {loc loc' : Location} (hne : loc ≠ []) :
    loc <+: loc'.dropLast ↔ below loc loc' = true := by
  rw [below_iff]
  constructor
  · rintro ⟨rest, hrest⟩
    rcases List.eq_nil_or_concat loc' with rfl | ⟨init, name, rfl⟩
    · simp [hne] at hrest
    · rw [List.concat_eq_append, List.dropLast_concat] at hrest
      refine ⟨rest ++ [name], by simp, ?_⟩
      rw [List.concat_eq_append, ← hrest, List.append_assoc]
  · rintro ⟨names, hnames, rfl⟩
    rw [List.dropLast_append_of_ne_nil hnames]
    exact List.prefix_append _ _

theorem hasDirectory_iff {t : FileTree} {loc : Location} (hne : loc ≠ []) :
    t.hasDirectory loc = true ↔
      ∃ d ∈ t.directories ++ t.files.map (fun f => f.1.dropLast), loc <+: d := by
  have hmade : ∀ d : Location, (loc = d ∨ below loc d = true) ↔ loc <+: d := by
    intro d
    rw [below_iff]
    constructor
    · rintro (rfl | ⟨names, -, rfl⟩)
      · exact List.prefix_rfl
      · exact List.prefix_append _ _
    · rintro ⟨names, rfl⟩
      by_cases hnames : names = []
      · exact Or.inl (by rw [hnames, List.append_nil])
      · exact Or.inr ⟨names, hnames, rfl⟩
  simp only [hasDirectory, Bool.or_eq_true, List.isEmpty_iff, List.any_eq_true, decide_eq_true_eq,
    hmade, hne, false_or, List.mem_append, List.mem_map, or_and_right, exists_or]
  refine or_congr_right ⟨?_, ?_⟩
  · rintro ⟨f, hf, hbelow⟩
    exact ⟨_, ⟨f, hf, rfl⟩, (prefix_dropLast_iff hne).2 hbelow⟩
  · rintro ⟨_, ⟨f, hf, rfl⟩, hprefix⟩
    exact ⟨f, hf, (prefix_dropLast_iff hne).1 hprefix⟩

theorem mem_directoriesBelow {t : FileTree} {top : Location} {names : List String} :
    names ∈ t.directoriesBelow top ↔ names ≠ [] ∧ t.hasDirectory (top ++ names) = true := by
  have htake : ∀ d loc : Location,
      loc ∈ (List.range (d.length + 1)).map d.take ↔ loc <+: d := by
    intro d loc
    rw [List.mem_map]
    constructor
    · rintro ⟨k, -, rfl⟩
      exact List.take_prefix k d
    · intro h
      refine ⟨loc.length, List.mem_range.2 ?_, (List.prefix_iff_eq_take.1 h).symm⟩
      exact Nat.lt_succ_of_le h.length_le
  unfold directoriesBelow
  simp only [List.mem_map, List.mem_filter, List.mem_flatMap, htake]
  constructor
  · rintro ⟨loc, ⟨hloc, hbelow⟩, rfl⟩
    obtain ⟨names, hne, rfl⟩ := below_iff.1 hbelow
    rw [List.drop_left]
    exact ⟨hne, (hasDirectory_iff (by simp [hne])).2 hloc⟩
  · rintro ⟨hne, hdir⟩
    refine ⟨top ++ names, ⟨?_, below_iff.2 ⟨names, hne, rfl⟩⟩, List.drop_left⟩
    exact (hasDirectory_iff (by simp [hne])).1 hdir

theorem hasDirectory_of_append {t : FileTree} {top : Location} {names : List String}
    (h : t.hasDirectory (top ++ names) = true) : t.hasDirectory top = true := by
  by_cases htop : top = []
  · rw [htop, hasDirectory]
    rfl
  · obtain ⟨d, hd, hprefix⟩ := (hasDirectory_iff (by simp [htop])).1 h
    exact (hasDirectory_iff htop).2 ⟨d, hd, (List.prefix_append top names).trans hprefix⟩

theorem hasDirectory_of_below {t : FileTree} {top loc : Location} (h : t.hasFile loc = true)
    (hbelow : below top loc = true) : t.hasDirectory top = true := by
  obtain ⟨f, hf, rfl⟩ := List.mem_map.1 (hasFile_iff_mem.1 h)
  have hany : t.files.any (fun f => below top f.1) = true := List.any_eq_true.2 ⟨f, hf, hbelow⟩
  rw [hasDirectory, hany, Bool.or_true]

namespace WellFormed

variable {t : FileTree}

theorem bytesAt?_of_mem (ht : t.WellFormed) {loc : Location} {bytes : List UInt8}
    (h : (loc, bytes) ∈ t.files) : t.bytesAt? loc = some bytes := by
  have hfile : t.hasFile loc = true := hasFile_iff_mem.2 (List.mem_map.2 ⟨_, h, rfl⟩)
  obtain ⟨found, hfound⟩ := Option.isSome_iff_exists.1 hfile
  obtain ⟨g, hfind, rfl⟩ := Option.map_eq_some_iff.1 hfound
  have hg : g.1 = loc := by simpa using List.find?_some hfind
  have hsame : g = (loc, bytes) :=
    List.inj_on_of_nodup_map ht.unique (List.mem_of_find?_eq_some hfind) h hg
  rw [hfound, hsame]

theorem hasDirectory_eq_false (ht : t.WellFormed) {loc : Location} (h : t.hasFile loc = true) :
    t.hasDirectory loc = false := by
  obtain ⟨f, hf, rfl⟩ := List.mem_map.1 (hasFile_iff_mem.1 h)
  exact ht.apart f hf

theorem name_of_mem (ht : t.WellFormed) {loc : Location} (h : t.hasFile loc = true)
    {name : String} (hname : name ∈ loc) :
    name ≠ ".." ∧ '\x00' ∉ name.toList ∧ name.utf8ByteSize ≤ nameLimit := by
  obtain ⟨f, hf, rfl⟩ := List.mem_map.1 (hasFile_iff_mem.1 h)
  exact ht.names f hf name hname

/-- Names lead from a directory down to a file. -/
theorem foldlM_step_of_hasFile (ht : t.WellFormed) {top : Location} {names : List String}
    (h : t.hasFile (top ++ names) = true) : names.foldlM t.step top = .ok (top ++ names) := by
  induction names generalizing top with
  | nil =>
    rw [List.append_nil]
    rfl
  | cons name names ih =>
    obtain ⟨hup, -, hshort⟩ := ht.name_of_mem h (List.mem_append_right top List.mem_cons_self)
    have hdir : t.hasDirectory top = true :=
      hasDirectory_of_below h (below_iff.2 ⟨_, List.cons_ne_nil _ _, rfl⟩)
    have hfile : ¬t.hasFile top = true := by
      intro hfile
      rw [ht.hasDirectory_eq_false hfile] at hdir
      cases hdir
    have hstep : t.step top name = .ok (top ++ [name]) := by
      rw [step, if_neg hfile, hdir, if_neg (by decide), if_neg hup,
        if_neg (Nat.not_lt.2 hshort)]
    have hnext : t.hasFile (top ++ [name] ++ names) = true := by
      rwa [List.append_assoc, List.singleton_append]
    rw [List.foldlM_cons, bind_of_ok hstep, ih hnext, List.append_assoc, List.singleton_append]

/-- A file below a directory is found by its names, if the path is short enough. -/
theorem locate_join (ht : t.WellFormed) {root : Path} {top : Location} {names : List String}
    (hroot : t.locate root = .ok top) (h : t.hasFile (top ++ names) = true)
    (hlong : (root.join names).isTooLong = false) :
    t.locate (root.join names) = .ok (top ++ names) := by
  obtain ⟨rs, hrs, hfold⟩ := locate_ok hroot
  have hnull : (root.join names).hasNull = false := by
    have hroot' : root.hasNull = false := by
      unfold locate at hroot
      split at hroot
      · cases hroot
      · next hnull => exact Bool.eq_false_iff.2 hnull
    have hnames : names.any (fun w => w.toList.contains '\x00') = false := by
      rw [List.any_eq_false]
      intro name hname
      have hclean := (ht.name_of_mem h (List.mem_append_right top hname)).2.1
      simpa using hclean
    unfold Path.hasNull at hroot' ⊢
    rw [Path.join, List.any_append, hroot', hnames]
    rfl
  have hshort : ¬pathLimit < (root.join names).text.utf8ByteSize := of_decide_eq_false hlong
  rw [locate, hnull, if_neg Bool.false_ne_true, if_neg hshort, relative?_join hrs]
  dsimp only
  rw [List.foldlM_append, bind_of_ok hfold, ht.foldlM_step_of_hasFile h]

end WellFormed
end FileTree

/-! ### What counts for a root -/

/-- The last name of a path has one of the endings that stand for a language. -/
def Path.Supported (p : Path) : Prop := p.suffix ∈ languageSuffixes.map Prod.fst

instance (p : Path) : Decidable p.Supported :=
  inferInstanceAs (Decidable (p.suffix ∈ languageSuffixes.map Prod.fst))

theorem Path.isScannable_iff {p : Path} : p.isScannable = true ↔ p.Supported := by
  simp [isScannable, Language.ofPath?, Supported]

theorem isWalked_iff {names : List String} {p : Path} :
    isWalked names p = true ↔ (∀ n ∈ names, n ∉ skippedDirectories) ∧ p.Supported := by
  rw [isWalked, Bool.and_eq_true, Path.isScannable_iff]
  simp

namespace FileTree

/-- A path leads to a file below a directory: no name on the way is skipped, and the file is not
too large. -/
structure FoundBelow (t : FileTree) (limit : Int) (root p : Path) : Prop where
  directory : t.isDirectory root = true
  below : ∃ names, p = root.join names ∧ ".." ∉ names ∧ ∀ n ∈ names, n ∉ skippedDirectories
  file : ∃ bytes, t.read p = .ok bytes ∧ (bytes.length : Int) ≤ limit
  supported : p.Supported

/-- A path can be looked up, and so can all that is looked up below it.  As all directories may
be searched, this asks only that everything is short enough. -/
structure InReach (t : FileTree) (root : Path) : Prop where
  found : t.locate root ≠ .error .nameTooLong
  walked : ∀ top names, t.locate root = .ok top → t.hasFile top = false →
    (t.hasDirectory (top ++ names) = true ∨
      t.hasFile (top ++ names) = true ∧ (root.join names).Supported ∧
        ∀ n ∈ names, n ∉ skippedDirectories) →
    (root.join names).text.utf8ByteSize ≤ pathLimit

theorem isFile_iff {t : FileTree} {p : Path} :
    t.isFile p = true ↔ ∃ loc, t.locate p = .ok loc ∧ t.hasFile loc = true := by
  unfold isFile
  cases t.locate p <;> simp

theorem isDirectory_iff {t : FileTree} {p : Path} :
    t.isDirectory p = true ↔
      ∃ loc, t.locate p = .ok loc ∧ t.hasFile loc = false ∧ t.hasDirectory loc = true := by
  unfold isDirectory
  cases t.locate p <;> simp

theorem read_eq_ok_iff {t : FileTree} {p : Path} {bytes : List UInt8} :
    t.read p = .ok bytes ↔ ∃ loc, t.locate p = .ok loc ∧ t.bytesAt? loc = some bytes := by
  unfold read
  cases t.locate p with
  | error e => simp
  | ok loc => cases hbytes : t.bytesAt? loc <;> simp [hbytes]

theorem isTooLong_eq_false_iff {p : Path} :
    p.isTooLong = false ↔ p.text.utf8ByteSize ≤ pathLimit := by
  rw [Path.isTooLong, decide_eq_false_iff_not, Nat.not_lt]

theorem isTooLong_of_locate {t : FileTree} {p : Path} {loc : Location}
    (h : t.locate p = .ok loc) : p.isTooLong = false := by
  unfold locate at h
  split at h
  · cases h
  · split at h
    · cases h
    · next hshort => exact isTooLong_eq_false_iff.2 (Nat.not_lt.1 hshort)

theorem mem_names_filesBelow {t : FileTree} {top : Location} {names : List String} :
    names ∈ (t.filesBelow top).map Prod.fst ↔ names ≠ [] ∧ t.hasFile (top ++ names) = true := by
  rw [List.mem_map, hasFile_iff_mem, List.mem_map]
  constructor
  · rintro ⟨f, hf, rfl⟩
    obtain ⟨hne, hmem⟩ := mem_filesBelow.1 hf
    exact ⟨hne, _, hmem, rfl⟩
  · rintro ⟨hne, f, hf, hloc⟩
    refine ⟨(names, f.2), mem_filesBelow.2 ⟨hne, ?_⟩, rfl⟩
    rw [← hloc]
    exact hf

/-- A directory can be walked if the directories below it and the files that count can be looked
up. -/
theorem canWalk_eq_true_iff {t : FileTree} {root : Path} {top : Location} :
    t.canWalk root top = true ↔
      ∀ names, names ≠ [] →
        (t.hasDirectory (top ++ names) = true ∨
          t.hasFile (top ++ names) = true ∧ (root.join names).Supported ∧
            ∀ n ∈ names, n ∉ skippedDirectories) →
        (root.join names).text.utf8ByteSize ≤ pathLimit := by
  rw [canWalk, Bool.and_eq_true, List.all_eq_true, List.all_eq_true]
  simp only [mem_directoriesBelow, mem_names_filesBelow, Bool.or_eq_true, Bool.not_eq_true',
    isTooLong_eq_false_iff]
  constructor
  · rintro ⟨hdirs, hfiles⟩ names hne (hdir | ⟨hfile, hsupported, hskip⟩)
    · exact hdirs names ⟨hne, hdir⟩
    · refine (hfiles names ⟨hne, hfile⟩).resolve_left ?_
      rw [Bool.not_eq_false, isWalked_iff]
      exact ⟨hskip, hsupported⟩
  · intro h
    refine ⟨fun names hnames => h names hnames.1 (Or.inl hnames.2), ?_⟩
    rintro names ⟨hne, hfile⟩
    by_cases hwalked : isWalked names (root.join names) = true
    · obtain ⟨hskip, hsupported⟩ := isWalked_iff.1 hwalked
      exact Or.inr (h names hne (Or.inr ⟨hfile, hsupported, hskip⟩))
    · exact Or.inl (Bool.eq_false_iff.2 hwalked)

theorem canWalk_iff_inReach {t : FileTree} {root : Path} {top : Location}
    (hroot : t.locate root = .ok top) (hfile : t.hasFile top = false) :
    t.canWalk root top = true ↔ t.InReach root := by
  rw [canWalk_eq_true_iff]
  constructor
  · intro h
    refine ⟨by simp [hroot], ?_⟩
    intro top' names htop _ hlooked
    obtain rfl : top = top' := Except.ok.inj (hroot.symm.trans htop)
    by_cases hne : names = []
    · -- the root itself was found
      have hself : root.join names = root := by rw [hne, Path.join, List.append_nil]
      rw [hself]
      exact isTooLong_eq_false_iff.1 (isTooLong_of_locate hroot)
    · exact h names hne hlooked
  · intro h names _ hlooked
    exact h.walked top names hroot hfile hlooked

theorem inReach_of_isFile {t : FileTree} {p : Path} (h : t.isFile p = true) : t.InReach p := by
  obtain ⟨loc, hloc, hfile⟩ := isFile_iff.1 h
  refine ⟨by simp [hloc], ?_⟩
  intro top names htop hnot _
  obtain rfl : loc = top := Except.ok.inj (hloc.symm.trans htop)
  rw [hfile] at hnot
  cases hnot

end FileTree

/-- What is collected for a root: the root itself, if it is a file, or what is found below it. -/
theorem collects_iff {t : FileTree} (ht : t.WellFormed) {limit : Int} {root p : Path}
    (hreach : t.InReach root) :
    Collects t limit root p ↔
      (p = root ∧ t.isFile p = true ∧ p.Supported) ∨ t.FoundBelow limit root p := by
  constructor
  · rintro ⟨top, htop, h⟩
    split at h
    · next hfile =>
      obtain ⟨rfl, hscan⟩ := h
      exact Or.inl ⟨rfl, FileTree.isFile_iff.2 ⟨top, htop, hfile⟩, Path.isScannable_iff.1 hscan⟩
    · next hfile =>
      have hnot : t.hasFile top = false := Bool.eq_false_iff.2 hfile
      obtain ⟨hdir, f, hf, rfl, hwalked, hsize⟩ := h
      obtain ⟨hne, hmem⟩ := FileTree.mem_filesBelow.1 hf
      obtain ⟨hskip, hsupported⟩ := isWalked_iff.1 hwalked
      have hbelow : t.hasFile (top ++ f.1) = true :=
        FileTree.hasFile_iff_mem.2 (List.mem_map.2 ⟨_, hmem, rfl⟩)
      have hshort := hreach.walked top f.1 htop hnot (Or.inr ⟨hbelow, hsupported, hskip⟩)
      have hlocate := ht.locate_join htop hbelow (FileTree.isTooLong_eq_false_iff.2 hshort)
      have hup : ".." ∉ f.1 := fun h =>
        (ht.name_of_mem hbelow (List.mem_append_right top h)).1 rfl
      exact Or.inr
        { directory := FileTree.isDirectory_iff.2 ⟨top, htop, hnot, hdir⟩
          below := ⟨f.1, rfl, hup, hskip⟩
          file := ⟨f.2, FileTree.read_eq_ok_iff.2 ⟨_, hlocate, ht.bytesAt?_of_mem hmem⟩, hsize⟩
          supported := hsupported }
  · rintro (⟨rfl, hfile, hsupported⟩ | h)
    · obtain ⟨top, htop, hfile⟩ := FileTree.isFile_iff.1 hfile
      refine ⟨top, htop, ?_⟩
      rw [if_pos hfile]
      exact ⟨rfl, Path.isScannable_iff.2 hsupported⟩
    · obtain ⟨top, htop, hnot, hdir⟩ := FileTree.isDirectory_iff.1 h.directory
      obtain ⟨names, rfl, hup, hskip⟩ := h.below
      obtain ⟨bytes, hread, hsize⟩ := h.file
      obtain ⟨loc, hloc, hbytes⟩ := FileTree.read_eq_ok_iff.1 hread
      -- the names lead down from where the root leads
      obtain rfl : loc = top ++ names := FileTree.locate_join htop hloc hup
      obtain ⟨g, hfind, rfl⟩ := Option.map_eq_some_iff.1 hbytes
      have hg : g.1 = top ++ names := by simpa using List.find?_some hfind
      have hmem : (top ++ names, g.2) ∈ t.files := by
        rw [← hg]
        exact List.mem_of_find?_eq_some hfind
      have hne : names ≠ [] := by
        rintro rfl
        have hfile : t.hasFile top = true :=
          FileTree.hasFile_iff_mem.2 (List.mem_map.2 ⟨_, hmem, by rw [List.append_nil]⟩)
        rw [hfile] at hnot
        cases hnot
      refine ⟨top, htop, ?_⟩
      rw [hnot, if_neg Bool.false_ne_true]
      exact ⟨hdir, (names, g.2), FileTree.mem_filesBelow.2 ⟨hne, hmem⟩, rfl,
        isWalked_iff.2 ⟨hskip, h.supported⟩, hsize⟩

/-! ### Whole collections -/

/-- A root ends the run exactly if it is out of reach. -/
theorem collectPath_cases (t : FileTree) (limit : Int) (root : Path) :
    (t.InReach root ∧ ∃ c, collectPath t limit root = .ok c) ∨
      ¬t.InReach root ∧ collectPath t limit root = .error .nameTooLong := by
  unfold collectPath
  cases hroot : t.locate root with
  | error e =>
    cases e with
    | nameTooLong => exact Or.inr ⟨fun h => h.found hroot, rfl⟩
    | missing | notDirectory | isDirectory =>
      refine Or.inl ⟨⟨by simp [hroot], ?_⟩, _, rfl⟩
      intro top names htop
      rw [hroot] at htop
      cases htop
  | ok top =>
    dsimp only
    by_cases hfile : t.hasFile top = true
    · rw [if_pos hfile]
      exact Or.inl ⟨FileTree.inReach_of_isFile (FileTree.isFile_iff.2 ⟨top, hroot, hfile⟩), _, rfl⟩
    · have hnot : t.hasFile top = false := Bool.eq_false_iff.2 hfile
      rw [if_neg hfile]
      by_cases hdir : t.hasDirectory top = true
      · rw [if_pos hdir]
        by_cases hwalk : t.canWalk root top = true
        · rw [if_pos hwalk]
          exact Or.inl ⟨(FileTree.canWalk_iff_inReach hroot hnot).1 hwalk, _, rfl⟩
        · rw [if_neg hwalk]
          exact Or.inr ⟨fun h => hwalk ((FileTree.canWalk_iff_inReach hroot hnot).2 h), rfl⟩
      · -- where there is nothing, nothing lies below either
        rw [if_neg hdir]
        refine Or.inl ⟨(FileTree.canWalk_iff_inReach hroot hnot).1 ?_, _, rfl⟩
        rw [FileTree.canWalk_eq_true_iff]
        rintro names hne (hbelow | ⟨hbelow, -⟩)
        · exact absurd (FileTree.hasDirectory_of_append hbelow) hdir
        · exact absurd
            (FileTree.hasDirectory_of_below hbelow (FileTree.below_iff.2 ⟨names, hne, rfl⟩)) hdir

theorem collectPaths_cases (t : FileTree) (limit : Int) (roots : List Path) :
    ((∀ r ∈ roots, t.InReach r) ∧ ∃ c, collectPaths t limit roots = .ok c) ∨
      (∃ r ∈ roots, ¬t.InReach r) ∧ collectPaths t limit roots = .error .nameTooLong := by
  induction roots with
  | nil => exact Or.inl ⟨by simp, _, rfl⟩
  | cons root roots ih =>
    rw [collectPaths]
    rcases collectPath_cases t limit root with ⟨hreach, first, hfirst⟩ | ⟨hnot, herror⟩
    · rw [bind_of_ok hfirst]
      rcases ih with ⟨hrest, rest, hok⟩ | ⟨⟨r, hr, hnot⟩, herror⟩
      · rw [bind_of_ok hok]
        refine Or.inl ⟨?_, _, rfl⟩
        intro r hr
        rcases List.mem_cons.1 hr with rfl | hr
        · exact hreach
        · exact hrest r hr
      · rw [herror]
        exact Or.inr ⟨⟨r, List.mem_cons_of_mem root hr, hnot⟩, rfl⟩
    · rw [herror]
      exact Or.inr ⟨⟨root, List.mem_cons_self, hnot⟩, rfl⟩

theorem collect_cases (t : FileTree) (limit : Int) (roots : List Path) :
    ((∀ r ∈ roots, t.InReach r) ∧ ∃ c, collect t limit roots = .ok c) ∨
      (∃ r ∈ roots, ¬t.InReach r) ∧ collect t limit roots = .error .nameTooLong := by
  unfold collect
  rcases collectPaths_cases t limit roots with ⟨hreach, c, hc⟩ | ⟨hnot, herror⟩
  · rw [hc]
    exact Or.inl ⟨hreach, _, rfl⟩
  · rw [herror]
    exact Or.inr ⟨hnot, rfl⟩

/-- Something is collected exactly if all roots are in reach. -/
theorem exists_collect_iff {t : FileTree} {limit : Int} {roots : List Path} :
    (∃ c, collect t limit roots = .ok c) ↔ ∀ r ∈ roots, t.InReach r := by
  rcases collect_cases t limit roots with ⟨hreach, hc⟩ | ⟨⟨r, hr, hnot⟩, herror⟩
  · exact iff_of_true hc hreach
  · refine iff_of_false ?_ fun h => hnot (h r hr)
    rintro ⟨c, hc⟩
    rw [hc] at herror
    cases herror

theorem pairwise_before_collect {t : FileTree} {limit : Int} {roots : List Path} {c : Collected}
    (h : collect t limit roots = .ok c) : c.files.Pairwise Path.Before := by
  obtain ⟨found, -, rfl⟩ := exists_of_map_ok h
  exact Path.pairwise_before_sort found.files

/-- Which files are collected depends on which roots there are. -/
theorem collect_congr {t : FileTree} {limit : Int} {roots roots' : List Path}
    (h : ∀ r, r ∈ roots' ↔ r ∈ roots) :
    (collect t limit roots').map Collected.files = (collect t limit roots).map Collected.files := by
  rcases collect_cases t limit roots with ⟨hreach, c, hc⟩ | ⟨⟨r, hr, hnot⟩, herror⟩
  · have hreach' : ∀ r ∈ roots', t.InReach r := fun r hr => hreach r ((h r).1 hr)
    obtain ⟨c', hc'⟩ : ∃ c', collect t limit roots' = .ok c' := exists_collect_iff.2 hreach'
    have hfiles : c'.files = c.files := by
      refine (pairwise_before_collect hc').eq_of_mem_iff (pairwise_before_collect hc) fun p => ?_
      rw [mem_collect hc', mem_collect hc]
      simp only [h]
    rw [hc, hc', Except.map, Except.map, hfiles]
  · rcases collect_cases t limit roots' with ⟨hreach, -⟩ | ⟨-, herror'⟩
    · exact absurd (hreach r ((h r).2 hr)) hnot
    · rw [herror, herror']

theorem mem_collect_iff {t : FileTree} (ht : t.WellFormed) {limit : Int} {roots : List Path}
    {c : Collected} (h : collect t limit roots = .ok c) {p : Path} :
    p ∈ c.files ↔
      (p ∈ roots ∧ t.isFile p = true ∧ p.Supported) ∨ ∃ r ∈ roots, t.FoundBelow limit r p := by
  have hreach := exists_collect_iff.1 ⟨c, h⟩
  rw [mem_collect h]
  constructor
  · rintro ⟨r, hr, hcollects⟩
    rcases (collects_iff ht (hreach r hr)).1 hcollects with ⟨rfl, hfile⟩ | hbelow
    · exact Or.inl ⟨hr, hfile⟩
    · exact Or.inr ⟨r, hr, hbelow⟩
  · rintro (⟨hp, hfile⟩ | ⟨r, hr, hbelow⟩)
    · exact ⟨p, hp, (collects_iff ht (hreach p hp)).2 (Or.inl ⟨rfl, hfile⟩)⟩
    · exact ⟨r, hr, (collects_iff ht (hreach r hr)).2 (Or.inr hbelow)⟩

theorem isFile_of_mem_collect {t : FileTree} (ht : t.WellFormed) {limit : Int}
    {roots : List Path} {c : Collected} (h : collect t limit roots = .ok c) {p : Path}
    (hp : p ∈ c.files) : t.isFile p = true ∧ p.Supported := by
  rcases (mem_collect_iff ht h).1 hp with ⟨-, hfile⟩ | ⟨r, -, hbelow⟩
  · exact hfile
  · obtain ⟨bytes, hread, -⟩ := hbelow.file
    obtain ⟨loc, hloc, hbytes⟩ := FileTree.read_eq_ok_iff.1 hread
    refine ⟨FileTree.isFile_iff.2 ⟨loc, hloc, ?_⟩, hbelow.supported⟩
    rw [FileTree.hasFile, hbytes]
    rfl

/-- **Exactly the right files are collected**, strictly in the order of their paths, as long as all
roots are in reach; otherwise there is no result.  So the order of the roots does not matter, a
greater limit only adds files, and what was collected is collected again from itself.

To be in reach is a matter of length alone only because everything in a file tree may be read and
searched. -/
theorem collect_exact (t : FileTree) (limit : Int) (roots : List Path) (ht : t.WellFormed) :
    ((∃ c, collect t limit roots = .ok c) ↔ ∀ r ∈ roots, t.InReach r) ∧
      ∀ c, collect t limit roots = .ok c →
        c.files.Pairwise Path.Before ∧
        (∀ p, p ∈ c.files ↔
          (p ∈ roots ∧ t.isFile p = true ∧ p.Supported) ∨
            ∃ r ∈ roots, t.FoundBelow limit r p) ∧
        (∀ roots', (∀ r, r ∈ roots' ↔ r ∈ roots) →
          ∃ c', collect t limit roots' = .ok c' ∧ c'.files = c.files) ∧
        (∀ limit', limit ≤ limit' → ∃ c', collect t limit' roots = .ok c' ∧ c.files ⊆ c'.files) ∧
        ∃ c', collect t limit c.files = .ok c' ∧ c'.files = c.files := by
  refine ⟨exists_collect_iff, fun c hc => ?_⟩
  have hreach := exists_collect_iff.1 ⟨c, hc⟩
  refine ⟨pairwise_before_collect hc, fun p => mem_collect_iff ht hc, ?_, ?_, ?_⟩
  · intro roots' hroots
    have hsame : (collect t limit roots').map Collected.files = .ok c.files := by
      rw [collect_congr hroots, hc]
      rfl
    exact exists_of_map_ok hsame
  · intro limit' hle
    obtain ⟨c', hc'⟩ : ∃ c', collect t limit' roots = .ok c' := exists_collect_iff.2 hreach
    refine ⟨c', hc', fun p hp => ?_⟩
    rw [mem_collect_iff ht hc']
    refine ((mem_collect_iff ht hc).1 hp).imp_right ?_
    rintro ⟨r, hr, hbelow⟩
    obtain ⟨bytes, hread, hsize⟩ := hbelow.file
    exact ⟨r, hr, { hbelow with file := ⟨bytes, hread, hsize.trans hle⟩ }⟩
  · have hfiles : ∀ p ∈ c.files, t.isFile p = true ∧ p.Supported :=
      fun p hp => isFile_of_mem_collect ht hc hp
    obtain ⟨c', hc'⟩ : ∃ c', collect t limit c.files = .ok c' :=
      exists_collect_iff.2 fun p hp => FileTree.inReach_of_isFile (hfiles p hp).1
    refine ⟨c', hc', ?_⟩
    refine (pairwise_before_collect hc').eq_of_mem_iff (pairwise_before_collect hc) fun p => ?_
    rw [mem_collect_iff ht hc']
    constructor
    · rintro (⟨hp, -⟩ | ⟨r, hr, hbelow⟩)
      · exact hp
      · -- a file is no directory
        obtain ⟨loc, hloc, hfile⟩ := FileTree.isFile_iff.1 (hfiles r hr).1
        obtain ⟨loc', hloc', hnot, -⟩ := FileTree.isDirectory_iff.1 hbelow.directory
        obtain rfl : loc = loc' := Except.ok.inj (hloc.symm.trans hloc')
        rw [hfile] at hnot
        cases hnot
    · intro hp
      exact Or.inl ⟨hp, hfiles p hp⟩

/-- Files in a skipped directory, in another one, and beside both. -/
def nestedTree : FileTree where
  base := ⟨1, []⟩
  files :=
    [(["a.js"], [1]), (["dist", "b.js"], [1, 2]), (["src", "big.ts"], [1, 2, 3, 4, 5]),
      (["src", "c.css"], [1])]
  directories := []

/-- The directory of all files, the skipped one, and a large file. -/
def nestedRoots : List Path := [⟨0, []⟩, ⟨0, ["dist"]⟩, ⟨0, ["src", "big.ts"]⟩]

/-- The file in the skipped directory is taken for the one root and not for the other; the large
one is taken because it was named. -/
theorem collect_exact_nested :
    nestedTree.WellFormed ∧ ∃ c, collect nestedTree 4 nestedRoots = .ok c ∧
      c.files = [⟨0, ["a.js"]⟩, ⟨0, ["dist", "b.js"]⟩, ⟨0, ["src", "big.ts"]⟩] ∧
      c.files.Pairwise Path.Before ∧
      (∃ r ∈ nestedRoots, nestedTree.FoundBelow 4 r ⟨0, ["dist", "b.js"]⟩) ∧
      ∃ c', collect nestedTree 4 c.files = .ok c' ∧ c'.files = c.files := by
  have ht : nestedTree.WellFormed := by decide
  have hfound : collectPaths nestedTree 4 nestedRoots =
      .ok ⟨[⟨0, ["a.js"]⟩, ⟨0, ["dist", "b.js"]⟩, ⟨0, ["src", "big.ts"]⟩],
        [⟨.debug, scanLogger, "Skipping large file: src/big.ts"⟩]⟩ := by
    decide +kernel
  have hsort := Path.sort_of_pairwise_before
    (show [⟨0, ["a.js"]⟩, ⟨0, ["dist", "b.js"]⟩, ⟨0, ["src", "big.ts"]⟩].Pairwise Path.Before by
      decide +kernel)
  have hc : collect nestedTree 4 nestedRoots =
      .ok ⟨[⟨0, ["a.js"]⟩, ⟨0, ["dist", "b.js"]⟩, ⟨0, ["src", "big.ts"]⟩],
        [⟨.debug, scanLogger, "Skipping large file: src/big.ts"⟩]⟩ := by
    rw [collect, hfound, Except.map, hsort]
  obtain ⟨hsorted, hmem, -, -, hagain⟩ := (collect_exact nestedTree 4 nestedRoots ht).2 _ hc
  refine ⟨ht, _, hc, rfl, hsorted, ?_, hagain⟩
  refine ((hmem ⟨0, ["dist", "b.js"]⟩).1 (by simp)).resolve_left ?_
  rintro ⟨hnamed, -⟩
  exact absurd hnamed (by decide)

/-- A name of too many bytes cannot be looked up, although nothing has it. -/
theorem FileTree.locate_of_long_name {t : FileTree} {name : String} (htop : t.hasFile [] = false)
    (hnull : '\x00' ∉ name.toList) (hlong : nameLimit < name.utf8ByteSize)
    (hshort : name.utf8ByteSize ≤ pathLimit) : t.locate ⟨0, [name]⟩ = .error .nameTooLong := by
  have hclean : Path.hasNull ⟨0, [name]⟩ = false := by simpa [Path.hasNull] using hnull
  have htext : Path.text ⟨0, [name]⟩ = name := by
    have hempty : "".pushn '/' 0 = "" := rfl
    simp [Path.text, hempty]
  have hup : name ≠ ".." := by
    rintro rfl
    exact absurd hlong (by decide)
  have hstep : t.step [] name = .error .nameTooLong := by
    simp [step, htop, hup, hasDirectory, hlong]
  rw [locate, hclean, htext, if_neg Bool.false_ne_true, if_neg (Nat.not_lt.2 hshort)]
  change [name].foldlM t.step [] = _
  rw [List.foldlM_cons, hstep]
  rfl

/-- A name of more bytes than any file has. -/
def longName : String := String.ofList (List.replicate 256 'n')

/-- A file is named beside a path that leads nowhere because its name is too long: instead of the
file nothing is collected. -/
theorem collect_stops_at_long_name :
    let t : FileTree := ⟨⟨1, []⟩, [(["a.js"], [])], []⟩
    let file : Path := ⟨0, ["a.js"]⟩
    t.WellFormed ∧ t.isFile file = true ∧ file.Supported ∧
      t.isFile ⟨0, [longName]⟩ = false ∧ t.isDirectory ⟨0, [longName]⟩ = false ∧
      collect t 262144 [⟨0, [longName]⟩, file] = .error .nameTooLong := by
  intro t file
  have hsize : longName.utf8ByteSize = 256 := by decide +kernel
  have hnull : '\x00' ∉ longName.toList := by
    have hchars : longName.toList = List.replicate 256 'n' := String.toList_ofList
    rw [hchars]
    intro h
    exact absurd (List.eq_of_mem_replicate h) (by decide)
  have hlong : t.locate ⟨0, [longName]⟩ = .error .nameTooLong :=
    FileTree.locate_of_long_name rfl hnull (by rw [hsize]; decide) (by rw [hsize]; decide)
  refine ⟨by decide, by decide, by decide, ?_, ?_, ?_⟩
  · rw [FileTree.isFile, hlong]
  · rw [FileTree.isDirectory, hlong]
  · rw [collect, collectPaths, collectPath, hlong]
    rfl

end BindLint
