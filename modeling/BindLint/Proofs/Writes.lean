import BindLint.Files.Collect
import BindLint.Proofs.Steps
import Mathlib.Data.List.Basic

/-!
# What writing a file leaves as it is

Writing a file that is there changes its bytes and nothing else.  All paths lead where
they led before (`FileTree.SameShape`), and at every other location there is the same
(`FileTree.entriesAt`).  What is collected depends on the bytes of a file only through
their number, and only for files below a directory: a path is collected again as long
as nothing was written where it leads.

## Main definitions

* `FileTree.SameShape` — two trees have files and directories at the same locations.
* `FileTree.entriesAt` — the files at a location.
* `FileTree.Proper` — `..` is the name of no file and of no directory.

## Main results

* `FileTree.SameShape.locate_eq` — in trees of one shape, paths lead to the same locations.
* `FileTree.entriesAt_put_of_ne` — writing leaves other locations alone.
* `FileTree.language_eq_of_locate` — paths that lead to one file are of one language.
* `mem_collect_of_entriesAt` — **a path is collected again if nothing was written where it
  leads.**
-/

namespace BindLint

namespace FileTree

/-! ### Shapes -/

/-- Two trees have files and directories at the same locations. -/
structure SameShape (t t' : FileTree) : Prop where
  /-- They lie in the same working directory. -/
  base : t'.base = t.base
  /-- The same directories were made. -/
  directories : t'.directories = t.directories
  /-- There are files at the same locations. -/
  locations : t'.files.map Prod.fst = t.files.map Prod.fst

theorem SameShape.refl (t : FileTree) : SameShape t t := ⟨rfl, rfl, rfl⟩

theorem SameShape.symm {t t' : FileTree} (h : SameShape t t') : SameShape t' t :=
  ⟨h.base.symm, h.directories.symm, h.locations.symm⟩

theorem SameShape.trans {t t' t'' : FileTree} (h : SameShape t t') (h' : SameShape t' t'') :
    SameShape t t'' :=
  ⟨h'.base.trans h.base, h'.directories.trans h.directories, h'.locations.trans h.locations⟩

theorem hasFile_iff_mem {t : FileTree} {loc : Location} :
    t.hasFile loc = true ↔ loc ∈ t.files.map Prod.fst := by
  simp [hasFile, bytesAt?]

theorem hasDirectory_eq (t : FileTree) (loc : Location) :
    t.hasDirectory loc =
      (loc.isEmpty || t.directories.any (fun d => loc = d || below loc d) ||
        (t.files.map Prod.fst).any (below loc)) := by
  rw [hasDirectory, List.any_map]
  rfl

theorem SameShape.hasFile_eq {t t' : FileTree} (h : SameShape t t') (loc : Location) :
    t'.hasFile loc = t.hasFile loc := by
  rw [Bool.eq_iff_iff, hasFile_iff_mem, hasFile_iff_mem, h.locations]

theorem SameShape.hasDirectory_eq {t t' : FileTree} (h : SameShape t t') (loc : Location) :
    t'.hasDirectory loc = t.hasDirectory loc := by
  rw [FileTree.hasDirectory_eq, FileTree.hasDirectory_eq, h.directories, h.locations]

theorem SameShape.step_eq {t t' : FileTree} (h : SameShape t t') : t'.step = t.step := by
  funext loc name
  rw [step, step, h.hasFile_eq, h.hasDirectory_eq]

/-- In trees of one shape, paths lead to the same locations. -/
theorem SameShape.locate_eq {t t' : FileTree} (h : SameShape t t') (p : Path) :
    t'.locate p = t.locate p := by
  rw [locate, locate, relative?, relative?, h.base, h.step_eq]

/-! ### Writing -/

/-- The files at a location. -/
def entriesAt (t : FileTree) (loc : Location) : List (Location × List UInt8) :=
  t.files.filter fun f => f.1 = loc

theorem bytesAt?_eq (t : FileTree) (loc : Location) :
    t.bytesAt? loc = (t.entriesAt loc).head?.map Prod.snd := by
  rw [entriesAt, List.head?_filter, bytesAt?]

/-- Where the same stands, the same is read. -/
theorem bytesAt?_congr {t t' : FileTree} {loc : Location} (h : t'.entriesAt loc = t.entriesAt loc) :
    t'.bytesAt? loc = t.bytesAt? loc := by
  rw [bytesAt?_eq, bytesAt?_eq, h]

theorem sameShape_put {t : FileTree} {loc : Location} (h : t.hasFile loc = true)
    (bytes : List UInt8) : SameShape t (t.put loc bytes) := by
  refine ⟨rfl, rfl, ?_⟩
  rw [put, if_pos h, List.map_map]
  refine List.map_congr_left fun f _ => ?_
  by_cases hf : f.1 = loc <;> simp [hf]

/-- Writing leaves other locations alone. -/
theorem entriesAt_put_of_ne {t : FileTree} {loc other : Location} (h : t.hasFile loc = true)
    (bytes : List UInt8) (hne : loc ≠ other) :
    (t.put loc bytes).entriesAt other = t.entriesAt other := by
  rw [put, if_pos h, entriesAt, entriesAt]
  induction t.files with
  | nil => rfl
  | cons f fs ih =>
    rw [List.map_cons, List.filter_cons, List.filter_cons, ih]
    by_cases hf : f.1 = loc
    · simp [hf, hne]
    · simp [hf]

/-- Writing sets the bytes at the location. -/
theorem bytesAt?_put {t : FileTree} {loc : Location} (h : t.hasFile loc = true)
    (bytes : List UInt8) : (t.put loc bytes).bytesAt? loc = some bytes := by
  have hfile : (t.put loc bytes).hasFile loc = true := by rw [(sameShape_put h bytes).hasFile_eq, h]
  obtain ⟨b, hb⟩ := Option.isSome_iff_exists.1 hfile
  rw [hb]
  rw [bytesAt?, Option.map_eq_some_iff] at hb
  obtain ⟨f, hfind, rfl⟩ := hb
  have hloc : f.1 = loc := by simpa using List.find?_some hfind
  have hmem := List.mem_of_find?_eq_some hfind
  rw [put, if_pos h, List.mem_map] at hmem
  obtain ⟨g, -, hg⟩ := hmem
  split at hg
  · rw [← hg]
  · next hne =>
    rw [hg] at hne
    exact absurd hloc hne

/-! ### Where paths lead -/

/-- One step leads up or to the name. -/
theorem step_ok {t : FileTree} {loc loc' : Location} {name : String}
    (h : t.step loc name = .ok loc') :
    (name = ".." ∧ loc' = loc.dropLast) ∨ (name ≠ ".." ∧ loc' = loc ++ [name]) := by
  unfold step at h
  split at h
  · cases h
  · split at h
    · cases h
    · split at h
      · next hup =>
        split at h
        · cases h
        · cases h
          exact Or.inl ⟨hup, rfl⟩
      · next hname =>
        split at h
        · cases h
        · cases h
          exact Or.inr ⟨hname, rfl⟩

theorem locate_ok {t : FileTree} {p : Path} {loc : Location} (h : t.locate p = .ok loc) :
    ∃ names, t.relative? p = some names ∧ names.foldlM t.step [] = .ok loc := by
  unfold locate at h
  split at h
  · cases h
  · split at h
    · cases h
    · split at h
      · next names hnames => exact ⟨names, hnames, h⟩
      · cases h

/-- The names of a path below the working directory end it. -/
theorem relative?_eq_some {t : FileTree} {p : Path} {names : List String}
    (h : t.relative? p = some names) :
    (p.slashes = 0 ∧ p.parts = names) ∨
      (p.slashes = t.base.slashes ∧ p.parts = t.base.parts ++ names) := by
  unfold relative? at h
  split at h
  · next hzero => exact Or.inl ⟨hzero, Option.some.inj h⟩
  · split at h
    · next hbase =>
      rw [Bool.and_eq_true, decide_eq_true_eq, List.isPrefixOf_iff_prefix] at hbase
      obtain ⟨hslashes, rest, hrest⟩ := hbase
      rw [← hrest, List.drop_left, Option.some_inj] at h
      subst h
      exact Or.inr ⟨hslashes.symm, hrest.symm⟩
    · cases h

theorem not_isScannable_of_suffix {p : Path} (h : p.suffix = "") : ¬p.isScannable = true := by
  simp [Path.isScannable, Language.ofPath?, languageSuffixes, h]

/-- A file that can be linted has the last name of its path, unless the path is that of
the working directory. -/
theorem locate_last {t : FileTree} {p : Path} {loc : Location} (h : t.locate p = .ok loc)
    (hp : p.isScannable = true) : (loc = [] ∧ p = t.base) ∨ ∃ top, loc = top ++ [p.name] := by
  obtain ⟨names, hnames, hfold⟩ := locate_ok h
  rcases List.eq_nil_or_concat names with rfl | ⟨init, name, rfl⟩
  · cases hfold
    rcases relative?_eq_some hnames with ⟨-, hparts⟩ | ⟨hslashes, hparts⟩
    · -- the path has no name at all
      refine absurd hp (not_isScannable_of_suffix ?_)
      rw [Path.suffix, Path.name, hparts]
      rfl
    · rw [List.append_nil] at hparts
      exact Or.inl ⟨rfl, by cases p; cases ht : t.base; simp_all⟩
  · have hname : p.name = name := by
      rcases relative?_eq_some hnames with ⟨-, hparts⟩ | ⟨-, hparts⟩ <;>
        simp [Path.name, hparts]
    rw [List.concat_eq_append, List.foldlM_append] at hfold
    obtain ⟨top, -, hlast⟩ := exists_of_bind_ok hfold
    rw [List.foldlM_cons] at hlast
    obtain ⟨next, hstep, hnext⟩ := exists_of_bind_ok hlast
    cases hnext
    rcases step_ok hstep with ⟨hup, -⟩ | ⟨-, hloc⟩
    · -- a path that ends by leading up has no ending
      refine absurd hp (not_isScannable_of_suffix ?_)
      rw [Path.suffix, hname, hup]
      rfl
    · exact Or.inr ⟨top, by rw [hloc, hname]⟩

/-- Paths that lead to one file are of one language. -/
theorem language_eq_of_locate {t : FileTree} {p q : Path} {loc : Location}
    (hp : t.locate p = .ok loc) (hq : t.locate q = .ok loc) (hps : p.isScannable = true)
    (hqs : q.isScannable = true) : Language.ofPath? p = Language.ofPath? q := by
  rcases locate_last hp hps with ⟨hnil, hbase⟩ | ⟨top, hlast⟩
  · rcases locate_last hq hqs with ⟨-, hbase'⟩ | ⟨top', hlast'⟩
    · rw [hbase, hbase']
    · rw [hnil] at hlast'
      simp at hlast'
  · rcases locate_last hq hqs with ⟨hnil, -⟩ | ⟨top', hlast'⟩
    · rw [hnil] at hlast
      simp at hlast
    · have hname : p.name = q.name := by
        rw [hlast] at hlast'
        simpa using (List.append_inj' hlast' rfl).2
      rw [Language.ofPath?, Language.ofPath?, Path.suffix, Path.suffix, hname]

/-- No file or directory has the name `..`, which leads up. -/
def Proper (t : FileTree) : Prop := ∀ f ∈ t.files, ".." ∉ f.1

instance (t : FileTree) : Decidable t.Proper :=
  inferInstanceAs (Decidable (∀ f ∈ t.files, ".." ∉ f.1))

theorem SameShape.proper {t t' : FileTree} (h : SameShape t t') (ht : t.Proper) : t'.Proper := by
  intro f hf
  have hmem : f.1 ∈ t.files.map Prod.fst := h.locations ▸ List.mem_map_of_mem hf
  obtain ⟨g, hg, hgf⟩ := List.mem_map.1 hmem
  exact hgf ▸ ht g hg

theorem relative?_join {t : FileTree} {root : Path} {rs : List String}
    (h : t.relative? root = some rs) (names : List String) :
    t.relative? (root.join names) = some (rs ++ names) := by
  unfold relative? at h ⊢
  change (if root.slashes = 0 then some (root.parts ++ names) else _) = _
  split at h
  · next hzero =>
    cases h
    rw [if_pos hzero]
  · next hrooted =>
    rw [if_neg hrooted]
    split at h
    · next hbase =>
      rw [Bool.and_eq_true, decide_eq_true_eq, List.isPrefixOf_iff_prefix] at hbase
      obtain ⟨hslashes, rest, hrest⟩ := hbase
      rw [← hrest, List.drop_left, Option.some_inj] at h
      have hparts : (root.join names).parts = t.base.parts ++ (rs ++ names) := by
        rw [Path.join, ← hrest, h, List.append_assoc]
      have hprefix : t.base.parts.isPrefixOf (root.join names).parts = true := by
        rw [List.isPrefixOf_iff_prefix, hparts]
        exact List.prefix_append _ _
      have hslashes' : t.base.slashes = (root.join names).slashes := hslashes
      rw [if_pos (Bool.and_eq_true_iff.2 ⟨decide_eq_true hslashes', hprefix⟩), hparts,
        List.drop_left]
    · cases h

theorem foldlM_step {t : FileTree} {top loc : Location} {names : List String}
    (h : names.foldlM t.step top = .ok loc) (hnames : ".." ∉ names) : loc = top ++ names := by
  induction names generalizing top with
  | nil =>
    cases h
    exact (List.append_nil _).symm
  | cons name names ih =>
    rw [List.foldlM_cons] at h
    obtain ⟨next, hstep, hrest⟩ := exists_of_bind_ok h
    have hloc := ih hrest fun hmem => hnames (List.mem_cons_of_mem name hmem)
    rcases step_ok hstep with ⟨hup, -⟩ | ⟨-, hnext⟩
    · exact absurd (hup ▸ List.mem_cons_self) hnames
    · rw [hloc, hnext, List.append_assoc, List.singleton_append]

/-- Names below a path lead below where it leads. -/
theorem locate_join {t : FileTree} {root : Path} {top loc : Location} {names : List String}
    (hroot : t.locate root = .ok top) (h : t.locate (root.join names) = .ok loc)
    (hnames : ".." ∉ names) : loc = top ++ names := by
  obtain ⟨rs, hrs, hfold⟩ := locate_ok hroot
  obtain ⟨all, hall, hfold'⟩ := locate_ok h
  rw [relative?_join hrs names, Option.some_inj] at hall
  subst hall
  rw [List.foldlM_append, hfold] at hfold'
  exact foldlM_step hfold' hnames

end FileTree

/-! ### Collecting -/

/-- A path is collected for a root: it is the root itself, or lies below it. -/
def Collects (t : FileTree) (limit : Int) (root p : Path) : Prop :=
  ∃ top, t.locate root = .ok top ∧
    if t.hasFile top then p = root ∧ p.isScannable = true
    else t.hasDirectory top = true ∧ ∃ f ∈ t.filesBelow top,
      p = root.join f.1 ∧ isWalked f.1 p = true ∧ (f.2.length : Int) ≤ limit

theorem Collects.isScannable {t : FileTree} {limit : Int} {root p : Path}
    (h : Collects t limit root p) : p.isScannable = true := by
  obtain ⟨top, -, h⟩ := h
  split at h
  · exact h.2
  · obtain ⟨-, f, -, -, hwalked, -⟩ := h
    exact (Bool.and_eq_true_iff.1 hwalked).2

theorem mem_collectBelow {limit : Int} {root p : Path} {names : List String}
    {bytes : List UInt8} :
    p ∈ (collectBelow limit root names bytes).files ↔
      p = root.join names ∧ isWalked names p = true ∧ (bytes.length : Int) ≤ limit := by
  by_cases hwalked : isWalked names (root.join names) = true
  · by_cases hlarge : limit < (bytes.length : Int)
    · simp [collectBelow, hwalked, hlarge]
    · have hsmall : (bytes.length : Int) ≤ limit := by omega
      simp only [collectBelow, hwalked, Bool.not_true, Bool.false_eq_true, if_false, if_neg hlarge,
        List.mem_singleton, hsmall, and_true]
      exact ⟨fun hp => ⟨hp, hp ▸ hwalked⟩, And.left⟩
  · simp only [collectBelow, Bool.eq_false_iff.2 hwalked, Bool.not_false, if_true,
      List.not_mem_nil, false_iff, not_and]
    rintro rfl hp
    exact absurd hp hwalked

theorem mem_collectAll {limit : Int} {root p : Path} {fs : List (List String × List UInt8)} :
    p ∈ (collectAll limit root fs).files ↔
      ∃ f ∈ fs, p = root.join f.1 ∧ isWalked f.1 p = true ∧ (f.2.length : Int) ≤ limit := by
  induction fs with
  | nil => simp [collectAll]
  | cons f fs ih =>
    rw [collectAll, Collected.append, List.mem_append, ih, mem_collectBelow,
      List.exists_mem_cons_iff]

theorem mem_collectPath {t : FileTree} {limit : Int} {root p : Path} {c : Collected}
    (h : collectPath t limit root = .ok c) : p ∈ c.files ↔ Collects t limit root p := by
  unfold collectPath at h
  unfold Collects
  cases hroot : t.locate root with
  | error e =>
    have hnil : c.files = [] := by
      rw [hroot] at h
      cases e <;> cases h <;> rfl
    simp [hnil]
  | ok top =>
    simp only [hroot] at h
    simp only [Except.ok.injEq, exists_eq_left']
    split at h
    · next hfile =>
      cases h
      rw [if_pos hfile, collectFile]
      split
      · next hscan =>
        simp only [List.mem_singleton]
        exact ⟨fun hp => ⟨hp, hp ▸ hscan⟩, And.left⟩
      · next hscan =>
        simp only [List.not_mem_nil, false_iff, not_and]
        rintro rfl
        exact hscan
    · next hfile =>
      rw [if_neg hfile]
      split at h
      · next hdir =>
        split at h
        · cases h
          rw [mem_collectAll]
          exact ⟨fun hp => ⟨hdir, hp⟩, And.right⟩
        · cases h
      · next hdir =>
        cases h
        simp [collectMissing, hdir]

theorem collectPaths_cons_ok {t : FileTree} {limit : Int} {root : Path} {roots : List Path}
    {c : Collected} (h : collectPaths t limit (root :: roots) = .ok c) :
    ∃ first rest, collectPath t limit root = .ok first ∧ collectPaths t limit roots = .ok rest ∧
      c = first.append rest := by
  obtain ⟨first, hfirst, h⟩ := exists_of_bind_ok h
  obtain ⟨rest, hrest, h⟩ := exists_of_bind_ok h
  exact ⟨first, rest, hfirst, hrest, (Except.ok.inj h).symm⟩

theorem mem_collectPaths {t : FileTree} {limit : Int} {roots : List Path} {p : Path}
    {c : Collected} (h : collectPaths t limit roots = .ok c) :
    p ∈ c.files ↔ ∃ root ∈ roots, Collects t limit root p := by
  induction roots generalizing c with
  | nil =>
    cases h
    simp
  | cons root roots ih =>
    obtain ⟨first, rest, hfirst, hrest, rfl⟩ := collectPaths_cons_ok h
    rw [Collected.append, List.mem_append, mem_collectPath hfirst, ih hrest,
      List.exists_mem_cons_iff]

/-- The paths that are collected are those collected for one of the roots. -/
theorem mem_collect {t : FileTree} {limit : Int} {roots : List Path} {p : Path} {c : Collected}
    (h : collect t limit roots = .ok c) :
    p ∈ c.files ↔ ∃ root ∈ roots, Collects t limit root p := by
  obtain ⟨found, hfound, rfl⟩ := exists_of_map_ok h
  rw [← mem_collectPaths hfound]
  simp [Path.sort]

theorem FileTree.SameShape.canWalk_eq {t t' : FileTree} (h : t.SameShape t') (root : Path)
    (top : Location) : t'.canWalk root top = t.canWalk root top := by
  have hparents : t'.files.map (fun f => f.1.dropLast) = t.files.map fun f => f.1.dropLast := by
    have hmap := congrArg (List.map List.dropLast) h.locations
    rwa [List.map_map, List.map_map] at hmap
  have hnames : (t'.filesBelow top).map Prod.fst = (t.filesBelow top).map Prod.fst := by
    have hfilter := congrArg (fun ls => (ls.filter (below top)).map (List.drop top.length))
      h.locations
    simp only [List.filter_map, List.map_map] at hfilter
    rw [filesBelow, filesBelow, List.map_map, List.map_map]
    exact hfilter
  rw [canWalk, canWalk, directoriesBelow, directoriesBelow, h.directories, hparents, hnames]

theorem exists_collectPath {t t' : FileTree} {limit : Int} {root : Path} {c : Collected}
    (hshape : t.SameShape t') (h : collectPath t limit root = .ok c) :
    ∃ c', collectPath t' limit root = .ok c' := by
  unfold collectPath at h ⊢
  rw [hshape.locate_eq]
  split at h
  · cases h
  · exact ⟨_, rfl⟩
  · rw [hshape.hasFile_eq, hshape.hasDirectory_eq, hshape.canWalk_eq]
    split at h
    · next hfile => exact ⟨_, if_pos hfile⟩
    · next hfile =>
      rw [if_neg hfile]
      split at h
      · next hdir =>
        rw [if_pos hdir]
        split at h
        · next hwalk => exact ⟨_, if_pos hwalk⟩
        · cases h
      · next hdir => exact ⟨_, if_neg hdir⟩

theorem exists_collectPaths {t t' : FileTree} {limit : Int} {roots : List Path} {c : Collected}
    (hshape : t.SameShape t') (h : collectPaths t limit roots = .ok c) :
    ∃ c', collectPaths t' limit roots = .ok c' := by
  induction roots generalizing c with
  | nil => exact ⟨_, rfl⟩
  | cons root roots ih =>
    obtain ⟨first, rest, hfirst, hrest, -⟩ := collectPaths_cons_ok h
    obtain ⟨first', hfirst'⟩ := exists_collectPath hshape hfirst
    obtain ⟨rest', hrest'⟩ := ih hrest
    exact ⟨_, by rw [collectPaths, hfirst', hrest']; rfl⟩

/-- Files can be collected in a tree if they can in one of the same shape. -/
theorem exists_collect {t t' : FileTree} {limit : Int} {roots : List Path} {c : Collected}
    (hshape : t.SameShape t') (h : collect t limit roots = .ok c) :
    ∃ c', collect t' limit roots = .ok c' := by
  obtain ⟨found, hfound, -⟩ := exists_of_map_ok h
  obtain ⟨found', hfound'⟩ := exists_collectPaths hshape hfound
  exact ⟨_, by rw [collect, hfound']; rfl⟩

/-- A path is collected in a tree of the same shape if the same stands where it leads. -/
theorem Collects.of_entriesAt {t t' : FileTree} {limit : Int} {root p : Path} {loc : Location}
    (hshape : t.SameShape t') (hproper : t.Proper) (h : Collects t limit root p)
    (hp : t.locate p = .ok loc) (hentries : t'.entriesAt loc = t.entriesAt loc) :
    Collects t' limit root p := by
  obtain ⟨top, hroot, h⟩ := h
  refine ⟨top, by rw [hshape.locate_eq, hroot], ?_⟩
  rw [hshape.hasFile_eq, hshape.hasDirectory_eq]
  split at h
  · next hfile => rwa [if_pos hfile]
  · next hfile =>
    rw [if_neg hfile]
    obtain ⟨hdir, f, hf, hpf, hwalked, hsize⟩ := h
    refine ⟨hdir, f, ?_, hpf, hwalked, hsize⟩
    obtain ⟨g, hg, rfl⟩ := List.mem_map.1 hf
    obtain ⟨hg, hbelow⟩ := List.mem_filter.1 hg
    refine List.mem_map.2 ⟨g, List.mem_filter.2 ⟨?_, hbelow⟩, rfl⟩
    -- the file that was collected stands where the path leads
    have hprefix : top <+: g.1 := List.isPrefixOf_iff_prefix.1 (Bool.and_eq_true_iff.1 hbelow).1
    have hloc : loc = top ++ g.1.drop top.length :=
      FileTree.locate_join hroot (hpf ▸ hp) fun hup => hproper g hg (List.mem_of_mem_drop hup)
    rw [List.prefix_iff_eq_append.1 hprefix] at hloc
    have hmem : g ∈ t'.entriesAt loc := by
      rw [hentries]
      exact List.mem_filter.2 ⟨hg, by simpa using hloc.symm⟩
    exact (List.mem_filter.1 hmem).1

/-- **A path is collected again if nothing was written where it leads.** -/
theorem mem_collect_of_entriesAt {t t' : FileTree} {limit : Int} {roots : List Path} {p : Path}
    {loc : Location} {c c' : Collected} (hshape : t.SameShape t') (hproper : t.Proper)
    (hc : collect t limit roots = .ok c) (hc' : collect t' limit roots = .ok c')
    (hp : t.locate p = .ok loc) (hentries : t'.entriesAt loc = t.entriesAt loc)
    (hmem : p ∈ c.files) : p ∈ c'.files := by
  obtain ⟨root, hroot, hcollects⟩ := (mem_collect hc).1 hmem
  exact (mem_collect hc').2 ⟨root, hroot, hcollects.of_entriesAt hshape hproper hp hentries⟩

end BindLint
