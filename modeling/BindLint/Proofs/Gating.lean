import BindLint.Proofs.Laminar

/-!
# Options only gate

Options enter the rule at three points: whether closures marked `async` are looked at, which
names of calls count, and whether only these count.  None of them reaches the texts that are
read or the range that is replaced.  So a stricter set of options passes over more closures and
says the same about those it still reports: at every place it answers as the laxer set does, or
not at all (`check_of_stricter`).

Reading a node can fail, and then a pass stops.  Stricter options read less, so they stop at most
where laxer ones do.

## Main definitions

* `Options.Stricter` — options that gate at least as much as others.

## Main results

* `check_of_stricter` — stricter options pass over a closure or answer as the laxer ones do.
* `checkPlaces_sublist` — the same for a whole pass.
* `findings_of_stricter` — **stricter options find part of what laxer ones find, in the same
  order and with the same findings.**
-/

namespace BindLint

/-- Options that gate at least as much as others: the policy is on if it is on there, and names
and closures marked `async` count only if they count there. -/
structure Options.Stricter (o₁ o₂ : Options) : Prop where
  policy : o₂.onlyLongLived = true → o₁.onlyLongLived = true
  contexts : o₁.contexts ⊆ o₂.contexts
  async : o₁.includeAsync = true → o₂.includeAsync = true

/-! ### One closure -/

theorem Node.forwardedCall?_mono {a b : Bool} (hab : a = true → b = true) {n : Node}
    {found : Form × MethodCall} (h : n.forwardedCall? a = some found) :
    n.forwardedCall? b = some found := by
  unfold forwardedCall? at h ⊢
  split at h
  · cases h
  · next c _ =>
    split at h
    · cases h
    · next hcounts =>
      have hcounts' : ¬(c.isAsync && !b) = true := by
        cases a <;> cases b <;> simp_all
      rw [if_neg hcounts']
      exact h

/-- To look at more closures changes the answer only for those that were passed over. -/
theorem matchClosure_mono (src : Source) {a b : Bool} (hab : a = true → b = true) (n : Node) :
    matchClosure src a n = .ok none ∨ matchClosure src b n = matchClosure src a n := by
  unfold matchClosure
  cases h : n.forwardedCall? a with
  | none => exact Or.inl rfl
  | some found =>
    rw [Node.forwardedCall?_mono hab h]
    exact Or.inr rfl

theorem Options.Stricter.isLongLived {o₁ o₂ : Options} (h : o₁.Stricter o₂)
    {callee : Option String} (hcallee : o₁.isLongLived callee = true) :
    o₂.isLongLived callee = true := by
  cases callee with
  | none => cases hcallee
  | some name =>
    have hmem : name ∈ o₁.contexts := by simpa [Options.isLongLived] using hcallee
    simpa [Options.isLongLived] using h.contexts hmem

/-- What stricter options report in a placement, laxer ones report there. -/
theorem Options.Stricter.reports {o₁ o₂ : Options} (h : o₁.Stricter o₂) {s : Shape}
    {pl : Placement} (hreports : o₁.reports s pl = true) : o₂.reports s pl = true := by
  simp only [Options.reports, Options.admits, Bool.and_eq_true, Bool.or_eq_true,
    Bool.not_eq_true'] at hreports ⊢
  obtain ⟨hcarried, (hpolicy | hlong) | htimer⟩ := hreports
  · -- the policy is off, so it is off under the laxer options as well
    have hoff : o₂.onlyLongLived = false := by
      rw [Bool.eq_false_iff]
      intro hon
      rw [h.policy hon] at hpolicy
      cases hpolicy
    exact ⟨hcarried, Or.inl (Or.inl hoff)⟩
  · exact ⟨hcarried, Or.inl (Or.inr (h.isLongLived hlong))⟩
  · -- a timer position counts under all options
    exact ⟨hcarried, Or.inr htimer⟩

/-- **Stricter options pass over a closure or answer as the laxer ones do**, also where a text
cannot be read. -/
theorem check_of_stricter {o₁ o₂ : Options} (h : o₁.Stricter o₂) (src : Source) (p : Place) :
    check o₁ src p = .ok none ∨ check o₂ src p = check o₁ src p := by
  rw [check_eq, check_eq]
  rcases matchClosure_mono src h.async p.node with hnone | hmatch
  · rw [hnone]
    exact Or.inl rfl
  · rw [hmatch]
    cases matchClosure src o₁.includeAsync p.node with
    | error e => exact Or.inr rfl
    | ok shape =>
      cases shape with
      | none => exact Or.inl rfl
      | some s =>
        cases Placement.read src p with
        | error e => exact Or.inr rfl
        | ok pl =>
          -- from here on only the policy is asked
          by_cases hreports : o₁.reports s pl = true
          · exact Or.inr (by simp only [hreports, h.reports hreports])
          · exact Or.inl (by simp only [if_neg hreports])

/-- A closure that stricter options report is reported by laxer ones, with the same hit. -/
theorem check_eq_of_stricter {o₁ o₂ : Options} (h : o₁.Stricter o₂) {src : Source} {p : Place}
    {hit : Hit} (hcheck : check o₁ src p = .ok (some hit)) : check o₂ src p = .ok (some hit) := by
  rcases check_of_stricter h src p with hnone | heq
  · rw [hcheck] at hnone
    cases hnone
  · rw [heq, hcheck]

/-! ### Passes -/

/-- A pass under stricter options over the same places comes to its end if the one under the
laxer options does, and its hits are part of those, in their order. -/
theorem checkPlaces_sublist {o₁ o₂ : Options} (h : o₁.Stricter o₂) {src : Source}
    {ps : List Place} (hstop : (checkPlaces o₂ src ps).stopped = none) :
    (checkPlaces o₁ src ps).stopped = none ∧
      (checkPlaces o₁ src ps).hits.Sublist (checkPlaces o₂ src ps).hits := by
  induction ps with
  | nil => exact ⟨rfl, List.Sublist.refl []⟩
  | cons p ps ih =>
    rw [checkPlaces] at hstop
    rw [checkPlaces, checkPlaces]
    by_cases hclosure : p.node.isClosure = true
    · rw [if_pos hclosure] at hstop ⊢
      rw [if_pos hclosure]
      -- both passes go on over the remaining places, with or without a hit at this one
      cases hlax : check o₂ src p with
      | error e =>
        rw [hlax] at hstop
        cases hstop
      | ok answer =>
        have hrest : (checkPlaces o₂ src ps).stopped = none := by
          rw [hlax] at hstop
          cases answer <;> exact hstop
        obtain ⟨hends, hsublist⟩ := ih hrest
        rcases check_of_stricter h src p with hnone | heq
        · rw [hnone]
          cases answer with
          | none => exact ⟨hends, hsublist⟩
          | some hit => exact ⟨hends, hsublist.cons hit⟩
        · rw [← heq, hlax]
          cases answer with
          | none => exact ⟨hends, hsublist⟩
          | some hit => exact ⟨hends, hsublist.cons_cons hit⟩
    · rw [if_neg hclosure] at hstop ⊢
      rw [if_neg hclosure]
      exact ih hstop

/-- A pass is refused for a syntax error whatever the options are. -/
theorem findings_eq_unparsable_iff {parse : Parser} {o : Options} {path : Path} {text : String}
    {e : SyntaxError} :
    (lint parse o path text).findings = .error (.unparsable e) ↔
      path.isScannable = true ∧ (parse path text).hasError = true ∧
        e = .ofTree path (.ofText text) (parse path text) := by
  rw [Pass.findings_eq_error_iff]
  unfold lint lintTree
  constructor
  · intro h
    split at h
    · next hpath =>
      split at h
      · next htree =>
        cases h
        exact ⟨hpath, htree, rfl⟩
      · obtain ⟨p, -, e', -, he⟩ := exists_error_of_stopped h
        cases he
    · cases h
  · rintro ⟨hpath, htree, rfl⟩
    rw [if_pos hpath, if_pos htree]

/-- Under stricter options a pass that would come to its end still does, and finds a part. -/
theorem lint_sublist {o₁ o₂ : Options} (h : o₁.Stricter o₂) {parse : Parser} {path : Path}
    {text : String} (hstop : (lint parse o₂ path text).stopped = none) :
    (lint parse o₁ path text).stopped = none ∧
      (lint parse o₁ path text).hits.Sublist (lint parse o₂ path text).hits := by
  unfold lint lintTree at hstop ⊢
  split
  · next hpath =>
    rw [if_pos hpath] at hstop
    split
    · next htree =>
      rw [if_pos htree] at hstop
      cases hstop
    · next htree =>
      rw [if_neg htree] at hstop
      exact checkPlaces_sublist h hstop
  · exact ⟨rfl, List.Sublist.refl []⟩

/-- **Stricter options find part of what laxer ones find, in the same order and with the same
findings.**  If the pass under the laxer options comes to its end, so does the other; over an
aligned tree without an error both do, and a syntax error is the same under both.  A closure
that the stricter options report is reported by the laxer ones too, and all that is said about
it is the same. -/
theorem findings_of_stricter (parse : Parser) (path : Path) (text : String) (o₁ o₂ : Options)
    (h : o₁.Stricter o₂) :
    (∀ fs₂, (lint parse o₂ path text).findings = .ok fs₂ →
        ∃ fs₁, (lint parse o₁ path text).findings = .ok fs₁ ∧ fs₁.Sublist fs₂) ∧
      ((parse path text).hasError = false → (parse path text).Aligned text →
        ∃ fs₂, (lint parse o₂ path text).findings = .ok fs₂) ∧
      (∀ e, (lint parse o₁ path text).findings = .error (.unparsable e) ↔
        (lint parse o₂ path text).findings = .error (.unparsable e)) ∧
      ∀ p hit, check o₁ (.ofText text) p = .ok (some hit) →
        check o₂ (.ofText text) p = .ok (some hit) := by
  refine ⟨?_, ?_, ?_, ?_⟩
  · intro fs₂ hfs₂
    obtain ⟨hstop, rfl⟩ := Pass.findings_eq_ok_iff.1 hfs₂
    obtain ⟨hends, hsublist⟩ := lint_sublist h hstop
    exact ⟨_, Pass.findings_eq_ok_iff.2 ⟨hends, rfl⟩, hsublist.map Hit.finding⟩
  · intro htree halign
    obtain ⟨fs, hfs, -⟩ := exists_findings o₂ htree halign
    exact ⟨fs, hfs⟩
  · intro e
    rw [findings_eq_unparsable_iff, findings_eq_unparsable_iff]
  · intro p hit hcheck
    exact check_eq_of_stricter h hcheck

/-- The closure in the timer position is found under both sets of options; the one behind the
delay only where the name of the scheduler counts. -/
theorem findings_of_stricter_behindDelay :
    let o₁ : Options := ⟨true, ["on"], false⟩
    let o₂ : Options := ⟨true, ["on", "setTimeout"], true⟩
    let path : Path := ⟨0, ["a.js"]⟩
    o₁.Stricter o₂ ∧ ∃ fs₁ fs₂,
      (lint (fun _ _ => behindDelayTree) o₁ path behindDelayText).findings = .ok fs₁ ∧
      (lint (fun _ _ => behindDelayTree) o₂ path behindDelayText).findings = .ok fs₂ ∧
      fs₁.length = 1 ∧ fs₂.length = 2 ∧ fs₁.Sublist fs₂ := by
  intro o₁ o₂ path
  have hstricter : o₁.Stricter o₂ := ⟨fun _ => rfl, by simp [o₁, o₂], fun hasync => by cases hasync⟩
  have hone : (lint (fun _ _ => behindDelayTree) o₁ path behindDelayText).hits.length = 1 := by
    decide +kernel
  have htwo : (lint (fun _ _ => behindDelayTree) o₂ path behindDelayText).hits.length = 2 := by
    decide +kernel
  obtain ⟨hpart, hends, -, -⟩ :=
    findings_of_stricter (fun _ _ => behindDelayTree) path behindDelayText o₁ o₂ hstricter
  obtain ⟨fs₂, hfs₂⟩ := hends (by decide) (by decide +kernel)
  obtain ⟨fs₁, hfs₁, hsublist⟩ := hpart fs₂ hfs₂
  refine ⟨hstricter, fs₁, fs₂, hfs₁, hfs₂, ?_, ?_, hsublist⟩
  · rw [← (Pass.findings_eq_ok_iff.1 hfs₁).2, List.length_map, hone]
  · rw [← (Pass.findings_eq_ok_iff.1 hfs₂).2, List.length_map, htwo]

end BindLint
