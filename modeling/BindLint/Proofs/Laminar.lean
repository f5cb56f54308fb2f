import BindLint.Proofs.Rounds
import Mathlib.Data.List.Pairwise

/-!
# Findings that overlap

A finding replaces a closure or the whole scheduler call that the closure is passed to, a
few levels above it.  Either way the range is that of a node.  In a tree whose ranges are
well nested two nodes stand one below the other or in different branches, so that two
findings are apart or one covers the other: no finding overlaps another one in part.

The sweep skips a suggestion that starts inside one that was applied.  Together this says
what is skipped: something inside what was applied, or something around it.

## Main definitions

* `Node.Nested` — the ranges of a tree are well nested.
* `Suggestion.Covers`, `Suggestion.Apart` — how two ranges lie.

## Main results

* `Node.Nested.apart_or_covers` — two nodes of a well nested tree are apart, or one covers
  the other.
* `exists_findings` — a pass over an aligned tree without an error offers to replace nodes
  of the tree.
* `findings_laminar` — **findings are apart or one covers the other, and what is skipped
  covers, or is covered by, something that was applied.**
-/

namespace BindLint

/-! ### Well nested trees -/

namespace Span

/-- A range contains another one. -/
def Covers (a b : Span) : Prop := a.start ≤ b.start ∧ b.stop ≤ a.stop

/-- Two ranges do not overlap. -/
def Apart (a b : Span) : Prop := a.stop ≤ b.start ∨ b.stop ≤ a.start

instance (a b : Span) : Decidable (a.Covers b) :=
  inferInstanceAs (Decidable (a.start ≤ b.start ∧ b.stop ≤ a.stop))

theorem Covers.refl (a : Span) : a.Covers a := ⟨Nat.le_refl _, Nat.le_refl _⟩

theorem Covers.trans {a b c : Span} (hab : a.Covers b) (hbc : b.Covers c) : a.Covers c :=
  ⟨Nat.le_trans hab.1 hbc.1, Nat.le_trans hbc.2 hab.2⟩

/-- What is covered by ranges in order is apart. -/
theorem Covers.apart {a b c d : Span} (hac : a.Covers c) (hbd : b.Covers d)
    (h : a.stop ≤ b.start) : c.Apart d :=
  Or.inl (Nat.le_trans hac.2 (Nat.le_trans h hbd.1))

theorem Apart.symm {a b : Span} (h : a.Apart b) : b.Apart a := Or.symm h

end Span

namespace Node

/-- The ranges of a tree are well nested: each node covers its children, and these stand in
order and do not overlap. -/
def Nested (tree : Node) : Prop :=
  ∀ n : Node, n.Within tree → (∀ c ∈ n.children, n.span.Covers c.span) ∧
    n.children.Pairwise fun a b => a.span.stop ≤ b.span.start

/-- Nesting can be checked place by place. -/
instance (tree : Node) : Decidable tree.Nested :=
  decidable_of_iff
    (∀ p ∈ tree.places, (∀ c ∈ p.node.children, p.node.span.Covers c.span) ∧
      p.node.children.Pairwise fun a b => a.span.stop ≤ b.span.start) <| by
    rw [Nested, ← Place.forall_mem_places_iff]

theorem Nested.of_mem_children {c n : Node} (h : n.Nested) (hc : c ∈ n.children) : c.Nested :=
  fun m hm => h m (hm.trans (within_of_mem_children hc))

/-- A well nested tree covers all nodes within it. -/
theorem Nested.covers {m n : Node} (h : n.Nested) (hm : m.Within n) : n.span.Covers m.span := by
  induction hm with
  | refl => exact .refl _
  | @child c n hc _ ih =>
    have hcovers : n.span.Covers c.span := (h n (.refl n)).1 c hc
    exact hcovers.trans (ih (h.of_mem_children hc))

/-- Different children of a node of a well nested tree are apart, and so is what lies
within them. -/
theorem Nested.apart_of_ne {n c d a b : Node} (h : n.Nested) (hc : c ∈ n.children)
    (hd : d ∈ n.children) (hne : c ≠ d) (ha : a.Within c) (hb : b.Within d) :
    a.span.Apart b.span := by
  have hcovers : ∀ {x y : Node}, y ∈ n.children → x.Within y → y.span.Covers x.span :=
    fun hy hx => (h.of_mem_children hy).covers hx
  have hordered : c.span.stop ≤ d.span.start ∨ d.span.stop ≤ c.span.start := by
    have hpairwise : n.children.Pairwise fun a b => a.span.Apart b.span :=
      (h n (.refl n)).2.imp Or.inl
    have : Std.Symm fun a b : Node => a.span.Apart b.span := ⟨fun _ _ => Span.Apart.symm⟩
    exact hpairwise.forall hc hd hne
  rcases hordered with hcd | hdc
  · exact (hcovers hc ha).apart (hcovers hd hb) hcd
  · exact ((hcovers hd hb).apart (hcovers hc ha) hdc).symm

/-- Two nodes of a well nested tree are apart, or one covers the other. -/
theorem Nested.apart_or_covers {tree a b : Node} (h : tree.Nested) (ha : a.Within tree)
    (hb : b.Within tree) :
    a.span.Apart b.span ∨ a.span.Covers b.span ∨ b.span.Covers a.span := by
  induction ha with
  | refl => exact Or.inr (Or.inl (h.covers hb))
  | @child c n hc ha ih =>
    cases hb with
    | refl => exact Or.inr (Or.inr (h.covers (.child hc ha)))
    | @child d _ hd hb =>
      by_cases hcd : c = d
      · -- both nodes stand in one branch
        subst hcd
        exact ih (h.of_mem_children hc) hb
      · exact Or.inl (h.apart_of_ne hc hd hcd ha hb)

end Node

/-! ### The ranges of findings -/

namespace Suggestion

/-- The range of a suggestion contains that of another one. -/
def Covers (a b : Suggestion) : Prop := a.start ≤ b.start ∧ b.stop ≤ a.stop

/-- The ranges of two suggestions do not overlap. -/
def Apart (a b : Suggestion) : Prop := a.stop ≤ b.start ∨ b.stop ≤ a.start

/-- A suggestion replaces a node of a tree. -/
def Replaces (s : Suggestion) (tree : Node) : Prop :=
  ∃ n : Node, n.Within tree ∧ s.start = n.span.start ∧ s.stop = n.span.stop

/-- Suggestions that replace nodes of a well nested tree do not overlap in part. -/
theorem Replaces.apart_or_covers {tree : Node} {a b : Suggestion} (h : tree.Nested)
    (ha : a.Replaces tree) (hb : b.Replaces tree) : a.Apart b ∨ a.Covers b ∨ b.Covers a := by
  obtain ⟨m, hm, hastart, hastop⟩ := ha
  obtain ⟨n, hn, hbstart, hbstop⟩ := hb
  unfold Apart Covers
  rw [hastart, hastop, hbstart, hbstop]
  simpa only [Span.Apart, Span.Covers, Int.ofNat_le] using h.apart_or_covers hm hn

/-- A suggestion that replaces a node of an aligned tree cuts no character. -/
theorem Replaces.boundary {tree : Node} {text : String} {s : Suggestion} (h : tree.Aligned text)
    (hs : s.Replaces tree) :
    (0 ≤ s.start ∧ Utf8.IsBoundary text s.start.toNat) ∧
      0 ≤ s.stop ∧ Utf8.IsBoundary text s.stop.toNat := by
  obtain ⟨n, hn, hstart, hstop⟩ := hs
  obtain ⟨hstartb, hstopb⟩ := h n hn
  rw [hstart, hstop, Int.toNat_natCast, Int.toNat_natCast]
  exact ⟨⟨Int.natCast_nonneg _, hstartb⟩, Int.natCast_nonneg _, hstopb⟩

/-- What starts inside a range and does not overlap it in part covers it or is covered. -/
theorem covers_of_starts_inside {a s : Suggestion} (h : a.Apart s ∨ a.Covers s ∨ s.Covers a)
    (hstart : a.start ≤ s.start) (hinside : s.start < a.stop) : a.Covers s ∨ s.Covers a := by
  rcases h with h | h
  · -- only an empty range, or one that runs backwards, lies apart from where it starts
    refine Or.inl ⟨hstart, ?_⟩
    unfold Apart at h
    omega
  · exact h

end Suggestion

/-- The range that is offered for a closure is that of a node of its tree. -/
theorem Offer.exists_within {src : Source} {p : Place} {s : Shape} {span : Span} {text : String}
    (h : Offer src p s span text) : ∃ n : Node, n.Within p.root ∧ n.span = span := by
  cases h with
  | bound => exact ⟨p.node, Place.within_rootOf p.node p.above, rfl⟩
  | scheduled _ hsite => exact ⟨_, hsite.within_root.1, rfl⟩

/-- Each hit of a pass over the places of a tree offers to replace one node of the tree. -/
theorem exists_replaces_of_mem_hits {o : Options} {src : Source} {tree : Node} {hit : Hit}
    (h : hit ∈ (checkPlaces o src tree.places).hits) :
    ∃ s : Suggestion, hit.finding.suggestions = [s] ∧ s.Replaces tree := by
  obtain ⟨p, hp, shape, span, text, -, hoffer, -, hsuggestions⟩ := exists_describes_of_mem_hits h
  obtain ⟨n, hn, rfl⟩ := hoffer.exists_within
  rw [Place.root_of_mem_places hp] at hn
  exact ⟨_, hsuggestions, n, hn, rfl, rfl⟩

/-- A pass over an aligned tree comes to its end. -/
theorem stopped_eq_none_of_aligned (o : Options) {tree : Node} {text : String}
    (h : tree.Aligned text) : (checkPlaces o (.ofText text) tree.places).stopped = none := by
  cases hstop : (checkPlaces o (.ofText text) tree.places).stopped with
  | none => rfl
  | some e =>
    obtain ⟨p, hp, e', hcheck, -⟩ := exists_error_of_stopped hstop
    obtain ⟨r, hr⟩ := exists_check o h hp
    rw [hr] at hcheck
    cases hcheck

/-- Findings with one suggestion each offer these suggestions. -/
theorem Splice.map_suggestions_eq {fs : List Finding}
    (h : ∀ f ∈ fs, ∃ s : Suggestion, f.suggestions = [s]) :
    fs.map Finding.suggestions = (offered fs).map ([·]) := by
  induction fs with
  | nil => rfl
  | cons f fs ih =>
    obtain ⟨s, hs⟩ := h f List.mem_cons_self
    have htail := ih fun g hg => h g (List.mem_cons_of_mem f hg)
    rw [offered] at htail ⊢
    rw [List.map_cons, List.filterMap_cons, hs, htail]
    rfl

/-- A pass over an aligned tree without an error offers to replace nodes of the tree, one
with each finding. -/
theorem exists_findings {parse : Parser} {path : Path} {text : String} (o : Options)
    (htree : (parse path text).hasError = false) (halign : (parse path text).Aligned text) :
    ∃ fs, (lint parse o path text).findings = .ok fs ∧
      ∀ f ∈ fs, ∃ s : Suggestion, f.suggestions = [s] ∧ s.Replaces (parse path text) := by
  by_cases hpath : path.isScannable = true
  · rw [lint_eq_checkPlaces o hpath htree]
    refine ⟨_, Pass.findings_eq_ok_iff.2 ⟨stopped_eq_none_of_aligned o halign, rfl⟩, ?_⟩
    intro f hf
    obtain ⟨hit, hhit, rfl⟩ := List.mem_map.1 hf
    exact exists_replaces_of_mem_hits hhit
  · refine ⟨[], ?_, by simp⟩
    rw [lint, if_neg hpath]
    rfl

/-! ### What is skipped -/

namespace Splice

/-- Suggestions between boundaries can be applied: those that the sweep takes are built into
the text, and the others are counted. -/
theorem exists_applied {text : String} {fs : List Finding}
    (h : ∀ s ∈ offered fs, (0 ≤ s.start ∧ Utf8.IsBoundary text s.start.toNat) ∧
      0 ≤ s.stop ∧ Utf8.IsBoundary text s.stop.toNat) :
    let ss := (offered fs).mergeSort before
    ∃ out, applySuggestions text fs = .ok out ∧
      Utf8.encode out.text = rebuilt (Utf8.encode text) 0 (taken 0 ss) ∧
      out.applied = (taken 0 ss).length ∧ out.skipped = (leftOver 0 ss).length := by
  intro ss
  have hperm : ss.Perm (offered fs) := List.mergeSort_perm _ _
  obtain ⟨new, hnew⟩ :=
    exists_encode_rebuilt_of_boundary (Int.le_refl 0) (Utf8.isBoundary_zero text)
      fun s hs => h s (hperm.subset ((taken_sublist 0 ss).subset hs))
  refine ⟨⟨new, (taken 0 ss).length, (leftOver 0 ss).length⟩, ?_, hnew.symm, rfl, rfl⟩
  show (Utf8.decode (sweep (Utf8.encode text) 0 ss).bytes).map _ = _
  rw [sweep_eq, hnew, Utf8.decode_encode]
  rfl

/-- What a sweep over suggestions in order leaves over covers something that it takes, or is
covered by it, if no two of the suggestions overlap in part. -/
theorem covers_of_mem_leftOver {ss : List Suggestion}
    (hsorted : ss.Pairwise fun a b => before a b = true) (hstart : ∀ s ∈ ss, 0 ≤ s.start)
    (hlaminar : ∀ a ∈ ss, ∀ b ∈ ss, a.Apart b ∨ a.Covers b ∨ b.Covers a) :
    ∀ s ∈ leftOver 0 ss, ∃ a ∈ taken 0 ss, a.Covers s ∨ s.Covers a := by
  intro s hs
  have hmem : s ∈ ss :=
    (perm_taken_append_leftOver 0 ss).symm.subset (List.mem_append_right _ hs)
  rcases mem_leftOver (hsorted.imp start_le_of_before) s hs with hlt | ⟨a, ha, hle, hinside⟩
  · -- nothing starts before the text, where the cursor stands at first
    have := hstart s hmem
    omega
  · have hmema : a ∈ ss := (taken_sublist 0 ss).subset ha
    exact ⟨a, ha, Suggestion.covers_of_starts_inside (hlaminar a hmema s hmem) hle hinside⟩

end Splice

/-- **Findings are apart or one covers the other, and what is skipped covers, or is covered
by, something that was applied.**  In a well nested tree that cuts no character no two
findings overlap in part, and applying what they offer gives a text. -/
theorem findings_laminar (parse : Parser) (o : Options) (path : Path) (text : String)
    (htree : (parse path text).hasError = false) (hnested : (parse path text).Nested)
    (halign : (parse path text).Aligned text) :
    ∃ (fs : List Finding) (ss : List Suggestion), (lint parse o path text).findings = .ok fs ∧
      fs.map Finding.suggestions = ss.map ([·]) ∧
      (∀ a ∈ ss, ∀ b ∈ ss, a.Apart b ∨ a.Covers b ∨ b.Covers a) ∧
      ∃ (out : Applied) (chosen passed : List Suggestion),
        applySuggestions text fs = .ok out ∧ ss.Perm (chosen ++ passed) ∧
        out.applied = chosen.length ∧ out.skipped = passed.length ∧
        Utf8.encode out.text = Splice.rebuilt (Utf8.encode text) 0 chosen ∧
        ∀ s ∈ passed, ∃ a ∈ chosen, a.Covers s ∨ s.Covers a := by
  obtain ⟨fs, hfs, hone⟩ := exists_findings o htree halign
  have hreplaces : ∀ s ∈ Splice.offered fs, s.Replaces (parse path text) := by
    intro s hs
    obtain ⟨f, hf, hhead⟩ := List.mem_filterMap.1 hs
    obtain ⟨s', hs', h⟩ := hone f hf
    rw [hs'] at hhead
    cases hhead
    exact h
  have hlaminar : ∀ a ∈ Splice.offered fs, ∀ b ∈ Splice.offered fs,
      a.Apart b ∨ a.Covers b ∨ b.Covers a :=
    fun a ha b hb => (hreplaces a ha).apart_or_covers hnested (hreplaces b hb)
  have hboundary := fun s hs => (hreplaces s hs).boundary halign
  obtain ⟨out, hout, hrebuilt, happlied, hskipped⟩ := Splice.exists_applied hboundary
  have hperm := List.mergeSort_perm (Splice.offered fs) Splice.before
  refine ⟨fs, Splice.offered fs, hfs,
    Splice.map_suggestions_eq fun f hf => (hone f hf).imp fun _ h => h.1, hlaminar,
    out, _, _, hout, ?_, happlied, hskipped, hrebuilt, ?_⟩
  · exact hperm.symm.trans (Splice.perm_taken_append_leftOver 0 _)
  · exact Splice.covers_of_mem_leftOver (Splice.pairwise_sorted _)
      (fun s hs => (hboundary s (hperm.subset hs)).1.1)
      (fun a ha b hb => hlaminar a (hperm.subset ha) b (hperm.subset hb))

/-- A scheduler call with one closure that forwards an argument and another one behind the
delay. -/
def behindDelayText : String := "setTimeout(() => o.m(x), 0, () => a.b())"

/-- The tree of `behindDelayText`. -/
def behindDelayTree : Node :=
  callTree 10 40
    [forwardingTree 11 23 .identifier ⟨17, 18⟩ 19 [.part .identifier 21 22 none []],
      .part ⟨"number"⟩ 25 26 none [],
      forwardingTree 28 39 .identifier ⟨34, 35⟩ 36 []]

/-- Both closures are found; writing the call anew covers the second one, which is skipped. -/
theorem findings_laminar_behindDelay :
    let o : Options := ⟨true, ["setTimeout"], false⟩
    let path : Path := ⟨0, ["a.js"]⟩
    behindDelayTree.hasError = false ∧ behindDelayTree.Nested ∧
      behindDelayTree.Aligned behindDelayText ∧
      ∃ (fs : List Finding) (ss chosen passed : List Suggestion) (out : Applied),
        (lint (fun _ _ => behindDelayTree) o path behindDelayText).findings = .ok fs ∧
        fs.map Finding.suggestions = ss.map ([·]) ∧
        applySuggestions behindDelayText fs = .ok out ∧ ss.Perm (chosen ++ passed) ∧
        passed.length = 1 ∧ ∀ s ∈ passed, ∃ a ∈ chosen, a.Covers s ∨ s.Covers a := by
  intro o path
  let hits := (lint (fun _ _ => behindDelayTree) o path behindDelayText).hits
  have htree : behindDelayTree.hasError = false := by decide
  have hnested : behindDelayTree.Nested := by decide +kernel
  have halign : behindDelayTree.Aligned behindDelayText := by decide +kernel
  have hsorted : (Splice.offered (hits.map Hit.finding)).Pairwise
      fun a b => Splice.before a b = true := by decide +kernel
  have hskipped : (applySuggestions behindDelayText (hits.map Hit.finding)).toOption.map
      Applied.skipped = some 1 := by
    rw [applySuggestions_of_pairwise hsorted]
    decide +kernel
  obtain ⟨fs, ss, hfs, hss, -, out, chosen, passed, hout, hperm, -, hcount, -, hcovers⟩ :=
    findings_laminar (fun _ _ => behindDelayTree) o path behindDelayText htree hnested halign
  have hhits : hits.map Hit.finding = fs := (Pass.findings_eq_ok_iff.1 hfs).2
  rw [hhits, hout] at hskipped
  have hone : out.skipped = 1 := Option.some.inj hskipped
  exact ⟨htree, hnested, halign, fs, ss, chosen, passed, out, hfs, hss, hout, hperm,
    hcount ▸ hone, hcovers⟩

end BindLint
