import BindLint.Options
import BindLint.Proofs.Steps
import BindLint.Proofs.Within

/-!
# Being passed to a call

A node is passed to a call when, with the parentheses around it, it is one of the
significant arguments of the call.  `Place.IsArgument` says so of the frames above a
place: first some parentheses, then the argument list, then the call.  The climb
through the parentheses finds exactly this.

A node that is the first argument of a call of one of the schedulers is in a *timer
position*; everything about a placement is determined by the argument relation and by
the names that are read.

## Main definitions

* `Place.IsArgument` — the call site that a node is passed at.
* `Place.PassedToOneOf` — a node is passed to a call of one of some names.
* `Place.InTimer` — a node is the callback of a scheduler.

## Main results

* `Place.callSite?_eq_some_iff` — the climb finds the call site, if there is one.
* `Placement.read_cases` — what a placement holds.
* `Placement.exists_read` — placements in an aligned tree can be read.
-/

namespace BindLint
namespace Place

/-! ### Call sites -/

/-- The node at a place, with the parentheses around it, is an argument of a call; as
many significant arguments stand before it as the index says. -/
inductive IsArgument (p : Place) : CallSite → Prop where
  /-- Above the node stand parentheses, the argument list and the call. -/
  | intro (parens : List Frame) (list call : Frame) (rest : List Frame)
      (above : p.above = parens ++ list :: call :: rest)
      (inParens : ∀ f ∈ parens, f.label.kind = .parenthesized)
      (inList : list.label.kind = .arguments)
      (inCall : call.label.kind = .call)
      (significant : (rootOf p.node parens).isSignificant = true) :
      IsArgument p
        { call := call.fill (list.fill (rootOf p.node parens))
          arguments := (list.fill (rootOf p.node parens)).significantChildren
          index := (list.before.filter Node.isSignificant).length }

/-- The climb goes through all parentheses. -/
theorem outOfParens_append {n : Node} {parens fs : List Frame}
    (h : ∀ f ∈ parens, f.label.kind = .parenthesized) :
    outOfParens n (parens ++ fs) = outOfParens (rootOf n parens) fs := by
  induction parens generalizing n with
  | nil => rfl
  | cons f parens ih =>
    rw [List.cons_append, outOfParens, if_pos (h f List.mem_cons_self),
      ih fun g hg => h g (List.mem_cons_of_mem f hg)]
    rfl

/-- The climb stops at what is no parenthesis. -/
theorem outOfParens_cons {n : Node} {f : Frame} {fs : List Frame}
    (h : f.label.kind ≠ .parenthesized) : outOfParens n (f :: fs) = ⟨n, f :: fs⟩ := by
  rw [outOfParens, if_neg h]

/-- The climb goes through some parentheses and no further. -/
theorem exists_parens (n : Node) (fs : List Frame) :
    ∃ parens rest, fs = parens ++ rest ∧ (∀ f ∈ parens, f.label.kind = .parenthesized) ∧
      outOfParens n fs = ⟨rootOf n parens, rest⟩ := by
  induction fs generalizing n with
  | nil => exact ⟨[], [], rfl, by simp, rfl⟩
  | cons f fs ih =>
    by_cases hf : f.label.kind = .parenthesized
    · obtain ⟨parens, rest, rfl, hparens, hout⟩ := ih (f.fill n)
      refine ⟨f :: parens, rest, rfl, ?_, ?_⟩
      · intro g hg
        rcases List.mem_cons.1 hg with rfl | hg
        · exact hf
        · exact hparens g hg
      · rw [outOfParens, if_pos hf, hout]
        rfl
    · exact ⟨[], f :: fs, rfl, by simp, outOfParens_cons hf⟩

/-- The climb finds the call site of a node, if it is passed to a call. -/
theorem callSite?_eq_some_iff {p : Place} {site : CallSite} :
    p.callSite? = some site ↔ p.IsArgument site := by
  constructor
  · intro h
    obtain ⟨parens, rest, habove, hparens, hout⟩ := exists_parens p.node p.above
    rw [callSite?, hout] at h
    unfold CallSite.of? at h
    split at h
    · next list call frames hrest =>
      split at h
      · next hkinds =>
        cases h
        simp only [Bool.and_eq_true, decide_eq_true_eq] at hkinds
        obtain ⟨⟨hlist, hcall⟩, hsig⟩ := hkinds
        exact .intro parens list call frames (habove.trans (congrArg _ hrest)) hparens hlist hcall
          hsig
      · cases h
    · cases h
  · rintro ⟨parens, list, call, rest, habove, hparens, hlist, hcall, hsig⟩
    have hne : list.label.kind ≠ .parenthesized := by
      rw [hlist]
      decide
    rw [callSite?, habove, outOfParens_append hparens, outOfParens_cons hne]
    simp [CallSite.of?, hlist, hcall, hsig]

/-- A node is passed at one call site at most. -/
theorem IsArgument.unique {p : Place} {a b : CallSite} (ha : p.IsArgument a)
    (hb : p.IsArgument b) : a = b :=
  Option.some.inj ((callSite?_eq_some_iff.2 ha).symm.trans (callSite?_eq_some_iff.2 hb))

/-- The call that a node is passed to lies within its tree, and so do the arguments. -/
theorem IsArgument.within_root {p : Place} {site : CallSite} (h : p.IsArgument site) :
    site.call.Within p.root ∧ ∀ a ∈ site.arguments, a.Within p.root := by
  obtain ⟨parens, list, call, rest, habove, -, -, -, -⟩ := h
  have hroot : p.root = rootOf (call.fill (list.fill (rootOf p.node parens))) rest := by
    rw [root, habove, rootOf_append]
    rfl
  have hcall : (call.fill (list.fill (rootOf p.node parens))).Within p.root := by
    rw [hroot]
    exact within_rootOf _ rest
  refine ⟨hcall, fun a ha => ?_⟩
  exact ((Node.within_of_mem_significantChildren ha).trans (within_fill call _)).trans hcall

/-! ### Names and timer positions -/

/-- The node at a place is an argument of a call of one of some names. -/
def PassedToOneOf (src : Source) (names : List String) (p : Place) : Prop :=
  ∃ site name, p.IsArgument site ∧ site.call.calleeName src = .ok (some name) ∧ name ∈ names

/-- The node at a place is the first argument of a call of a scheduler. -/
def InTimer (src : Source) (p : Place) : Prop :=
  ∃ site name, p.IsArgument site ∧ site.index = 0 ∧
    site.call.calleeName src = .ok (some name) ∧ (name = "setTimeout" ∨ name = "setInterval")

end Place

theorem mem_schedulers {name : String} :
    schedulers.contains name = true ↔ name = "setTimeout" ∨ name = "setInterval" := by
  rw [List.contains_iff_mem, schedulers, List.mem_cons, List.mem_singleton]
  exact or_comm

namespace CallSite

/-- The timer position that is read at the first argument of a call of a scheduler. -/
theorem timer?_of_scheduler {src : Source} {site : CallSite} {name : String}
    (hindex : site.index = 0) (hname : name = "setTimeout" ∨ name = "setInterval") :
    site.timer? src (some name) =
      (readOptional src site.arguments[1]?).map fun delay => some ⟨name, delay, site.call⟩ := by
  simp only [timer?, hindex, mem_schedulers.2 hname, decide_true, Bool.and_self, if_true]
  cases readOptional src site.arguments[1]? <;> rfl

/-- Elsewhere no timer position is read. -/
theorem timer?_of_not_scheduler {src : Source} {site : CallSite} {callee : Option String}
    (h : ∀ name, callee = some name → site.index = 0 →
      ¬(name = "setTimeout" ∨ name = "setInterval")) :
    site.timer? src callee = .ok none := by
  cases callee with
  | none => rfl
  | some name =>
    have hnot : ¬(decide (site.index = 0) && schedulers.contains name) = true := by
      rw [Bool.and_eq_true, decide_eq_true_eq, mem_schedulers]
      rintro ⟨hindex, hname⟩
      exact h name rfl hindex hname
    rw [timer?, if_neg hnot]

end CallSite

/-! ### Placements -/

namespace Placement

/-- What the placement of a node holds: nothing if it is passed to no call, and else
the call site with the name and the timer position read there. -/
theorem read_cases {src : Source} {p : Place} {pl : Placement} (h : read src p = .ok pl) :
    (pl = {} ∧ ∀ site, ¬p.IsArgument site) ∨
      ∃ site, p.IsArgument site ∧ pl.site = some site ∧
        site.call.calleeName src = .ok pl.callee ∧ site.timer? src pl.callee = .ok pl.timer := by
  unfold read at h
  split at h
  · next hnone =>
    cases h
    refine Or.inl ⟨rfl, fun site hsite => ?_⟩
    rw [Place.callSite?_eq_some_iff.2 hsite] at hnone
    cases hnone
  · next site hsome =>
    obtain ⟨callee, hname, h⟩ := exists_of_bind_ok h
    obtain ⟨timer, htimer, h⟩ := exists_of_bind_ok h
    cases h
    exact Or.inr ⟨site, Place.callSite?_eq_some_iff.1 hsome, rfl, hname, htimer⟩

/-- The timer position of a placement is that of the callback of a scheduler. -/
theorem eq_some_timer {src : Source} {p : Place} {pl : Placement} {t : Timer}
    (h : read src p = .ok pl) (ht : pl.timer = some t) :
    ∃ site delay, p.IsArgument site ∧ site.index = 0 ∧
      site.call.calleeName src = .ok (some t.scheduler) ∧
      (t.scheduler = "setTimeout" ∨ t.scheduler = "setInterval") ∧
      readOptional src site.arguments[1]? = .ok delay ∧ t = ⟨t.scheduler, delay, site.call⟩ := by
  rcases read_cases h with ⟨rfl, -⟩ | ⟨site, hsite, -, hname, htimer⟩
  · cases ht
  · by_cases hsched : ∃ name, pl.callee = some name ∧ site.index = 0 ∧
        (name = "setTimeout" ∨ name = "setInterval")
    · obtain ⟨name, hcallee, hindex, hnames⟩ := hsched
      rw [hcallee, CallSite.timer?_of_scheduler hindex hnames, ht] at htimer
      obtain ⟨delay, hdelay, heq⟩ := exists_of_map_ok htimer
      cases heq
      exact ⟨site, delay, hsite, hindex, by rw [hname, hcallee], hnames, hdelay, rfl⟩
    · have hnone : site.timer? src pl.callee = .ok none :=
        CallSite.timer?_of_not_scheduler fun name hcallee hindex hnames =>
          hsched ⟨name, hcallee, hindex, hnames⟩
      rw [hnone, ht] at htimer
      cases htimer

/-- A placement has a timer position exactly if the node is the callback of a
scheduler. -/
theorem isSome_timer_iff {src : Source} {p : Place} {pl : Placement} (h : read src p = .ok pl) :
    pl.timer.isSome = true ↔ p.InTimer src := by
  constructor
  · intro hsome
    obtain ⟨t, ht⟩ := Option.isSome_iff_exists.1 hsome
    obtain ⟨site, -, hsite, hindex, hname, hnames, -, -⟩ := eq_some_timer h ht
    exact ⟨site, t.scheduler, hsite, hindex, hname, hnames⟩
  · rintro ⟨site, name, hsite, hindex, hname, hnames⟩
    rcases read_cases h with ⟨-, hno⟩ | ⟨site', hsite', -, hname', htimer⟩
    · exact absurd hsite (hno site)
    · obtain rfl := hsite.unique hsite'
      rw [hname] at hname'
      rw [← Except.ok.inj hname', CallSite.timer?_of_scheduler hindex hnames] at htimer
      obtain ⟨delay, -, heq⟩ := exists_of_map_ok htimer
      rw [← heq]
      rfl

/-- A placement is long-lived exactly if the node is passed to a call of one of the
names. -/
theorem isLongLived_iff {src : Source} {p : Place} {pl : Placement} (o : Options)
    (h : read src p = .ok pl) :
    o.isLongLived pl.callee = true ↔ p.PassedToOneOf src o.contexts := by
  have hmem : o.isLongLived pl.callee = true ↔
      ∃ name, pl.callee = some name ∧ name ∈ o.contexts := by
    cases pl.callee <;> simp [Options.isLongLived]
  rw [hmem]
  constructor
  · rintro ⟨name, hcallee, hin⟩
    rcases read_cases h with ⟨rfl, -⟩ | ⟨site, hsite, -, hname, -⟩
    · cases hcallee
    · exact ⟨site, name, hsite, by rw [hname, hcallee], hin⟩
  · rintro ⟨site, name, hsite, hname, hin⟩
    rcases read_cases h with ⟨-, hno⟩ | ⟨site', hsite', -, hname', -⟩
    · exact absurd hsite (hno site)
    · obtain rfl := hsite.unique hsite'
      rw [hname] at hname'
      exact ⟨name, (Except.ok.inj hname').symm, hin⟩

end Placement

theorem exists_readOptional {src : Source} {n? : Option Node}
    (h : ∀ n, n? = some n → ∃ t, n.text src = .ok t) : ∃ r, readOptional src n? = .ok r := by
  cases n? with
  | none => exact ⟨none, rfl⟩
  | some n =>
    obtain ⟨t, ht⟩ := h n rfl
    exact ⟨some t, by rw [readOptional, ht]; rfl⟩

theorem Node.within_of_calleeNode? {call n : Node} (h : call.calleeNode? = some n) :
    n.Within call := by
  unfold calleeNode? at h
  split at h
  · cases h
  · next callee hcallee =>
    have hin : callee.Within call := within_of_child? hcallee
    split at h
    · cases h
      exact hin
    · split at h
      · exact (within_of_child? (Option.filter_eq_some_iff.1 h).1).trans hin
      · cases h

/-- Placements in an aligned tree can be read. -/
theorem Placement.exists_read {tree : Node} {text : String} {p : Place}
    (halign : tree.Aligned text) (hp : p ∈ tree.places) :
    ∃ pl, read (.ofText text) p = .ok pl := by
  unfold read
  split
  · exact ⟨{}, rfl⟩
  · next site hsite =>
    obtain ⟨hcall, hargs⟩ := (Place.callSite?_eq_some_iff.1 hsite).within_root
    rw [Place.root_of_mem_places hp] at hcall hargs
    obtain ⟨callee, hcallee⟩ : ∃ callee, site.call.calleeName (.ofText text) = .ok callee :=
      exists_readOptional fun n hn =>
        halign.exists_text ((Node.within_of_calleeNode? hn).trans hcall)
    obtain ⟨delay, hdelay⟩ : ∃ delay, readOptional (.ofText text) site.arguments[1]? = .ok delay :=
      exists_readOptional fun n hn => halign.exists_text (hargs n (List.mem_of_getElem? hn))
    have htimer : ∃ timer, site.timer? (.ofText text) callee = .ok timer := by
      unfold CallSite.timer?
      split
      · exact ⟨none, rfl⟩
      · split
        · exact ⟨_, by rw [hdelay]; rfl⟩
        · exact ⟨none, rfl⟩
    obtain ⟨timer, htimer⟩ := htimer
    rw [bind_of_ok hcallee, bind_of_ok htimer]
    exact ⟨_, rfl⟩

end BindLint
