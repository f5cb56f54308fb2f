import BindLint.Proofs.Alike
import BindLint.Proofs.Reportable

/-!
# Surroundings that are alike

What stands around a closure counts for the rule in three ways: the call that the closure is passed
to, the name of what is called, and, in a timer position, the delay.  Here two closures stand below
ancestors that are alike, so that the trees may differ in spans and comments around the closures,
and in the closures themselves.

The two climbs through the parentheses go in step: at each frame both go on, both stop at a call, or
both give up.  So the closures are passed to the same ancestor, at the same index, or both to none.
What is read there are the name of the callee and the delay, and neither lies in the closure.  Where
texts agree, the placements agree; and closures of the same shape are reported alike, with the same
replacement.

## Main definitions

* `Frame.Alike`, `CallSite.Alike`, `Placement.Alike` — what two surroundings have in common.
* `CallSite.ReadAlike` — call sites at which the same is read.
* `Place.SameAncestor` — the same ancestor of two nodes, one of which stands deeper.
* `SameReadable` — nodes that both can be read, or none can.

## Main results

* `Place.rel_callSite?` — **call sites below frames that are alike are alike.**
* `Placement.sameOutcome_read` — placements are settled by what is read at the call sites.
* `rel_check` — the rule answers alike.
-/

namespace BindLint

/-! ### Call sites that are alike -/

/-- Ancestors that differ in spans and comments only, apart from what stands in the hole. -/
structure Frame.Alike (R : Node → Node → Prop) (f f' : Frame) : Prop where
  /-- They are of one kind. -/
  kind : f'.label.kind = f.label.kind
  /-- Both are named, or none is. -/
  named : f'.label.named = f.label.named
  /-- They hang under the same field. -/
  field : f'.label.field = f.label.field
  /-- What stands before the hole is alike. -/
  before : Commented (Node.Alike R) f.before f'.before
  /-- What stands after the hole is alike. -/
  after : Commented (Node.Alike R) f.after f'.after

/-- Call sites that differ in spans and comments only, apart from the argument picked out. -/
structure CallSite.Alike (R : Node → Node → Prop) (site site' : CallSite) : Prop where
  /-- The same argument is picked out. -/
  index : site'.index = site.index
  /-- There are as many arguments. -/
  length : site'.arguments.length = site.arguments.length
  /-- The names of what is called are spelled by nodes that are alike. -/
  callee : Option.Rel (Node.Alike R) site.call.calleeNode? site'.call.calleeNode?
  /-- The other arguments are alike. -/
  others : ∀ i, i ≠ site.index → Option.Rel (Node.Alike R) site.arguments[i]? site'.arguments[i]?

theorem rel_getElem? {α β : Type} {r : α → β → Prop} {as : List α} {bs : List β}
    (h : List.Forall₂ r as bs) (i : Nat) : Option.Rel r as[i]? bs[i]? := by
  induction h generalizing i with
  | nil => exact .none
  | cons hab _ ih =>
    cases i with
    | zero => exact .some hab
    | succ i => simpa using ih i

/-- Two lists that agree but for one place: elsewhere their elements are in relation. -/
theorem rel_getElem?_of_ne {α : Type} {r : α → α → Prop} {as as' bs bs' : List α} {a a' : α}
    (has : List.Forall₂ r as as') (hbs : List.Forall₂ r bs bs') {i : Nat} (hi : i ≠ as.length) :
    Option.Rel r (as ++ a :: bs)[i]? (as' ++ a' :: bs')[i]? := by
  have hlength := has.length_eq
  rcases Nat.lt_or_gt_of_ne hi with hlt | hgt
  · rw [List.getElem?_append_left hlt, List.getElem?_append_left (hlength ▸ hlt)]
    exact rel_getElem? has i
  · obtain ⟨j, rfl⟩ : ∃ j, i = as.length + (j + 1) := ⟨i - as.length - 1, by omega⟩
    rw [List.getElem?_append_right (by omega), List.getElem?_append_right (by omega), ← hlength,
      Nat.add_sub_cancel_left, List.getElem?_cons_succ, List.getElem?_cons_succ]
    exact rel_getElem? hbs j

theorem Frame.isSignificant_fill (f : Frame) (n : Node) :
    (f.fill n).isSignificant = (f.label.named && f.label.kind ≠ .comment) := rfl

theorem Frame.significantChildren_fill (f : Frame) {n : Node} (hn : n.isSignificant = true) :
    (f.fill n).significantChildren =
      f.before.reverse.filter Node.isSignificant ++ n :: f.after.filter Node.isSignificant := by
  rw [Node.significantChildren, fill, Node.children_mk, List.filter_append,
    List.filter_cons_of_pos hn]

/-- Nodes that are alike, or two argument lists. -/
def Node.AlikeButArguments (R : Node → Node → Prop) (n n' : Node) : Prop :=
  n'.kind = n.kind ∧ (n.kind ≠ .arguments → n.Alike R n')

/-- The name of a callee is not spelled in an argument list. -/
theorem Node.rel_calleeNode? {R : Node → Node → Prop} {n n' : Node}
    (h : Commented (AlikeButArguments R) n.children n'.children) :
    Option.Rel (Node.Alike R) n.calleeNode? n'.calleeNode? := by
  unfold calleeNode? child?
  rcases rel_cases (h.rel_find? .function) with ⟨hx, hy⟩ | ⟨callee, callee', hx, hy, hkind, hcallee⟩
  · rw [hx, hy]
    exact .none
  · simp only [hx, hy, hkind]
    split
    · next hidentifier => exact .some (hcallee (by rw [hidentifier]; decide))
    · split
      · next hmember =>
        refine rel_filter ((hcallee (by rw [hmember]; decide)).child? .property) fun p p' hp => ?_
        rw [hp.kind_eq]
      · exact .none

namespace Frame.Alike

variable {R : Node → Node → Prop} {list list' call call' : Frame} {n n' : Node}

/-- The children of a call around an argument list are alike, but for the list. -/
theorem commented_fill (h : call.Alike R call') (hkind : n'.kind = n.kind)
    (hfield : n'.field = n.field) (hlist : n.kind = .arguments) :
    Commented (Node.AlikeButArguments R) (call.fill n).children (call'.fill n').children := by
  have hmono : ∀ a b : Node, a.Alike R b → a.AlikeButArguments R b :=
    fun a b hab => ⟨hab.kind_eq, fun _ => hab⟩
  refine (h.before.mono hmono).reverse.append (.cons hfield ⟨hkind, ?_⟩ (h.after.mono hmono))
  intro hne
  exact absurd hlist hne

/-- Two argument lists in two calls make call sites that are alike. -/
theorem callSite (hlist : list.Alike R list') (hcall : call.Alike R call')
    (hkind : list.label.kind = .arguments) (hn : n.isSignificant = true)
    (hn' : n'.isSignificant = true) :
    CallSite.Alike R
      ⟨call.fill (list.fill n), (list.fill n).significantChildren,
        (list.before.filter Node.isSignificant).length⟩
      ⟨call'.fill (list'.fill n'), (list'.fill n').significantChildren,
        (list'.before.filter Node.isSignificant).length⟩ := by
  have hsig : ∀ a b : Node, a.Alike R b → b.isSignificant = a.isSignificant :=
    fun _ _ hab => hab.isSignificant_eq
  have hbefore := hlist.before.reverse.forall₂_filter hsig
  have hafter := hlist.after.forall₂_filter hsig
  constructor
  · exact (hlist.before.forall₂_filter hsig).length_eq.symm
  · rw [list.significantChildren_fill hn, list'.significantChildren_fill hn', List.length_append,
      List.length_append, List.length_cons, List.length_cons, hbefore.length_eq, hafter.length_eq]
  · exact Node.rel_calleeNode? (hcall.commented_fill hlist.kind hlist.field hkind)
  · intro i hi
    have hlength : (list.before.reverse.filter Node.isSignificant).length =
        (list.before.filter Node.isSignificant).length := by
      rw [List.filter_reverse, List.length_reverse]
    dsimp only
    rw [list.significantChildren_fill hn, list'.significantChildren_fill hn']
    exact rel_getElem?_of_ne hbefore hafter (hlength ▸ hi)

end Frame.Alike

namespace Place

/-- The same ancestor of two nodes, where the second one stands in some further layers. -/
def SameAncestor (layers : Nat) (p p' : Place) (a a' : Node) : Prop :=
  ∃ i < p.above.length, a = rootOf p.node (p.above.take (i + 1)) ∧
    a' = rootOf p'.node (p'.above.take (layers + (i + 1)))

theorem callSite?_of_parenthesized {n : Node} {f : Frame} {fs : List Frame}
    (h : f.label.kind = .parenthesized) :
    callSite? ⟨n, f :: fs⟩ = callSite? ⟨f.fill n, fs⟩ := by
  rw [callSite?, callSite?, outOfParens, if_pos h]

/-- **Call sites below frames that are alike** are alike, whatever stands in the hole: of that it
matters only whether it is significant. -/
theorem rel_callSite? {R : Node → Node → Prop} {fs fs' : List Frame} {n n' : Node}
    (h : List.Forall₂ (Frame.Alike R) fs fs') (hn : n'.isSignificant = n.isSignificant) :
    Option.Rel
      (fun site site' => site.Alike R site' ∧
        SameAncestor 0 ⟨n, fs⟩ ⟨n', fs'⟩ site.call site'.call)
      (callSite? ⟨n, fs⟩) (callSite? ⟨n', fs'⟩) := by
  induction h generalizing n n' with
  | nil => exact .none
  | @cons f f' fs fs' hf hfs ih =>
    by_cases hparen : f.label.kind = .parenthesized
    · -- one step up, to the parentheses with what they hold
      rw [callSite?_of_parenthesized hparen, callSite?_of_parenthesized (hf.kind.trans hparen)]
      have hfill : (f'.fill n').isSignificant = (f.fill n).isSignificant := by
        rw [Frame.isSignificant_fill, Frame.isSignificant_fill, hf.kind, hf.named]
      refine rel_mono (ih hfill) ?_
      rintro site site' ⟨halike, i, hi, hcall, hcall'⟩
      refine ⟨halike, i + 1, Nat.succ_lt_succ hi, hcall, ?_⟩
      rw [hcall', Nat.zero_add, Nat.zero_add]
      rfl
    · have hparen' : f'.label.kind ≠ .parenthesized := by rwa [hf.kind]
      rw [callSite?, callSite?, outOfParens_cons hparen, outOfParens_cons hparen']
      cases hfs with
      | nil => exact .none
      | @cons g g' fs fs' hg _ =>
        unfold CallSite.of?
        dsimp only
        rw [hf.kind, hg.kind, hn]
        split
        · next hkinds =>
          simp only [Bool.and_eq_true, decide_eq_true_eq] at hkinds
          obtain ⟨⟨hlist, -⟩, hsig⟩ := hkinds
          have hlt : 1 < (f :: g :: fs).length := by simp
          exact .some ⟨hf.callSite hg hlist hsig (hn.trans hsig), 1, hlt, rfl, rfl⟩
        · exact .none

end Place

/-! ### Placements that are alike -/

/-- Timer positions of the same scheduler with the same delay, in calls that are in a relation. -/
structure Timer.Alike (S : Node → Node → Prop) (t t' : Timer) : Prop where
  /-- The schedulers have the same name. -/
  scheduler : t'.scheduler = t.scheduler
  /-- The delays are spelled alike. -/
  delay : t'.delay = t.delay
  /-- The calls are in relation. -/
  call : S t.call t'.call

/-- Placements in calls of the same name, with timer positions that are alike. -/
structure Placement.Alike (S : Node → Node → Prop) (pl pl' : Placement) : Prop where
  /-- What is called has the same name. -/
  callee : pl'.callee = pl.callee
  /-- Both are timer positions, or none is. -/
  timer : Option.Rel (Timer.Alike S) pl.timer pl'.timer

section Placements

variable {R S : Node → Node → Prop} {src src' : Source}

theorem readOptional_eq {n? n'? : Option Node} (h : Option.Rel (SameText src src') n? n'?) :
    readOptional src' n'? = readOptional src n? := by
  cases h with
  | none => rfl
  | some hn => exact congrArg (Except.map some) hn

theorem CallSite.Alike.calleeName_eq {site site' : CallSite} (h : site.Alike R site')
    (hR : ∀ n n', R n n' → SameText src src' n n') :
    site'.call.calleeName src' = site.call.calleeName src :=
  readOptional_eq (rel_mono h.callee fun _ _ hn => hR _ _ hn.rel)

/-- The same is read at two call sites: the name of what is called and, at the first argument, the
delay. -/
structure CallSite.ReadAlike (src src' : Source) (site site' : CallSite) : Prop where
  /-- The same argument is picked out. -/
  index : site'.index = site.index
  /-- What is called has the same name. -/
  callee : site'.call.calleeName src' = site.call.calleeName src
  /-- The second arguments have the same text. -/
  delay : site.index = 0 →
    readOptional src' site'.arguments[1]? = readOptional src site.arguments[1]?

theorem CallSite.Alike.readAlike {site site' : CallSite} (h : site.Alike R site')
    (hR : ∀ n n', R n n' → SameText src src' n n') : site.ReadAlike src src' site' := by
  refine ⟨h.index, h.calleeName_eq hR, ?_⟩
  intro hindex
  -- the delay is not the argument picked out
  exact readOptional_eq (rel_mono (h.others 1 (by omega)) fun _ _ hn => hR _ _ hn.rel)

theorem CallSite.ReadAlike.timer? {site site' : CallSite} (h : site.ReadAlike src src' site')
    (hcall : S site.call site'.call) (callee : Option String) :
    SameOutcome (Option.Rel (Timer.Alike S)) (site.timer? src callee)
      (site'.timer? src' callee) := by
  by_cases hsched : ∃ name, callee = some name ∧ site.index = 0 ∧
      (name = "setTimeout" ∨ name = "setInterval")
  · obtain ⟨name, rfl, hindex, hnames⟩ := hsched
    rw [timer?_of_scheduler hindex hnames, timer?_of_scheduler (h.index.trans hindex) hnames,
      h.delay hindex]
    cases readOptional src site.arguments[1]? with
    | error e => exact .error e
    | ok delay => exact .ok (.some ⟨rfl, rfl, hcall⟩)
  · have hnot : ∀ name, callee = some name → site.index = 0 →
        ¬(name = "setTimeout" ∨ name = "setInterval") :=
      fun name hname hindex hnames => hsched ⟨name, hname, hindex, hnames⟩
    rw [timer?_of_not_scheduler hnot, timer?_of_not_scheduler (by rwa [h.index])]
    exact .ok .none

/-- Placements at call sites at which the same is read are alike, or fail to be read alike. -/
theorem Placement.sameOutcome_read {p p' : Place}
    (h : Option.Rel (fun site site' => site.ReadAlike src src' site' ∧ S site.call site'.call)
      p.callSite? p'.callSite?) :
    SameOutcome (Placement.Alike S) (read src p) (read src' p') := by
  unfold read
  rcases rel_cases h with ⟨hx, hy⟩ | ⟨site, site', hx, hy, hread, hcall⟩
  · rw [hx, hy]
    exact .ok ⟨rfl, .none⟩
  · simp only [hx, hy]
    refine (SameOutcome.of_eq hread.callee).bind ?_
    intro callee callee' hcallee
    subst hcallee
    exact (hread.timer? hcall callee).bind fun timer timer' htimer => .ok ⟨rfl, htimer⟩

/-- Placements at call sites that are alike are alike. -/
theorem Placement.rel_read {p p' : Place} (hR : ∀ n n', R n n' → SameText src src' n n')
    (h : Option.Rel (fun site site' => site.Alike R site' ∧ S site.call site'.call) p.callSite?
      p'.callSite?) :
    Option.Rel (Placement.Alike S) (read src p).toOption (read src' p').toOption := by
  refine (sameOutcome_read (rel_mono h ?_)).rel_toOption
  intro site site' hsite
  exact ⟨hsite.1.readAlike hR, hsite.2⟩

theorem Options.reports_eq (o : Options) (s : Shape) {pl pl' : Placement} (h : pl.Alike S pl') :
    o.reports s pl' = o.reports s pl := by
  have htimer : pl'.timer.isSome = pl.timer.isSome := by
    rcases rel_cases h.timer with ⟨hx, hy⟩ | ⟨t, t', hx, hy, -⟩
    · rw [hx, hy]
    · rw [hx, hy, Option.isSome_some, Option.isSome_some]
  rw [reports, reports, h.callee, htimer, ← Option.not_isSome, ← Option.not_isSome, htimer]

/-! ### Hits that are alike -/

/-- Nodes that both can be read, or none can. -/
def SameReadable (src src' : Source) (n n' : Node) : Prop :=
  (∃ t, n.text src = .ok t) ↔ ∃ t, n'.text src' = .ok t

theorem SameText.sameReadable {n n' : Node} (h : SameText src src' n n') :
    SameReadable src src' n n' := by
  rw [SameReadable, h]

theorem SameReadable.rel {n n' : Node} (h : SameReadable src src' n n') :
    Option.Rel (fun _ _ => True) (n.text src).toOption (n'.text src').toOption := by
  unfold SameReadable at h
  cases hn : n.text src with
  | error e =>
    cases hn' : n'.text src' with
    | error e' => exact .none
    | ok t' => simp [hn, hn'] at h
  | ok t =>
    cases hn' : n'.text src' with
    | error e' => simp [hn, hn'] at h
    | ok t' => exact .some trivial

theorem Hit.toOption_make (n : Node) (s : Shape) (timer : Option Timer) :
    (Hit.make src n s timer).toOption =
      (s.edit n timer).toOption.bind fun edit => (edit.target.text src).toOption.map fun replaced =>
        ⟨src.point n.span.start, s.form, .ofReplacement ⟨edit.text, replaced, edit.target.span,
          src.point edit.target.span.start, src.point edit.target.span.stop⟩⟩ := by
  unfold make Edit.read
  cases s.edit n timer with
  | error e => rfl
  | ok edit =>
    cases htext : edit.target.text src with
    | error e => simp [htext, orUndecodable, bind, Except.bind, Except.toOption]
    | ok replaced =>
      simp [htext, orUndecodable, bind, Except.bind, Except.toOption, pure, Except.pure]

/-- The edits of one shape write the same text, to nodes that both can be read or none can. -/
theorem Shape.rel_edit (s : Shape) {n n' : Node} {timer timer' : Option Timer}
    (hn : SameReadable src src' n n')
    (htimer : Option.Rel (Timer.Alike (SameReadable src src')) timer timer') :
    Option.Rel (fun e e' => e'.text = e.text ∧ SameReadable src src' e.target e'.target)
      (s.edit n timer).toOption (s.edit n' timer').toOption := by
  unfold edit
  split
  · cases htimer with
    | none => exact .none
    | some ht => exact .some ⟨by rw [ht.scheduler, ht.delay], ht.call⟩
  · exact .some ⟨rfl, hn⟩

/-- Hits that suggest the same replacement. -/
def Hit.SameReplacement (hit hit' : Hit) : Prop :=
  hit'.finding.replacement = hit.finding.replacement

theorem Hit.rel_make (s : Shape) {n n' : Node} {timer timer' : Option Timer}
    (hn : SameReadable src src' n n')
    (htimer : Option.Rel (Timer.Alike (SameReadable src src')) timer timer') :
    Option.Rel SameReplacement (Hit.make src n s timer).toOption
      (Hit.make src' n' s timer').toOption := by
  rw [toOption_make, toOption_make]
  refine rel_bind (s.rel_edit hn htimer) ?_
  rintro edit edit' ⟨htext, htarget⟩
  exact rel_map htarget.rel fun _ _ _ => htext

theorem toOption_check (o : Options) (p : Place) :
    (check o src p).toOption =
      (matchClosure src o.includeAsync p.node).toOption.bind fun shape =>
        match shape with
        | none => some none
        | some s =>
            (Placement.read src p).toOption.bind fun pl =>
              if o.reports s pl then (Hit.make src p.node s pl.timer).toOption.map some
              else some none := by
  rw [check_eq]
  cases matchClosure src o.includeAsync p.node with
  | error e => rfl
  | ok shape =>
    cases shape with
    | none => rfl
    | some s =>
      cases Placement.read src p with
      | error e => rfl
      | ok pl =>
        change (if o.reports s pl then (Hit.make src p.node s pl.timer).map some
            else .ok none).toOption =
          if o.reports s pl then (Hit.make src p.node s pl.timer).toOption.map some else some none
        split
        · cases Hit.make src p.node s pl.timer <;> rfl
        · rfl

/-- The rule answers alike on closures of the same shape in placements that are alike. -/
theorem rel_check (o : Options) {p p' : Place}
    (hmatch : matchClosure src' o.includeAsync p'.node = matchClosure src o.includeAsync p.node)
    (hread : Option.Rel (Placement.Alike (SameReadable src src')) (Placement.read src p).toOption
      (Placement.read src' p').toOption)
    (hn : SameReadable src src' p.node p'.node) :
    Option.Rel (Option.Rel Hit.SameReplacement) (check o src p).toOption
      (check o src' p').toOption := by
  rw [toOption_check, toOption_check, hmatch]
  refine rel_bind (rel_eq _) ?_
  rintro shape _ rfl
  cases shape with
  | none => exact .some .none
  | some s =>
    refine rel_bind hread fun pl pl' hpl => ?_
    rw [o.reports_eq s hpl]
    split
    · exact rel_map (Hit.rel_make s hn hpl.timer) fun _ _ h => .some h
    · exact .some .none

/-- What is reported on one side is reported on the other. -/
theorem Hit.exists_of_rel {x y : Except CheckError (Option Hit)} {hit : Hit}
    (h : Option.Rel (Option.Rel SameReplacement) x.toOption y.toOption) (hx : x = .ok (some hit)) :
    ∃ hit', y = .ok (some hit') ∧ hit.SameReplacement hit' := by
  rw [hx] at h
  rcases rel_cases h with ⟨hnone, -⟩ | ⟨_, answer, hsome, hy, hrel⟩
  · cases hnone
  · cases hsome
    cases hrel with
    | some hsame => exact ⟨_, toOption_eq_some_iff.1 hy, hsame⟩

end Placements

end BindLint
