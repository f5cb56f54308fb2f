import BindLint.Lint
import BindLint.Proofs.Passed
import Mathlib.Data.List.Forall2

/-!
# Which closures are reported

A pass hands every closure of a tree to the rule and keeps what it reports.  Here the
two are said apart from the program: when a closure is to be reported (`Reportable`), and
which range is replaced by which text (`Offer`).  A pass over an aligned tree without
an error reports exactly these closures, each once, in the order of the tree.

Forwarded arguments and the timer position meet twice: the rule reports a closure with
arguments only in a timer position, and the replacement of one outside a timer position
fails.  The first makes sure that the second never happens.

## Main definitions

* `Reportable` — a closure is to be reported with a shape.
* `Offer` — the range that is replaced for it, and the text that replaces it.
* `Describes` — a finding says this about a place.

## Main results

* `check_ok` — what the rule answers, by what it has read.
* `check_ne_irreplaceable` — a reported closure can always be replaced.
* `findings_lint` — **a pass reports exactly the closures that are to be reported.**
-/

namespace BindLint

/-! ### What is to be reported -/

/-- A closure is to be reported, and forwards to a call of this shape. -/
structure Reportable (o : Options) (src : Source) (p : Place) (s : Shape) : Prop where
  /-- The grammar names it. -/
  named : p.node.named = true
  /-- It is a closure. -/
  kind : p.node.kind = .arrowFunction ∨ p.node.kind = .functionExpression
  /-- It forwards to a method call. -/
  forwards : matchClosure src o.includeAsync p.node = .ok (some s)
  /-- Arguments are forwarded only where a scheduler can hand them on. -/
  carried : s.arguments = [] ∨ p.InTimer src
  /-- Where it stands counts. -/
  admitted : o.onlyLongLived = false ∨ p.PassedToOneOf src o.contexts ∨ p.InTimer src

/-- The text of the delay of a scheduler call: that of the second argument, or nought. -/
def CallSite.DelayText (src : Source) (site : CallSite) (delay : String) : Prop :=
  match site.arguments[1]? with
  | none => delay = "0"
  | some n => n.text src = .ok delay

/-- The range that is replaced for a closure, and the text that replaces it. -/
inductive Offer (src : Source) (p : Place) (s : Shape) : Span → String → Prop where
  /-- Without arguments the closure becomes a bound method. -/
  | bound (hargs : s.arguments = []) :
      Offer src p s p.node.span (s.receiver ++ "." ++ s.method ++ ".bind(" ++ s.receiver ++ ")")
  /-- With arguments the scheduler call is written anew. -/
  | scheduled {site : CallSite} {name delay : String} (hargs : s.arguments ≠ [])
      (hsite : p.IsArgument site) (hfirst : site.index = 0)
      (hname : site.call.calleeName src = .ok (some name))
      (hscheduler : name = "setTimeout" ∨ name = "setInterval")
      (hdelay : site.DelayText src delay) :
      Offer src p s site.call.span
        (name ++ "(" ++
          String.intercalate ", "
            ((s.receiver ++ "." ++ s.method ++ ".bind(" ++ s.receiver ++ ")") :: delay ::
              s.arguments) ++ ")")

/-- A finding reports the closure at a place and offers to replace it. -/
def Describes (o : Options) (src : Source) (p : Place) (f : Finding) : Prop :=
  ∃ s span text, Reportable o src p s ∧ Offer src p s span text ∧ f.replacement = text ∧
    f.suggestions = [⟨span.start, span.stop, text⟩]

/-! ### The rule -/

theorem Options.reports_iff {o : Options} {src : Source} {p : Place} {s : Shape} {pl : Placement}
    (h : Placement.read src p = .ok pl) :
    o.reports s pl = true ↔
      (s.arguments = [] ∨ p.InTimer src) ∧
        (o.onlyLongLived = false ∨ p.PassedToOneOf src o.contexts ∨ p.InTimer src) := by
  rw [← Placement.isSome_timer_iff h, ← Placement.isLongLived_iff o h]
  simp only [Options.reports, Options.admits, Shape.hasArguments, Bool.and_eq_true,
    Bool.or_eq_true, Bool.not_eq_true', Bool.and_eq_false_iff, Bool.not_eq_false',
    List.isEmpty_iff, Option.isNone_eq_false_iff, or_assoc]

/-- The steps of the rule, written out. -/
theorem check_eq (o : Options) (src : Source) (p : Place) :
    check o src p =
      match matchClosure src o.includeAsync p.node with
      | .error e => .error (.undecodable e)
      | .ok none => .ok none
      | .ok (some s) =>
          match Placement.read src p with
          | .error e => .error (.undecodable e)
          | .ok pl =>
              if o.reports s pl then (Hit.make src p.node s pl.timer).map some else .ok none := by
  unfold check
  cases matchClosure src o.includeAsync p.node with
  | error e => rfl
  | ok shape =>
    cases shape with
    | none => rfl
    | some s =>
      cases Placement.read src p with
      | error e => rfl
      | ok pl =>
        simp only [orUndecodable, bind, Except.bind]
        split
        · cases Hit.make src p.node s pl.timer <;> rfl
        · rfl

/-- What the rule answers, by what it has read. -/
theorem check_ok {o : Options} {src : Source} {p : Place} {r : Option Hit}
    (h : check o src p = .ok r) :
    (matchClosure src o.includeAsync p.node = .ok none ∧ r = none) ∨
      ∃ s pl, matchClosure src o.includeAsync p.node = .ok (some s) ∧
        Placement.read src p = .ok pl ∧
        ((o.reports s pl = false ∧ r = none) ∨
          o.reports s pl = true ∧
            ∃ hit, Hit.make src p.node s pl.timer = .ok hit ∧ r = some hit) := by
  rw [check_eq] at h
  split at h
  · cases h
  · next hmatch =>
    cases h
    exact Or.inl ⟨hmatch, rfl⟩
  · next s hmatch =>
    split at h
    · cases h
    · next pl hread =>
      refine Or.inr ⟨s, pl, hmatch, hread, ?_⟩
      split at h
      · next hrep =>
        cases hhit : Hit.make src p.node s pl.timer with
        | error e =>
          rw [hhit] at h
          cases h
        | ok hit =>
          rw [hhit] at h
          cases h
          exact Or.inr ⟨hrep, hit, rfl, rfl⟩
      · next hrep =>
        cases h
        exact Or.inl ⟨Bool.eq_false_iff.2 hrep, rfl⟩

theorem orUndecodable_eq_ok_iff {α : Type} {x : Except Utf8.Fault α} {a : α} :
    orUndecodable x = .ok a ↔ x = .ok a := by
  cases x <;> simp [orUndecodable]

/-- A hit says what its edit replaces. -/
theorem Hit.make_ok {src : Source} {n : Node} {s : Shape} {timer : Option Timer} {hit : Hit}
    (h : Hit.make src n s timer = .ok hit) :
    ∃ edit replaced, s.edit n timer = .ok edit ∧ edit.target.text src = .ok replaced ∧
      hit = ⟨src.point n.span.start, s.form, .ofReplacement ⟨edit.text, replaced, edit.target.span,
        src.point edit.target.span.start, src.point edit.target.span.stop⟩⟩ := by
  unfold Hit.make at h
  split at h
  · cases h
  · next edit hedit =>
    obtain ⟨replacement, hreplacement, h⟩ := exists_of_bind_ok h
    obtain ⟨replaced, hread, hr⟩ := exists_of_bind_ok (orUndecodable_eq_ok_iff.1 hreplacement)
    cases hr
    cases h
    exact ⟨edit, replaced, hedit, hread, rfl⟩

/-- The edit for a closure is what is to be offered for it. -/
theorem Offer.of_edit {src : Source} {p : Place} {s : Shape} {pl : Placement} {edit : Edit}
    (hread : Placement.read src p = .ok pl) (hedit : s.edit p.node pl.timer = .ok edit) :
    Offer src p s edit.target.span edit.text := by
  unfold Shape.edit at hedit
  split at hedit
  · next hargs =>
    have hne : s.arguments ≠ [] := by simpa [Shape.hasArguments] using hargs
    split at hedit
    · cases hedit
    · next t ht =>
      cases hedit
      obtain ⟨site, delay, hsite, hfirst, hname, hnames, hdelay, hteq⟩ :=
        Placement.eq_some_timer hread ht
      have hdelay' : site.DelayText src (t.delay.getD defaultDelay) := by
        rw [hteq]
        unfold CallSite.DelayText
        cases harg : site.arguments[1]? with
        | none =>
          rw [harg] at hdelay
          cases hdelay
          rfl
        | some n =>
          rw [harg, readOptional] at hdelay
          obtain ⟨d, htext, rfl⟩ := exists_of_map_ok hdelay
          exact htext
      have hcall : t.call = site.call := congrArg Timer.call hteq
      rw [hcall]
      exact .scheduled hne hsite hfirst hname hnames hdelay'
  · next hargs =>
    cases hedit
    exact .bound (by simpa [Shape.hasArguments] using hargs)

theorem Node.isClosure_iff {n : Node} :
    n.isClosure = true ↔
      n.named = true ∧ (n.kind = .arrowFunction ∨ n.kind = .functionExpression) := by
  simp [isClosure, closureKinds]

/-- What the rule answers for a closure is a description of it. -/
theorem describes_of_check {o : Options} {src : Source} {p : Place} {hit : Hit}
    (hp : p.node.isClosure = true) (h : check o src p = .ok (some hit)) :
    Describes o src p hit.finding := by
  rcases check_ok h with ⟨-, hnone⟩ | ⟨s, pl, hmatch, hread, ⟨-, hnone⟩ | ⟨hrep, hit', hmake, heq⟩⟩
  · cases hnone
  · cases hnone
  · cases heq
    obtain ⟨hnamed, hkind⟩ := Node.isClosure_iff.1 hp
    obtain ⟨hcarried, hadmitted⟩ := (Options.reports_iff hread).1 hrep
    obtain ⟨edit, replaced, hedit, -, rfl⟩ := Hit.make_ok hmake
    exact ⟨s, edit.target.span, edit.text, ⟨hnamed, hkind, hmatch, hcarried, hadmitted⟩,
      Offer.of_edit hread hedit, rfl, rfl⟩

/-- The rule passes over a closure only if it is not to be reported. -/
theorem not_reportable_of_check {o : Options} {src : Source} {p : Place}
    (h : check o src p = .ok none) (s : Shape) : ¬Reportable o src p s := by
  intro hrep
  rcases check_ok h with ⟨hmatch, -⟩ | ⟨s', pl, hmatch, hread, ⟨hno, -⟩ | ⟨-, hit, -, heq⟩⟩
  · rw [hrep.forwards] at hmatch
    cases hmatch
  · rw [hrep.forwards] at hmatch
    cases hmatch
    rw [(Options.reports_iff hread).2 ⟨hrep.carried, hrep.admitted⟩] at hno
    cases hno
  · cases heq

/-- A shape that is reported can be replaced: if it has arguments, it is in a timer
position. -/
theorem Options.exists_edit {o : Options} {s : Shape} {pl : Placement} (n : Node)
    (h : o.reports s pl = true) : ∃ edit, s.edit n pl.timer = .ok edit := by
  unfold Shape.edit
  cases htimer : pl.timer with
  | some t => split <;> exact ⟨_, rfl⟩
  | none =>
    have hno : s.hasArguments = false ∧ o.admits (o.isLongLived pl.callee) false = true := by
      simpa [Options.reports, htimer] using h
    rw [hno.1]
    exact ⟨_, rfl⟩

/-- A closure that is reported can always be replaced. -/
theorem check_ne_irreplaceable (o : Options) (src : Source) (p : Place) (e : EditError) :
    check o src p ≠ .error (.irreplaceable e) := by
  intro h
  rw [check_eq] at h
  split at h
  · cases h
  · cases h
  · next s hmatch =>
    split at h
    · cases h
    · next pl hread =>
      split at h
      · next hrep =>
        obtain ⟨edit, hedit⟩ := Options.exists_edit p.node hrep
        simp only [Hit.make, hedit, Edit.read, orUndecodable, bind, Except.bind] at h
        cases htext : edit.target.text src with
        | error fault =>
          rw [htext] at h
          cases h
        | ok replaced =>
          rw [htext] at h
          cases h
      · cases h

/-! ### Aligned trees -/

theorem exists_readTexts {src : Source} {ns : List Node}
    (h : ∀ n ∈ ns, ∃ t, n.text src = .ok t) : ∃ ts, readTexts src ns = .ok ts := by
  induction ns with
  | nil => exact ⟨[], rfl⟩
  | cons n ns ih =>
    obtain ⟨t, ht⟩ := h n List.mem_cons_self
    obtain ⟨ts, hts⟩ := ih fun m hm => h m (List.mem_cons_of_mem n hm)
    refine ⟨t :: ts, ?_⟩
    rw [readTexts] at hts
    rw [readTexts, List.mapM_cons, ht, hts]
    rfl

/-- The texts of a closure in an aligned tree can be read. -/
theorem exists_matchClosure {tree n : Node} {text : String} (includeAsync : Bool)
    (halign : tree.Aligned text) (hn : n.Within tree) :
    ∃ r, matchClosure (.ofText text) includeAsync n = .ok r := by
  unfold matchClosure
  split
  · exact ⟨none, rfl⟩
  · next form m hcall =>
    obtain ⟨hr, hp, ha⟩ := Node.within_of_forwardedCall? hcall
    obtain ⟨receiver, hreceiver⟩ := halign.exists_text (hr.trans hn)
    obtain ⟨property, hproperty⟩ := halign.exists_text (hp.trans hn)
    obtain ⟨arguments, harguments⟩ : ∃ ts, readTexts (.ofText text) m.arguments = .ok ts :=
      exists_readTexts fun a hmem => halign.exists_text ((ha a hmem).trans hn)
    refine ⟨some ⟨receiver, property, arguments, form⟩, ?_⟩
    rw [MethodCall.read, hreceiver, hproperty, harguments]
    rfl

/-- The node that an edit replaces lies within the tree. -/
theorem within_of_edit {src : Source} {p : Place} {s : Shape} {pl : Placement} {edit : Edit}
    (hread : Placement.read src p = .ok pl) (hedit : s.edit p.node pl.timer = .ok edit) :
    edit.target.Within p.root := by
  unfold Shape.edit at hedit
  split at hedit
  · split at hedit
    · cases hedit
    · next t ht =>
      cases hedit
      obtain ⟨site, delay, hsite, -, -, -, -, hteq⟩ := Placement.eq_some_timer hread ht
      have hcall : t.call = site.call := congrArg Timer.call hteq
      rw [hcall]
      exact hsite.within_root.1
  · cases hedit
    exact Place.within_rootOf p.node p.above

/-- The rule has an answer for every place of an aligned tree. -/
theorem exists_check {tree : Node} {text : String} {p : Place} (o : Options)
    (halign : tree.Aligned text) (hp : p ∈ tree.places) :
    ∃ r, check o (.ofText text) p = .ok r := by
  rw [check_eq]
  obtain ⟨shape, hmatch⟩ :=
    exists_matchClosure o.includeAsync halign (Place.within_root_of_mem_places hp)
  obtain ⟨pl, hread⟩ := Placement.exists_read halign hp
  rw [hmatch]
  cases shape with
  | none => exact ⟨none, rfl⟩
  | some s =>
    simp only [hread]
    split
    · next hrep =>
      obtain ⟨edit, hedit⟩ := Options.exists_edit p.node hrep
      have hin := within_of_edit hread hedit
      rw [Place.root_of_mem_places hp] at hin
      obtain ⟨replaced, htext⟩ := halign.exists_text hin
      simp only [Hit.make, hedit, Edit.read, htext, orUndecodable, bind, Except.bind]
      exact ⟨_, rfl⟩
    · exact ⟨none, rfl⟩

/-! ### Passes -/

/-- A pass stops only at a place that the rule has no answer for. -/
theorem exists_error_of_stopped {o : Options} {src : Source} {ps : List Place} {e : LintError}
    (h : (checkPlaces o src ps).stopped = some e) :
    ∃ p ∈ ps, ∃ e', check o src p = .error e' ∧ e = .unchecked e' := by
  fun_induction checkPlaces o src ps with
  | case1 => cases h
  | case2 p ps hp e' hcheck =>
    cases h
    exact ⟨p, List.mem_cons_self, e', hcheck, rfl⟩
  | case3 p ps hp hcheck ih =>
    obtain ⟨q, hq, herror⟩ := ih h
    exact ⟨q, List.mem_cons_of_mem p hq, herror⟩
  | case4 p ps hp hit hcheck ih =>
    obtain ⟨q, hq, herror⟩ := ih h
    exact ⟨q, List.mem_cons_of_mem p hq, herror⟩
  | case5 p ps hp ih =>
    obtain ⟨q, hq, herror⟩ := ih h
    exact ⟨q, List.mem_cons_of_mem p hq, herror⟩

open scoped Classical in
/-- A pass that comes to its end describes the places that are to be reported, in
their order. -/
theorem forall₂_checkPlaces {o : Options} {src : Source} {ps : List Place}
    (h : (checkPlaces o src ps).stopped = none) :
    List.Forall₂ (fun p hit => Describes o src p hit.finding)
      (ps.filter fun p => ∃ s, Reportable o src p s) (checkPlaces o src ps).hits := by
  fun_induction checkPlaces o src ps with
  | case1 => exact List.Forall₂.nil
  | case2 p ps hp e hcheck => cases h
  | case3 p ps hp hcheck ih =>
    have hno : ¬∃ s, Reportable o src p s := fun ⟨s, hs⟩ => not_reportable_of_check hcheck s hs
    rw [List.filter_cons_of_neg (by simpa using hno)]
    exact ih h
  | case4 p ps hp hit hcheck ih =>
    have hdesc := describes_of_check hp hcheck
    have hrep : ∃ s, Reportable o src p s := hdesc.imp fun s ⟨_, _, hs, _⟩ => hs
    rw [List.filter_cons_of_pos (by simpa using hrep)]
    exact List.Forall₂.cons hdesc (ih h)
  | case5 p ps hp ih =>
    have hno : ¬∃ s, Reportable o src p s :=
      fun ⟨s, hs⟩ => hp (Node.isClosure_iff.2 ⟨hs.named, hs.kind⟩)
    rw [List.filter_cons_of_neg (by simpa using hno)]
    exact ih h

/-- Each hit of a pass is what the rule answers for one of the closures. -/
theorem exists_check_of_mem_hits {o : Options} {src : Source} {ps : List Place} {hit : Hit}
    (h : hit ∈ (checkPlaces o src ps).hits) :
    ∃ p ∈ ps, p.node.isClosure = true ∧ check o src p = .ok (some hit) := by
  fun_induction checkPlaces o src ps with
  | case1 => cases h
  | case2 p ps hp e hcheck => cases h
  | case3 p ps hp hcheck ih =>
    obtain ⟨q, hq, hhit⟩ := ih h
    exact ⟨q, List.mem_cons_of_mem p hq, hhit⟩
  | case4 p ps hp hit' hcheck ih =>
    rcases List.mem_cons.1 h with rfl | h
    · exact ⟨p, List.mem_cons_self, hp, hcheck⟩
    · obtain ⟨q, hq, hhit⟩ := ih h
      exact ⟨q, List.mem_cons_of_mem p hq, hhit⟩
  | case5 p ps hp ih =>
    obtain ⟨q, hq, hhit⟩ := ih h
    exact ⟨q, List.mem_cons_of_mem p hq, hhit⟩

/-- Each hit of a pass describes one of the places. -/
theorem exists_describes_of_mem_hits {o : Options} {src : Source} {ps : List Place} {hit : Hit}
    (h : hit ∈ (checkPlaces o src ps).hits) : ∃ p ∈ ps, Describes o src p hit.finding := by
  obtain ⟨p, hp, hclosure, hcheck⟩ := exists_check_of_mem_hits h
  exact ⟨p, hp, describes_of_check hclosure hcheck⟩

/-- A pass over a tree without an error is the pass over its places. -/
theorem lint_eq_checkPlaces {parse : Parser} {path : Path} {text : String} (o : Options)
    (hpath : path.isScannable = true) (htree : (parse path text).hasError = false) :
    lint parse o path text = checkPlaces o (.ofText text) (parse path text).places := by
  rw [lint, if_pos hpath, lintTree, htree]
  rfl

theorem Pass.findings_eq_ok_iff {p : Pass} {fs : List Finding} :
    p.findings = .ok fs ↔ p.stopped = none ∧ p.hits.map Hit.finding = fs := by
  unfold findings
  cases p.stopped <;> simp

theorem Pass.findings_eq_error_iff {p : Pass} {e : LintError} :
    p.findings = .error e ↔ p.stopped = some e := by
  unfold findings
  cases p.stopped <;> simp

open scoped Classical in
/-- **A pass reports exactly the closures that are to be reported**, each once and in
the order of the tree (`Node.places_eq`), with the replacement it is to offer.  It can stop
early only at bytes that are no text, and over an aligned tree it does not stop. -/
theorem findings_lint (parse : Parser) (o : Options) (path : Path) (text : String)
    (hpath : path.isScannable = true) (htree : (parse path text).hasError = false) :
    (∀ fs, (lint parse o path text).findings = .ok fs →
        List.Forall₂ (Describes o (.ofText text))
          ((parse path text).places.filter fun p => ∃ s, Reportable o (.ofText text) p s) fs) ∧
      (∀ e, (lint parse o path text).findings = .error e →
        ∃ fault, e = .unchecked (.undecodable fault)) ∧
      ((parse path text).Aligned text → ∃ fs, (lint parse o path text).findings = .ok fs) := by
  rw [lint_eq_checkPlaces o hpath htree]
  refine ⟨?_, ?_, ?_⟩
  · intro fs hfs
    obtain ⟨hstop, rfl⟩ := Pass.findings_eq_ok_iff.1 hfs
    rw [List.forall₂_map_right_iff]
    exact forall₂_checkPlaces hstop
  · intro e he
    obtain ⟨p, -, e', hcheck, rfl⟩ := exists_error_of_stopped (Pass.findings_eq_error_iff.1 he)
    cases e' with
    | undecodable fault => exact ⟨fault, rfl⟩
    | irreplaceable error => exact absurd hcheck (check_ne_irreplaceable o _ p error)
  · intro halign
    cases hstop : (checkPlaces o (.ofText text) (parse path text).places).stopped with
    | none => exact ⟨_, Pass.findings_eq_ok_iff.2 ⟨hstop, rfl⟩⟩
    | some e =>
      obtain ⟨p, hp, e', hcheck, -⟩ := exists_error_of_stopped hstop
      obtain ⟨r, hr⟩ := exists_check o halign hp
      rw [hr] at hcheck
      cases hcheck

/-- A named node without a fault. -/
def Node.part (kind : Kind) (start stop : Nat) (field : Option Field) (cs : List Node) : Node :=
  .ofLabel ⟨kind, ⟨start, stop⟩, true, field, false, false, false⟩ cs

/-- The tree of a text that is one call: its name ends and its arguments end at these offsets. -/
def callTree (name stop : Nat) (cs : List Node) : Node :=
  .part ⟨"program"⟩ 0 stop none
    [.part .call 0 stop none
      [.part .identifier 0 name (some .function) [],
        .part .arguments name stop (some .arguments) cs]]

/-- The tree of a closure that forwards to a method, whose name of one letter stands at an
offset. -/
def forwardingTree (start stop : Nat) (receiver : Kind) (object : Span) (method : Nat)
    (cs : List Node) : Node :=
  .part .arrowFunction start stop none
    [.part ⟨"formal_parameters"⟩ start (start + 2) (some .parameters) [],
      .part .call object.start stop (some .body)
        [.part .member object.start (method + 1) (some .function)
          [.part receiver object.start object.stop (some .object) [],
            .part .propertyIdentifier method (method + 1) (some .property) []],
          .part .arguments (method + 1) stop (some .arguments) cs]]

/-- A scheduler call without a delay, whose closure forwards an argument. -/
def timerText : String := "setTimeout(() => é.m(x))"

/-- The tree of `timerText`. -/
def timerTree : Node :=
  callTree 10 25
    [forwardingTree 11 24 .identifier ⟨17, 19⟩ 20 [.part .identifier 22 23 none []]]

open scoped Classical in
/-- The scheduler call is written anew, although its name is not among the contexts. -/
theorem findings_lint_timer :
    let o : Options := ⟨true, ["on"], false⟩
    let path : Path := ⟨0, ["a.js"]⟩
    path.isScannable = true ∧ timerTree.hasError = false ∧ timerTree.Aligned timerText ∧
      ∃ fs, (lint (fun _ _ => timerTree) o path timerText).findings = .ok fs ∧
        fs.map Finding.suggestions = [[⟨0, 25, "setTimeout(é.m.bind(é), 0, x)"⟩]] ∧
        List.Forall₂ (Describes o (.ofText timerText))
          (timerTree.places.filter fun p => ∃ s, Reportable o (.ofText timerText) p s) fs := by
  intro o path
  have hpath : path.isScannable = true := by decide
  have htree : timerTree.hasError = false := by decide
  have halign : timerTree.Aligned timerText := by decide
  have hsuggestions :
      ((lint (fun _ _ => timerTree) o path timerText).hits.map Hit.finding).map
        Finding.suggestions = [[⟨0, 25, "setTimeout(é.m.bind(é), 0, x)"⟩]] := by decide +kernel
  obtain ⟨hfound, -, hends⟩ :=
    findings_lint (fun _ _ => timerTree) o path timerText hpath htree
  obtain ⟨fs, hfs⟩ := hends halign
  rw [(Pass.findings_eq_ok_iff.1 hfs).2] at hsuggestions
  exact ⟨hpath, htree, halign, fs, hfs, hsuggestions, hfound fs hfs⟩

end BindLint
