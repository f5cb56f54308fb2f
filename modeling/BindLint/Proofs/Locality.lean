import BindLint.Proofs.Parentheses

/-!
# What a check looks at

A check looks at the closure itself, and from there up through parentheses to the call that the
closure is passed to.  Of that call it reads the name, the index of the closure, the text of the
second argument and the span, and nothing else.  So two trees may differ in any other way: if they
hold the same closure and agree on these, the check answers the same in both, with the same finding
or the same failure.

The climb to the call goes two steps beyond the last parentheses.  A root above it is therefore not
seen unless it is the call itself, and a tree can be scanned child by child.

## Main definitions

* `Node.Same` — the same tree, under whatever field it hangs.
* `Place.StandsIn` — a node stands in the argument list of a call.
* `Place.PassedAlike` — two nodes for which a check reads the same around them.

## Main results

* `check_eq_of_read` — a check depends on what is read for it.
* `Place.callSite?_under` — a root that is no call is not seen.
* `findings_of_children` — the findings below a node, child by child.
* `check_local` — **a check is local, and a scan goes child by child.**
-/

namespace BindLint

/-! ### The closure -/

/-- The same tree, under whatever field it hangs. -/
def Node.Same (n n' : Node) : Prop :=
  n'.children = n.children ∧ n'.label = { n.label with field := n'.field }

namespace Node.Same

variable {n n' : Node}

theorem span_eq (h : n.Same n') : n'.span = n.span := by
  rw [span, h.2]
  rfl

theorem isClosure_eq (h : n.Same n') : n'.isClosure = n.isClosure := by
  rw [isClosure, named, kind, h.2]
  rfl

theorem matchClosure_eq (h : n.Same n') (src : Source) (includeAsync : Bool) :
    matchClosure src includeAsync n' = matchClosure src includeAsync n := by
  cases n with
  | mk l cs =>
    cases n' with
    | mk l' cs' =>
      obtain ⟨hcs, hl⟩ := h
      simp only [children_mk, label_mk] at hcs hl
      rw [hcs, hl]
      rfl

end Node.Same

/-! ### What is read around it -/

/-- The node at a place stands, with the parentheses around it, in the argument list of a call; as
many significant arguments stand before it as the index says. -/
inductive Place.StandsIn (p : Place) : CallSite → Prop where
  /-- Above the node stand parentheses, the argument list and the call. -/
  | intro (parens : List Frame) (list call : Frame) (rest : List Frame)
      (above : p.above = parens ++ list :: call :: rest)
      (inParens : ∀ f ∈ parens, f.label.kind = .parenthesized)
      (inList : list.label.kind = .arguments)
      (inCall : call.label.kind = .call) :
      StandsIn p
        { call := call.fill (list.fill (rootOf p.node parens))
          arguments := (list.fill (rootOf p.node parens)).significantChildren
          index := (list.before.filter Node.isSignificant).length }

/-- A check reads the same at two call sites of one source. -/
structure CallSite.Agrees (src : Source) (site site' : CallSite) : Prop where
  /-- What is called has the same name. -/
  callee : site'.call.calleeName src = site.call.calleeName src
  /-- As many arguments stand before the one picked out. -/
  index : site'.index = site.index
  /-- The second arguments have the same text, or both are absent. -/
  second : Option.Rel (SameText src src) site.arguments[1]? site'.arguments[1]?
  /-- The calls have the same span. -/
  span : site'.call.span = site.call.span

/-- Two nodes stand in argument lists at which a check reads the same, or none stands in one. -/
def Place.PassedAlike (src : Source) (p p' : Place) : Prop :=
  (∃ site site', p.StandsIn site ∧ p'.StandsIn site' ∧ site.Agrees src site') ∨
    (∀ site, ¬p.StandsIn site) ∧ ∀ site, ¬p'.StandsIn site

/-- All parentheses of a tree are named. -/
def Node.NamesParens (tree : Node) : Prop :=
  ∀ n : Node, n.Within tree → n.kind = .parenthesized → n.named = true

/-- Names of parentheses can be checked place by place. -/
instance (tree : Node) : Decidable tree.NamesParens :=
  decidable_of_iff (∀ p ∈ tree.places, p.node.kind = .parenthesized → p.node.named = true) <| by
    rw [Node.NamesParens, ← Place.forall_mem_places_iff]

theorem Place.isParens_of_mem_above {tree : Node} {p : Place} (hp : p ∈ tree.places)
    (htree : tree.NamesParens) {f : Frame} (hf : f ∈ p.above)
    (hkind : f.label.kind = .parenthesized) : f.IsParens := by
  obtain ⟨below, rest, habove⟩ := List.append_of_mem hf
  have hwithin : (f.fill (rootOf p.node below)).Within tree := by
    rw [← root_of_mem_places hp, root, habove, rootOf_append]
    exact within_rootOf _ rest
  exact ⟨hkind, htree _ hwithin hkind⟩

/-- Where parentheses are named, what stands in an argument list is an argument of the call. -/
theorem Place.standsIn_iff {tree : Node} {p : Place} (hp : p ∈ tree.places)
    (htree : tree.NamesParens) (hclosure : p.node.isClosure = true) {site : CallSite} :
    p.StandsIn site ↔ p.IsArgument site := by
  constructor
  · intro h
    cases h with
    | intro parens list call rest above inParens inList inCall =>
      have hparens : ∀ f ∈ parens, f.IsParens := by
        intro f hf
        have hmem : f ∈ p.above := by
          rw [above]
          exact List.mem_append_left _ hf
        exact isParens_of_mem_above hp htree hmem (inParens f hf)
      have hsig := isSignificant_rootOf (Node.isSignificant_of_isClosure hclosure) hparens
      exact .intro parens list call rest above inParens inList inCall hsig
  · intro h
    cases h with
    | intro parens list call rest above inParens inList inCall _ =>
      exact .intro parens list call rest above inParens inList inCall

theorem CallSite.Agrees.readAlike {src : Source} {site site' : CallSite}
    (h : site.Agrees src site') : site.ReadAlike src src site' := by
  refine ⟨h.index, h.callee, ?_⟩
  intro _
  exact readOptional_eq h.second

/-! ### The answer -/

section Answer

variable {src : Source}

/-- An edit is read through the span of its target. -/
theorem Edit.read_congr {e e' : Edit} (htext : e'.text = e.text)
    (hspan : e'.target.span = e.target.span) : e'.read src = e.read src := by
  unfold read Node.text
  rw [htext, hspan]

theorem Hit.make_congr (s : Shape) {n n' : Node} {timer timer' : Option Timer}
    (hspan : n'.span = n.span)
    (htimer : Option.Rel (Timer.Alike fun c c' => c'.span = c.span) timer timer') :
    Hit.make src n' s timer' = Hit.make src n s timer := by
  unfold make Shape.edit
  cases s.hasArguments with
  | false =>
    have hread : Edit.read src ⟨n', s.bound⟩ = Edit.read src ⟨n, s.bound⟩ :=
      Edit.read_congr rfl hspan
    simp only [Bool.false_eq_true, if_false, hread, hspan]
  | true =>
    cases htimer with
    | none => rfl
    | @some t t' ht =>
      have hread : Edit.read src ⟨t'.call, s.scheduled t'.scheduler t'.delay⟩ =
          Edit.read src ⟨t.call, s.scheduled t.scheduler t.delay⟩ :=
        Edit.read_congr (by rw [ht.scheduler, ht.delay]) ht.call
      simp only [if_true, hread, hspan]

/-- **A check depends on what is read for it**: the shape and the span of the closure, and its
placement, of which the call counts by its span. -/
theorem check_eq_of_read (o : Options) {p p' : Place}
    (hmatch : matchClosure src o.includeAsync p'.node = matchClosure src o.includeAsync p.node)
    (hspan : p'.node.span = p.node.span)
    (hread : SameOutcome (Placement.Alike fun c c' => c'.span = c.span) (Placement.read src p)
      (Placement.read src p')) :
    check o src p' = check o src p := by
  rw [check_eq, check_eq, hmatch]
  generalize Placement.read src p = read at hread
  generalize Placement.read src p' = read' at hread
  cases hread with
  | error e => rfl
  | @ok pl pl' hpl =>
    cases matchClosure src o.includeAsync p.node with
    | error e => rfl
    | ok shape =>
      cases shape with
      | none => rfl
      | some s => simp only [o.reports_eq s hpl, Hit.make_congr s hspan hpl.timer]

end Answer

/-! ### Roots -/

namespace Place

/-- **A root that is no call is not seen** from below. -/
theorem callSite?_under {f : Frame} (hf : f.label.kind ≠ .call) (p : Place) :
    (p.under f).callSite? = p.callSite? := by
  obtain ⟨n, fs⟩ := p
  unfold under
  induction fs generalizing n with
  | nil =>
    by_cases hparen : f.label.kind = .parenthesized
    · exact callSite?_of_parenthesized hparen
    · rw [List.nil_append, callSite?, outOfParens_cons hparen]
      rfl
  | cons g fs ih =>
    by_cases hparen : g.label.kind = .parenthesized
    · have hstep := ih (g.fill n)
      rw [callSite?_of_parenthesized hparen]
      exact (callSite?_of_parenthesized hparen).trans hstep
    · rw [List.cons_append, callSite?, callSite?, outOfParens_cons hparen, outOfParens_cons hparen]
      cases fs with
      | nil => simp [CallSite.of?, hf]
      | cons h fs => rfl

end Place

section Roots

variable {o : Options} {src : Source}

theorem check_under {f : Frame} (hf : f.label.kind ≠ .call) (p : Place) :
    check o src (p.under f) = check o src p := by
  have hread : Placement.read src (p.under f) = Placement.read src p := by
    rw [Placement.read, Placement.read, Place.callSite?_under hf]
  rw [check_eq, check_eq, hread]
  rfl

theorem checkPlaces_map_under {f : Frame} (hf : f.label.kind ≠ .call) (ps : List Place) :
    checkPlaces o src (ps.map (Place.under f)) = checkPlaces o src ps := by
  induction ps with
  | nil => rfl
  | cons p ps ih =>
    rw [List.map_cons, checkPlaces, checkPlaces, check_under hf, ih]
    rfl

theorem Pass.findings_cons (h : Hit) (p : Pass) :
    (p.cons h).findings = p.findings.map (h.finding :: ·) := by
  unfold findings
  cases hstop : p.stopped with
  | none => simp [cons, hstop, Except.map]
  | some e => simp [cons, hstop, Except.map]

/-- The findings of two rows of places, one after the other. -/
theorem findings_checkPlaces_append (ps qs : List Place) :
    (checkPlaces o src (ps ++ qs)).findings = do
      let fs ← (checkPlaces o src ps).findings
      let gs ← (checkPlaces o src qs).findings
      return fs ++ gs := by
  fun_induction checkPlaces o src ps with
  | case1 => exact (bind_pure (checkPlaces o src qs).findings).symm
  | case2 p ps hp e hcheck =>
    rw [List.cons_append, checkPlaces, if_pos hp, hcheck]
    rfl
  | case3 p ps hp hcheck ih =>
    rw [List.cons_append, checkPlaces, if_pos hp, hcheck]
    exact ih
  | case4 p ps hp hit hcheck ih =>
    rw [List.cons_append, checkPlaces, if_pos hp, hcheck, Pass.findings_cons, Pass.findings_cons,
      ih]
    cases (checkPlaces o src ps).findings with
    | error e => rfl
    | ok fs => cases (checkPlaces o src qs).findings <;> rfl
  | case5 p ps hp ih =>
    rw [List.cons_append, checkPlaces, if_neg hp]
    exact ih

theorem findings_checkPlaces_flatMap {α : Type} (xs : List α) (f : α → List Place) :
    (checkPlaces o src (xs.flatMap f)).findings =
      (xs.mapM fun x => (checkPlaces o src (f x)).findings).map List.flatten := by
  induction xs with
  | nil => rfl
  | cons x xs ih =>
    rw [List.flatMap_cons, findings_checkPlaces_append, ih, List.mapM_cons]
    cases (checkPlaces o src (f x)).findings with
    | error e => rfl
    | ok fs => cases xs.mapM fun x => (checkPlaces o src (f x)).findings <;> rfl

/-- **The findings below a node, child by child**, if it is neither a closure nor a call. -/
theorem findings_of_children {root : Node} (hclosure : root.isClosure = false)
    (hcall : root.kind ≠ .call) :
    (checkPlaces o src root.places).findings =
      (root.children.mapM fun c => (checkPlaces o src c.places).findings).map List.flatten := by
  have hhole : ∀ i, (root.holeAt i).label.kind ≠ .call := fun _ => hcall
  rw [Node.places_eq, checkPlaces, if_neg (by rw [hclosure]; decide), findings_checkPlaces_flatMap]
  simp only [checkPlaces_map_under (hhole _)]
  -- the index of a child is gone, so the children without their indices are left
  conv_rhs => rw [← List.zipIdx_map_fst 0 root.children, List.mapM_map]
  rfl

theorem lintTree_of_hasError {path : Path} {tree : Node} (h : tree.hasError = true) :
    (lintTree o path src tree).findings = .error (.unparsable (.ofTree path src tree)) := by
  rw [lintTree, if_pos h]
  rfl

theorem lintTree_of_not_hasError {path : Path} {tree : Node} (h : ¬tree.hasError = true) :
    lintTree o path src tree = checkPlaces o src tree.places := by
  rw [lintTree, if_neg h]

/-- A tree whose root is marked only for the sake of its children is linted child by child. -/
theorem lintTree_of_children {path : Path} {root : Node} (hclosure : root.isClosure = false)
    (hcall : root.kind ≠ .call)
    (hmark : root.hasError = true ↔ ∃ c ∈ root.children, c.hasError = true) (fs : List Finding) :
    (lintTree o path src root).findings = .ok fs ↔
      ∃ fss, (root.children.mapM fun c => (lintTree o path src c).findings) = .ok fss ∧
        fs = fss.flatten := by
  by_cases hroot : root.hasError = true
  · obtain ⟨c, hc, hmarked⟩ := hmark.1 hroot
    rw [lintTree_of_hasError hroot]
    refine iff_of_false (fun h => nomatch h) ?_
    rintro ⟨fss, hfss, -⟩
    obtain ⟨fs', hfs'⟩ := exists_of_mapM_ok hfss c hc
    rw [lintTree_of_hasError hmarked] at hfs'
    cases hfs'
  · have hchildren : (root.children.mapM fun c => (lintTree o path src c).findings) =
        root.children.mapM fun c => (checkPlaces o src c.places).findings := by
      refine mapM_congr ?_
      intro c hc
      rw [lintTree_of_not_hasError fun h => hroot (hmark.2 ⟨c, hc, h⟩)]
    rw [lintTree_of_not_hasError hroot, findings_of_children hclosure hcall, hchildren]
    constructor
    · intro h
      obtain ⟨fss, hfss, rfl⟩ := exists_of_map_ok h
      exact ⟨fss, hfss, rfl⟩
    · intro ⟨fss, hfss, hfs⟩
      rw [hfss, hfs]
      rfl

end Roots

/-! ### Locality -/

theorem Place.PassedAlike.rel_callSite? {src : Source} {tree tree' : Node} {p p' : Place}
    (h : PassedAlike src p p') (hp : p ∈ tree.places) (hp' : p' ∈ tree'.places)
    (htree : tree.NamesParens) (htree' : tree'.NamesParens) (hclosure : p.node.isClosure = true)
    (hclosure' : p'.node.isClosure = true) :
    Option.Rel (CallSite.Agrees src) p.callSite? p'.callSite? := by
  rcases h with ⟨site, site', hsite, hsite', hagrees⟩ | ⟨hnone, hnone'⟩
  · rw [callSite?_eq_some_iff.2 ((standsIn_iff hp htree hclosure).1 hsite),
      callSite?_eq_some_iff.2 ((standsIn_iff hp' htree' hclosure').1 hsite')]
    exact .some hagrees
  · have hfree : p.callSite? = none := by
      rw [Option.eq_none_iff_forall_ne_some]
      intro site hsite
      exact hnone site ((standsIn_iff hp htree hclosure).2 (callSite?_eq_some_iff.1 hsite))
    have hfree' : p'.callSite? = none := by
      rw [Option.eq_none_iff_forall_ne_some]
      intro site hsite
      exact hnone' site ((standsIn_iff hp' htree' hclosure').2 (callSite?_eq_some_iff.1 hsite))
    rw [hfree, hfree']
    exact .none

/-- **A check is local.**  Two trees over one source, in which parentheses are named, may differ in
any way: if both hold a closure, and it stands in the argument list of a call of the same name and
span in both, behind as many arguments and with the same second one, or stands in none in both, then
the check of the closure answers the same, whatever the options are.

So a tree whose root is neither a closure nor a call has the findings of its children, in order,
each scanned as a tree of its own; and if the root is marked only for the sake of its children, it
can be scanned exactly if they all can. -/
theorem check_local (o : Options) (src : Source) :
    (∀ (tree tree' : Node) (p p' : Place), p ∈ tree.places → p' ∈ tree'.places →
      tree.NamesParens → tree'.NamesParens → p.node.isClosure = true → p.node.Same p'.node →
      Place.PassedAlike src p p' → check o src p' = check o src p) ∧
    ∀ root : Node, root.isClosure = false → root.kind ≠ .call →
      (checkPlaces o src root.places).findings =
        (root.children.mapM fun c => (checkPlaces o src c.places).findings).map List.flatten ∧
      ∀ path, (root.hasError = true ↔ ∃ c ∈ root.children, c.hasError = true) → ∀ fs,
        ((lintTree o path src root).findings = .ok fs ↔
          ∃ fss, (root.children.mapM fun c => (lintTree o path src c).findings) = .ok fss ∧
            fs = fss.flatten) := by
  constructor
  · intro tree tree' p p' hp hp' htree htree' hclosure hsame hpassed
    have hclosure' : p'.node.isClosure = true := hsame.isClosure_eq.trans hclosure
    have hsite := hpassed.rel_callSite? hp hp' htree htree' hclosure hclosure'
    refine check_eq_of_read o (hsame.matchClosure_eq src o.includeAsync) hsame.span_eq ?_
    exact Placement.sameOutcome_read (rel_mono hsite fun _ _ h => ⟨h.readAlike, h.span⟩)
  · intro root hclosure hcall
    exact ⟨findings_of_children hclosure hcall,
      fun path hmark fs => lintTree_of_children hclosure hcall hmark fs⟩

/-- Another tree over `behindDelayText`: a comment comes first, the first closure stands in
parentheses, and the second one is no argument. -/
def regroupedTree : Node :=
  .part ⟨"program"⟩ 0 40 none
    [.part .comment 0 0 none [],
      .part .call 0 40 none
        [.part .identifier 0 10 (some .function) [],
          .part .arguments 10 40 (some .arguments)
            [.part .parenthesized 11 23 none
              [forwardingTree 11 23 .identifier ⟨17, 18⟩ 19 [.part .identifier 21 22 none []]],
              .part ⟨"number"⟩ 25 26 none []]],
      forwardingTree 28 39 .identifier ⟨34, 35⟩ 36 []]

/-- The first closure is answered for as in `behindDelayTree`, and the scan finds it and the second
one, one below each child. -/
theorem check_local_regrouped :
    let o : Options := ⟨false, [], false⟩
    let src := Source.ofText behindDelayText
    let p := behindDelayTree.places.get ⟨4, by decide⟩
    let p' := regroupedTree.places.get ⟨6, by decide⟩
    (p ∈ behindDelayTree.places ∧ p' ∈ regroupedTree.places ∧ behindDelayTree.NamesParens ∧
        regroupedTree.NamesParens ∧ p.node.isClosure = true ∧ p.node.Same p'.node ∧
        Place.PassedAlike src p p' ∧ check o src p' = check o src p) ∧
      regroupedTree.isClosure = false ∧ regroupedTree.kind ≠ .call ∧
      (regroupedTree.hasError = true ↔ ∃ c ∈ regroupedTree.children, c.hasError = true) ∧
      ∃ fs, (lintTree o ⟨0, ["a.js"]⟩ src regroupedTree).findings = .ok fs ∧
        fs.map Finding.replacement = ["setTimeout(o.m.bind(o), 0, x)", "a.b.bind(a)"] := by
  intro o src p p'
  have hp : p ∈ behindDelayTree.places := List.get_mem _ _
  have hp' : p' ∈ regroupedTree.places := List.get_mem _ _
  have htree : behindDelayTree.NamesParens := by decide
  have htree' : regroupedTree.NamesParens := by decide
  have hclosure : p.node.isClosure = true := by decide
  have hsame : p.node.Same p'.node := ⟨rfl, rfl⟩
  have hpassed : Place.PassedAlike src p p' :=
    Or.inl ⟨_, _, .intro [] _ _ _ rfl (by decide) rfl rfl,
      .intro (p'.above.take 1) _ _ _ rfl (by decide) rfl rfl,
      ⟨by decide +kernel, by decide, .some (by decide +kernel), by decide⟩⟩
  have hclosure' : regroupedTree.isClosure = false := by decide
  have hcall : regroupedTree.kind ≠ .call := by decide
  have hmark : regroupedTree.hasError = true ↔
      ∃ c ∈ regroupedTree.children, c.hasError = true := by decide
  obtain ⟨hlocal, hroot⟩ := check_local o src
  have hscan := (hroot regroupedTree hclosure' hcall).2 ⟨0, ["a.js"]⟩ hmark
  have hchildren : (regroupedTree.children.mapM fun c =>
      (lintTree o ⟨0, ["a.js"]⟩ src c).findings).toOption.map
        (fun fss => fss.flatten.map Finding.replacement) =
      some ["setTimeout(o.m.bind(o), 0, x)", "a.b.bind(a)"] := by decide +kernel
  obtain ⟨fss, hfss, hreplacements⟩ := Option.map_eq_some_iff.1 hchildren
  exact ⟨⟨hp, hp', htree, htree', hclosure, hsame, hpassed,
      hlocal _ _ p p' hp hp' htree htree' hclosure hsame hpassed⟩,
    hclosure', hcall, hmark, fss.flatten, (hscan _).2 ⟨fss, toOption_eq_some_iff.1 hfss, rfl⟩,
    hreplacements⟩

end BindLint
