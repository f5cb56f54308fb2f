import BindLint.Proofs.Parentheses

/-!
# Comments in a tree

A comment may stand anywhere in a tree: in a parameter list, in a block, in parentheses, in an
argument list.  Recognition and the climb to the call count significant nodes and look under
fields, and a comment is neither significant nor under a field.  So comments may be put into a tree
wherever they fit: every node has a counterpart in the second tree, and what is found at the node is
found at its counterpart.

Putting comments in moves all that follows and makes the nodes around them longer, so spans do not
count here.  What has to stay are the texts that a replacement is written with: those of the
receiver, the property and the arguments that the closure forwards, of the name of what is called,
and of the delay.

## Main definitions

* `Node.TakesComments` — a tree and the same tree with comments put in.
* `Place.Alike` — a node and its counterpart.
* `Place.KeepsTexts`, `Place.KeepsReadable` — what has to stay in the texts.

## Main results

* `Node.TakesComments.exists_place` — every node has a counterpart.
* `Place.Alike.matchClosure_eq` — the same shape is read at the counterpart.
* `Place.Alike.rel_callSite?` — the counterpart is passed alike.
* `comments_transparent` — **comments do not change the analysis.**
-/

namespace BindLint

/-! ### Counterparts -/

/-- The second tree is the first one with comments put in.  The relation says what else the nodes
have in common; it may leave the spans open. -/
structure Node.TakesComments (R : Node → Node → Prop) (tree tree' : Node) : Prop where
  /-- The roots hang under the same field. -/
  field : tree'.field = tree.field
  /-- Comments apart, the trees are alike. -/
  alike : tree.Alike R tree'

/-- A node and its counterpart in a tree with comments put in: they are alike, and so are the
ancestors, one by one. -/
structure Place.Alike (R : Node → Node → Prop) (p p' : Place) : Prop where
  /-- The nodes are alike. -/
  node : p.node.Alike R p'.node
  /-- What stands around them is alike. -/
  above : List.Forall₂ (Frame.Alike R) p.above p'.above
  /-- The ancestors are alike. -/
  ancestors : ∀ a a', Place.SameAncestor 0 p p' a a' → a.Alike R a'

section Counterparts

variable {R : Node → Node → Prop}

theorem Place.Alike.root {n n' : Node} (h : n.Alike R n') : Place.Alike R ⟨n, []⟩ ⟨n', []⟩ := by
  refine ⟨h, .nil, ?_⟩
  intro a a' ⟨i, hi, _⟩
  exact absurd hi (Nat.not_lt_zero i)

/-- Children that are alike are counterparts, if their parents are. -/
theorem Place.Alike.below {f f' : Frame} {fs fs' : List Frame} {c c' : Node}
    (hparent : Place.Alike R ⟨f.fill c, fs⟩ ⟨f'.fill c', fs'⟩) (hframe : f.Alike R f')
    (hc : c.Alike R c') : Place.Alike R ⟨c, f :: fs⟩ ⟨c', f' :: fs'⟩ := by
  refine ⟨hc, .cons hframe hparent.above, ?_⟩
  intro a a' ⟨i, hi, ha, ha'⟩
  rw [Nat.zero_add] at ha'
  cases i with
  | zero =>
    subst ha ha'
    exact hparent.node
  | succ i =>
    refine hparent.ancestors a a' ⟨i, Nat.lt_of_succ_lt_succ hi, ha, ?_⟩
    rw [Nat.zero_add]
    exact ha'

namespace Node

variable {p : Place}

mutual

theorem exists_mem_placesUnder {above above' : List Frame} {n : Node} (n' : Node)
    (hfield : n'.field = n.field) (h : Place.Alike R ⟨n, above⟩ ⟨n', above'⟩)
    (hp : p ∈ n.placesUnder above) : ∃ p' ∈ n'.placesUnder above', p.Alike R p' := by
  cases n with
  | mk l cs =>
    cases n' with
    | mk l' cs' =>
      rw [placesUnder, List.mem_cons] at hp
      rw [placesUnder]
      rcases hp with rfl | hp
      · exact ⟨_, List.mem_cons_self, h⟩
      · obtain ⟨p', hp', halike⟩ :=
          exists_mem_placesAmong [] [] cs' hfield h .nil h.node.children hp
        exact ⟨p', List.mem_cons_of_mem _ hp', halike⟩

/-- The induction is on the children of the second tree: a comment takes one of them and none of
the first tree. -/
theorem exists_mem_placesAmong {above above' : List Frame} {l l' : Label} {cs : List Node}
    (before before' cs' : List Node) (hfield : l'.field = l.field)
    (hparent : Place.Alike R ⟨mk l (before.reverse ++ cs), above⟩
      ⟨mk l' (before'.reverse ++ cs'), above'⟩)
    (hbefore : Commented (Alike R) before before') (hcs : Commented (Alike R) cs cs')
    (hp : p ∈ placesAmong l above before cs) :
    ∃ p' ∈ placesAmong l' above' before' cs', p.Alike R p' := by
  cases cs' with
  | nil =>
    cases hcs with
    | nil => simp [placesAmong] at hp
  | cons c' after' =>
    rw [placesAmong]
    cases hcs with
    | @cons c _ after _ hcfield hc hafter =>
      rw [placesAmong, List.mem_append] at hp
      rcases hp with hp | hp
      · have hframe : Frame.Alike R ⟨l, before, after⟩ ⟨l', before', after'⟩ :=
          ⟨hparent.node.kind_eq, hparent.node.named_eq, hfield, hbefore, hafter⟩
        have hchild : Place.Alike R ⟨c, ⟨l, before, after⟩ :: above⟩
            ⟨c', ⟨l', before', after'⟩ :: above'⟩ := .below hparent hframe hc
        obtain ⟨p', hp', halike⟩ := exists_mem_placesUnder c' hcfield hchild hp
        exact ⟨p', List.mem_append_left _ hp', halike⟩
      · obtain ⟨p', hp', halike⟩ := exists_mem_placesAmong (c :: before) (c' :: before') after'
          hfield (by simpa using hparent) (.cons hcfield hc hbefore) hafter hp
        exact ⟨p', List.mem_append_right _ hp', halike⟩
    | comment hckind hcfield hafter =>
      -- no node of the first tree stands here, and the comment joins what is passed
      obtain ⟨p', hp', halike⟩ := exists_mem_placesAmong before (c' :: before') after' hfield
        (by simpa using hparent) (.comment hckind hcfield hbefore) hafter hp
      exact ⟨p', List.mem_append_right _ hp', halike⟩

end

/-- **Every node has a counterpart.** -/
theorem TakesComments.exists_place {tree tree' : Node} (h : tree.TakesComments R tree')
    (hp : p ∈ tree.places) : ∃ p' ∈ tree'.places, p.Alike R p' :=
  exists_mem_placesUnder tree' h.field (.root h.alike) hp

end Node

end Counterparts

/-! ### What has to stay -/

/-- The texts that a replacement is written with are the same at a node and at its counterpart, as
far as both have them. -/
structure Place.KeepsTexts (src src' : Source) (p p' : Place) : Prop where
  /-- The parts of the call that the closures forward to have the same texts. -/
  forwarded : ∀ form form' m m', p.node.Forwards true form m → p'.node.Forwards true form' m' →
    m.SameTexts src src' m'
  /-- The names of what is called have the same text. -/
  callee : ∀ site site', p.IsArgument site → p'.IsArgument site' →
    ∀ c c', site.call.calleeNode? = some c → site'.call.calleeNode? = some c' →
      SameText src src' c c'
  /-- The delays have the same text. -/
  delay : ∀ site site', p.IsArgument site → p'.IsArgument site' → site.index = 0 →
    ∀ d d', site.arguments[1]? = some d → site'.arguments[1]? = some d' → SameText src src' d d'

/-- What may be replaced, the closures and the calls that they are passed to, can be read at a node
and at its counterpart, or at none. -/
structure Place.KeepsReadable (src src' : Source) (p p' : Place) : Prop where
  /-- The closures can be read, or none can. -/
  closure : SameReadable src src' p.node p'.node
  /-- The calls can be read, or none can. -/
  call : ∀ site site', p.IsArgument site → p'.IsArgument site' →
    SameReadable src src' site.call site'.call

/-- In aligned trees everything can be read. -/
theorem Place.keepsReadable_of_aligned {tree tree' : Node} {text text' : String} {p p' : Place}
    (halign : tree.Aligned text) (halign' : tree'.Aligned text') (hp : p ∈ tree.places)
    (hp' : p' ∈ tree'.places) : p.KeepsReadable (.ofText text) (.ofText text') p' := by
  constructor
  · exact iff_of_true (halign.exists_text (within_root_of_mem_places hp))
      (halign'.exists_text (within_root_of_mem_places hp'))
  · intro site site' hsite hsite'
    have hcall := hsite.within_root.1
    have hcall' := hsite'.within_root.1
    rw [root_of_mem_places hp] at hcall
    rw [root_of_mem_places hp'] at hcall'
    exact iff_of_true (halign.exists_text hcall) (halign'.exists_text hcall')

/-! ### The analysis -/

theorem Node.Forwards.async_true {includeAsync : Bool} {n : Node} {form : Form} {m : MethodCall}
    (h : n.Forwards includeAsync form m) : n.Forwards true form m :=
  ⟨h.closure, h.parameters, Or.inr rfl, h.body⟩

namespace Place.Alike

variable {R : Node → Node → Prop} {src src' : Source} {p p' : Place}

theorem isClosure_eq (h : p.Alike R p') : p'.node.isClosure = p.node.isClosure := by
  rw [Node.isClosure, Node.isClosure, h.node.named_eq, h.node.kind_eq]

/-- The same shape is read at the counterpart. -/
theorem matchClosure_eq (h : p.Alike R p') (htexts : p.KeepsTexts src src' p')
    (includeAsync : Bool) :
    matchClosure src' includeAsync p'.node = matchClosure src includeAsync p.node := by
  refine h.node.matchClosure_eq_of_sameTexts includeAsync ?_
  intro form m m' hm hm' _
  have hforwards := (Node.forwardedCall?_eq_some_iff.1 hm).async_true
  have hforwards' := (Node.forwardedCall?_eq_some_iff.1 hm').async_true
  exact htexts.forwarded form form m m' hforwards hforwards'

/-- The counterpart is passed alike. -/
theorem rel_callSite? (h : p.Alike R p') :
    Option.Rel
      (fun site site' => (p.IsArgument site ∧ p'.IsArgument site') ∧ site.Alike R site' ∧
        SameAncestor 0 p p' site.call site'.call)
      p.callSite? p'.callSite? := by
  refine rel_mono_of_eq_some (Place.rel_callSite? h.above h.node.isSignificant_eq) ?_
  intro site site' hsite hsite' halike
  exact ⟨⟨callSite?_eq_some_iff.1 hsite, callSite?_eq_some_iff.1 hsite'⟩, halike⟩

theorem alike_of_isArgument (h : p.Alike R p') {site site' : CallSite} (hsite : p.IsArgument site)
    (hsite' : p'.IsArgument site') :
    site.Alike R site' ∧ SameAncestor 0 p p' site.call site'.call := by
  have hrel := h.rel_callSite?
  rw [callSite?_eq_some_iff.2 hsite, callSite?_eq_some_iff.2 hsite', Option.rel_some_some] at hrel
  exact hrel.2

/-- Where all nodes keep their texts, so do those that count. -/
theorem keepsTexts (h : p.Alike R p') (hR : ∀ n n', R n n' → SameText src src' n n') :
    p.KeepsTexts src src' p' := by
  constructor
  · intro form form' m m' hm hm'
    have hrel := h.node.forwardedCall? true
    rw [Node.forwardedCall?_eq_some_iff.2 hm, Node.forwardedCall?_eq_some_iff.2 hm',
      Option.rel_some_some] at hrel
    exact hrel.2.sameTexts hR
  · intro site site' hsite hsite' c c' hc hc'
    have hrel := (h.alike_of_isArgument hsite hsite').1.callee
    rw [hc, hc', Option.rel_some_some] at hrel
    exact hR c c' hrel.rel
  · intro site site' hsite hsite' hindex d d' hd hd'
    have hrel := (h.alike_of_isArgument hsite hsite').1.others 1 (by omega)
    rw [hd, hd', Option.rel_some_some] at hrel
    exact hR d d' hrel.rel

theorem keepsReadable (h : p.Alike R p') (hR : ∀ n n', R n n' → SameText src src' n n') :
    p.KeepsReadable src src' p' := by
  refine ⟨(hR _ _ h.node.rel).sameReadable, ?_⟩
  intro site site' hsite hsite'
  have hcall := h.ancestors _ _ (h.alike_of_isArgument hsite hsite').2
  exact (hR _ _ hcall.rel).sameReadable

end Place.Alike

/-- What is read at call sites that are alike is the same, if the texts are kept. -/
theorem Place.KeepsTexts.readAlike {R : Node → Node → Prop} {src src' : Source} {p p' : Place}
    {site site' : CallSite} (h : p.KeepsTexts src src' p') (hsite : p.IsArgument site)
    (hsite' : p'.IsArgument site') (halike : site.Alike R site') :
    site.ReadAlike src src' site' := by
  refine ⟨halike.index, readOptional_eq (rel_mono_of_eq_some halike.callee ?_), ?_⟩
  · intro c c' hc hc' _
    exact h.callee site site' hsite hsite' c c' hc hc'
  · intro hindex
    -- the first argument is picked out, so that the second one is alike
    refine readOptional_eq (rel_mono_of_eq_some (halike.others 1 (by omega)) ?_)
    intro d d' hd hd' _
    exact h.delay site site' hsite hsite' hindex d d' hd hd'

/-- **Comments do not change the analysis.**  However many comments are put into a tree, every node
has a counterpart.  Where the texts that a replacement is written with are kept, the counterpart is
a closure exactly if the node is; the same shape is read of both; they are passed to the same call
or both to none, under the same name, at the same index and among as many arguments; their timer
positions are the same; and the rule reports both or none, with the same replacement, provided that
what it replaces can be read in both texts or in none.

All this is kept if the nodes keep their spans in one text.  If they move to another text, what is
replaced can be read in any case, as long as both trees are aligned. -/
theorem comments_transparent (R : Node → Node → Prop) (tree tree' : Node)
    (htree : tree.TakesComments R tree') (p : Place) (hp : p ∈ tree.places) :
    (∃ p' ∈ tree'.places, p.Alike R p') ∧
    ∀ p' ∈ tree'.places, p.Alike R p' →
      (∀ src src', p.KeepsTexts src src' p' →
        p'.node.isClosure = p.node.isClosure ∧
        (∀ includeAsync,
          matchClosure src' includeAsync p'.node = matchClosure src includeAsync p.node) ∧
        Option.Rel
          (fun site site' => Place.SameAncestor 0 p p' site.call site'.call ∧
            site'.call.calleeName src' = site.call.calleeName src ∧ site'.index = site.index ∧
            site'.arguments.length = site.arguments.length)
          p.callSite? p'.callSite? ∧
        SameOutcome (Placement.Alike (Place.SameAncestor 0 p p')) (Placement.read src p)
          (Placement.read src' p') ∧
        (p.KeepsReadable src src' p' → ∀ o,
          Option.Rel (Option.Rel Hit.SameReplacement) (check o src p).toOption
            (check o src' p').toOption)) ∧
      ((∀ n n', R n n' → n'.span = n.span) →
        ∀ src, p.KeepsTexts src src p' ∧ p.KeepsReadable src src p') ∧
      ∀ text text', tree.Aligned text → tree'.Aligned text' →
        p.KeepsReadable (.ofText text) (.ofText text') p' := by
  refine ⟨htree.exists_place hp, fun p' hp' halike => ⟨fun src src' htexts => ?_,
    fun hspan src => ?_, fun text text' halign halign' =>
      Place.keepsReadable_of_aligned halign halign' hp hp'⟩⟩
  · have hsite := halike.rel_callSite?
    refine ⟨halike.isClosure_eq, halike.matchClosure_eq htexts, rel_mono hsite ?_, ?_, ?_⟩
    · intro site site' ⟨⟨harg, harg'⟩, hsites, hcall⟩
      exact ⟨hcall, (htexts.readAlike harg harg' hsites).callee, hsites.index, hsites.length⟩
    · refine Placement.sameOutcome_read (rel_mono hsite ?_)
      intro site site' ⟨⟨harg, harg'⟩, hsites, hcall⟩
      exact ⟨htexts.readAlike harg harg' hsites, hcall⟩
    · intro hreadable o
      refine rel_check o (halike.matchClosure_eq htexts o.includeAsync) ?_ hreadable.closure
      refine (Placement.sameOutcome_read (rel_mono hsite ?_)).rel_toOption
      intro site site' ⟨⟨harg, harg'⟩, hsites, _⟩
      exact ⟨htexts.readAlike harg harg' hsites, hreadable.call site site' harg harg'⟩
  · have hR : ∀ n n', R n n' → SameText src src n n' :=
      fun n n' hn => congrArg src.read (hspan n n' hn)
    exact ⟨halike.keepsTexts hR, halike.keepsReadable hR⟩

/-- The call of `delayedText` with comments in it. -/
def commentedText : String := "setTimeout(/*é*/(/**/) => é.m/**/(/**/x), /**/5)"

/-- The tree of `commentedText`. -/
def commentedTree : Node :=
  callTree 10 50
    [.part .comment 11 17 none [],
      .part .arrowFunction 17 42 none
        [.part ⟨"formal_parameters"⟩ 17 23 (some .parameters) [.part .comment 18 22 none []],
          .part .call 27 42 (some .body)
            [.part .member 27 31 (some .function)
              [.part .identifier 27 29 (some .object) [],
                .part .propertyIdentifier 30 31 (some .property) []],
              .part .comment 31 35 none [],
              .part .arguments 35 42 (some .arguments)
                [.part .comment 36 40 none [], .part .identifier 40 41 none []]]],
      .part .comment 44 48 none [],
      .part ⟨"number"⟩ 48 49 none []]

/-- The scheduler call is found and written anew in the same way, with comments in the parameter
list, in the forwarded call and in both argument lists. -/
theorem comments_transparent_delayed :
    let o : Options := ⟨true, ["on"], false⟩
    let p := delayedTree.places.get ⟨4, by decide⟩
    let p' := commentedTree.places.get ⟨5, by decide⟩
    delayedTree.TakesComments (fun _ _ => True) commentedTree ∧ p.Alike (fun _ _ => True) p' ∧
      p.KeepsTexts (.ofText delayedText) (.ofText commentedText) p' ∧
      p.KeepsReadable (.ofText delayedText) (.ofText commentedText) p' ∧
      (check o (.ofText delayedText) p).toOption.join.map (fun hit => hit.finding.replacement) =
        some "setTimeout(é.m.bind(é), 5, x)" ∧
      ∃ hit, check o (.ofText commentedText) p' = .ok (some hit) ∧
        hit.finding.replacement = "setTimeout(é.m.bind(é), 5, x)" := by
  intro o p p'
  have htree : delayedTree.TakesComments (fun _ _ => True) commentedTree := by
    refine ⟨rfl, .intro rfl rfl trivial ?_⟩
    repeat' first
      | exact .nil
      | refine .comment rfl rfl ?_
      | refine .cons rfl (.intro rfl rfl trivial ?_) ?_
  have halike : p.Alike (fun _ _ => True) p' := by
    -- above the closure stand the argument list, the call and the program
    refine .below (.below (.below (.root htree.alike) ⟨rfl, rfl, rfl, ?_, ?_⟩
      (.intro rfl rfl trivial ?_)) ⟨rfl, rfl, rfl, ?_, ?_⟩ (.intro rfl rfl trivial ?_))
      ⟨rfl, rfl, rfl, ?_, ?_⟩ (.intro rfl rfl trivial ?_)
    repeat' first
      | exact .nil
      | refine .comment rfl rfl ?_
      | refine .cons rfl (.intro rfl rfl trivial ?_) ?_
  have hsite : p.IsArgument _ := .intro [] _ _ _ rfl (by decide) rfl rfl rfl
  have hsite' : p'.IsArgument _ := .intro [] _ _ _ rfl (by decide) rfl rfl rfl
  have hforwarded : p.node.forwardedCall? true = some (⟨.expression, false⟩,
      ⟨.part .identifier 17 19 (some .object) [],
        .part .propertyIdentifier 20 21 (some .property) [],
        [.part .identifier 22 23 none []]⟩) := rfl
  have hforwarded' : p'.node.forwardedCall? true = some (⟨.expression, false⟩,
      ⟨.part .identifier 27 29 (some .object) [],
        .part .propertyIdentifier 30 31 (some .property) [],
        [.part .identifier 40 41 none []]⟩) := rfl
  have htexts : p.KeepsTexts (.ofText delayedText) (.ofText commentedText) p' := by
    constructor
    · intro form form' m m' hm hm'
      rw [← Node.forwardedCall?_eq_some_iff] at hm hm'
      cases hforwarded.symm.trans hm
      cases hforwarded'.symm.trans hm'
      refine ⟨by decide +kernel, by decide +kernel, ?_⟩
      intro a a' ha
      cases List.mem_singleton.1 ha
      decide +kernel
    · intro site site' hs hs' c c' hc hc'
      obtain rfl := hsite.unique hs
      obtain rfl := hsite'.unique hs'
      cases hc
      cases hc'
      decide +kernel
    · intro site site' hs hs' _ d d' hd hd'
      obtain rfl := hsite.unique hs
      obtain rfl := hsite'.unique hs'
      cases hd
      cases hd'
      decide +kernel
  have halign : delayedTree.Aligned delayedText := by decide +kernel
  have halign' : commentedTree.Aligned commentedText := by decide +kernel
  have hreplacement : (check o (.ofText delayedText) p).toOption.join.map
      (fun hit => hit.finding.replacement) = some "setTimeout(é.m.bind(é), 5, x)" := by
    decide +kernel
  obtain ⟨hit, hcheck⟩ : ∃ hit, check o (.ofText delayedText) p = .ok (some hit) :=
    exists_hit (by decide +kernel)
  obtain ⟨-, hcounterpart⟩ := comments_transparent _ _ _ htree p (List.get_mem _ _)
  obtain ⟨hanalysis, -, haligned⟩ := hcounterpart p' (List.get_mem _ _) halike
  have hreadable := haligned _ _ halign halign'
  obtain ⟨-, -, -, -, hrel⟩ := hanalysis _ _ htexts
  obtain ⟨hit', hcheck', hsame⟩ := Hit.exists_of_rel (hrel hreadable o) hcheck
  refine ⟨htree, halike, htexts, hreadable, hreplacement, hit', hcheck', hsame.trans ?_⟩
  rw [hcheck] at hreplacement
  exact Option.some.inj hreplacement

end BindLint
