import BindLint.Proofs.Forwarded
import BindLint.Proofs.Surroundings

/-!
# Parentheses around a closure

Parentheses around an argument do not change what is passed.  So a closure may be put into any
number of further parentheses: the climb to its call goes through them, and from there on it meets
the same ancestors as before.  The call keeps its name, the closure its index, and a timer position
its delay, and the rule answers as it did.

The other nodes move in the text when parentheses are put in, and the ancestors grow.  What stays is
the text of every node beside the closure and in it.

## Main definitions

* `Place.Wrapped` — a node and the same node in further parentheses.

## Main results

* `Place.wrapped_of_isParens` — every node can be put into any number of parentheses.
* `Place.Wrapped.rel_callSite?` — the call site is found through the parentheses.
* `parentheses_transparent` — **parentheses around a closure are transparent.**
-/

namespace BindLint

/-! ### Further parentheses -/

/-- A pair of parentheses around what stands in the hole. -/
def Frame.IsParens (f : Frame) : Prop := f.label.kind = .parenthesized ∧ f.label.named = true

instance (f : Frame) : Decidable f.IsParens :=
  inferInstanceAs (Decidable (f.label.kind = .parenthesized ∧ f.label.named = true))

theorem Node.isSignificant_of_isClosure {n : Node} (h : n.isClosure = true) :
    n.isSignificant = true := by
  obtain ⟨hnamed, hkind⟩ := isClosure_iff.1 h
  rw [isSignificant, hnamed]
  rcases hkind with hkind | hkind
  · rw [hkind]
    decide
  · rw [hkind]
    decide

namespace Place

/-- The second place is that of the same node in a tree where it stands in further parentheses:
spans apart, the trees differ in these layers only, and in comments around the node.  All nodes
but the ancestors have the same text; an ancestor can be read before exactly if it can be read
after. -/
structure Wrapped (src src' : Source) (layers : List Frame) (p p' : Place) : Prop where
  /-- The node has the same text, and so has every node in it. -/
  node : p.node.Alike (SameText src src') p'.node
  /-- Above the layers stand the same ancestors. -/
  above : ∃ fs, p'.above = layers ++ fs ∧ List.Forall₂ (Frame.Alike (SameText src src')) p.above fs
  /-- The layers are parentheses. -/
  parens : ∀ f ∈ layers, f.IsParens
  /-- Ancestors can be read in both trees, or in none. -/
  readable : ∀ a a', SameAncestor layers.length p p' a a' → SameReadable src src' a a'

theorem isSignificant_rootOf {n : Node} {fs : List Frame} (hn : n.isSignificant = true)
    (hfs : ∀ f ∈ fs, f.IsParens) : (rootOf n fs).isSignificant = true := by
  induction fs generalizing n with
  | nil => exact hn
  | cons f fs ih =>
    obtain ⟨hkind, hnamed⟩ := hfs f List.mem_cons_self
    have hfill : (f.fill n).isSignificant = true := by
      rw [f.isSignificant_fill, hkind, hnamed]
      decide
    exact ih hfill fun g hg => hfs g (List.mem_cons_of_mem f hg)

variable {src src' : Source} {layers : List Frame} {p p' : Place}

/-- The climb goes through the layers, and from there on both climbs are alike. -/
theorem Wrapped.rel_callSite? (h : Wrapped src src' layers p p')
    (hp : p.node.isSignificant = true) :
    Option.Rel
      (fun site site' => site.Alike (SameText src src') site' ∧
        SameAncestor layers.length p p' site.call site'.call)
      p.callSite? p'.callSite? := by
  obtain ⟨fs, habove, hfs⟩ := h.above
  have hclimb : p'.callSite? = callSite? ⟨rootOf p'.node layers, fs⟩ := by
    rw [callSite?, callSite?, habove, outOfParens_append fun f hf => (h.parens f hf).1]
  have hsig : (rootOf p'.node layers).isSignificant = p.node.isSignificant := by
    rw [hp]
    exact isSignificant_rootOf (h.node.isSignificant_eq.trans hp) h.parens
  rw [hclimb]
  refine rel_mono (Place.rel_callSite? hfs hsig) ?_
  rintro site site' ⟨halike, i, hi, hcall, hcall'⟩
  refine ⟨halike, i, hi, hcall, ?_⟩
  rw [hcall', habove, Nat.zero_add, List.take_length_add_append, rootOf_append]

/-- An ancestor says the same about itself, whatever stands at the bottom. -/
theorem label_rootOf (n n' : Node) {fs : List Frame} (hfs : fs ≠ []) :
    (rootOf n fs).label = (rootOf n' fs).label := by
  induction fs generalizing n n' with
  | nil => exact absurd rfl hfs
  | cons f fs ih =>
    cases fs with
    | nil => rfl
    | cons g fs => exact ih _ _ (List.cons_ne_nil g fs)

/-- A node can be put into any number of parentheses, with all spans as they are. -/
theorem wrapped_of_isParens (src : Source) (p : Place) (hlayers : ∀ f ∈ layers, f.IsParens) :
    Wrapped src src layers p ⟨p.node, layers ++ p.above⟩ := by
  have hrefl : ∀ n : Node, SameText src src n n := fun _ => rfl
  refine ⟨.refl hrefl p.node, ⟨p.above, rfl, ?_⟩, hlayers, ?_⟩
  · rw [List.forall₂_same]
    intro f _
    exact ⟨rfl, rfl, rfl, Node.Alike.refl_children hrefl _, Node.Alike.refl_children hrefl _⟩
  · rintro a a' ⟨i, hi, rfl, rfl⟩
    have hne : p.above.take (i + 1) ≠ [] := by
      apply List.ne_nil_of_length_pos
      rw [List.length_take]
      omega
    have hlabel := label_rootOf (rootOf p.node layers) p.node hne
    apply SameText.sameReadable
    rw [List.take_length_add_append, rootOf_append]
    exact congrArg (fun l => src.read l.span) hlabel

/-- In aligned trees every ancestor can be read. -/
theorem sameReadable_of_aligned {tree tree' : Node} {text text' : String}
    (halign : tree.Aligned text) (halign' : tree'.Aligned text') (hp : p ∈ tree.places)
    (hp' : p' ∈ tree'.places) {k : Nat} {a a' : Node} (h : SameAncestor k p p' a a') :
    SameReadable (.ofText text) (.ofText text') a a' := by
  have hwithin : ∀ (q : Place) (j : Nat), (rootOf q.node (q.above.take j)).Within q.root := by
    intro q j
    rw [root, ← List.take_append_drop j q.above, rootOf_append, List.take_append_drop]
    exact within_rootOf _ _
  obtain ⟨i, -, rfl, rfl⟩ := h
  refine iff_of_true (halign.exists_text ?_) (halign'.exists_text ?_)
  · rw [← root_of_mem_places hp]
    exact hwithin p _
  · rw [← root_of_mem_places hp']
    exact hwithin p' _

/-- A closure in the argument list of a call, in parentheses or not, is passed to the call. -/
theorem exists_callSite_of_above (hp : p.node.isSignificant = true) {parens rest : List Frame}
    {list call : Frame} (habove : p.above = parens ++ list :: call :: rest)
    (hparens : ∀ f ∈ parens, f.IsParens) (hlist : list.label.kind = .arguments)
    (hcall : call.label.kind = .call) :
    ∃ site, p.callSite? = some site ∧
      site.call = call.fill (list.fill (rootOf p.node parens)) ∧
      site.index = (list.before.filter Node.isSignificant).length ∧
      site.arguments = list.before.reverse.filter Node.isSignificant ++
        rootOf p.node parens :: list.after.filter Node.isSignificant := by
  have hsig := isSignificant_rootOf hp hparens
  refine ⟨_, callSite?_eq_some_iff.2 (.intro parens list call rest habove
    (fun f hf => (hparens f hf).1) hlist hcall hsig), rfl, rfl, ?_⟩
  exact list.significantChildren_fill hsig

end Place

/-- **Parentheses around a closure are transparent.**  A closure can be put into any number of
further parentheses.  It is then passed to the same call or still to none, under the same name, at
the same index and among as many arguments; its timer position is the same; and the rule reports it
or not as before, with the same replacement.  A closure in the argument list of a call, in
parentheses or not, always has an index: as many significant arguments stand before it. -/
theorem parentheses_transparent (o : Options) (src : Source) (p : Place)
    (hclosure : p.node.isClosure = true) :
    (∀ layers, (∀ f ∈ layers, f.IsParens) →
      Place.Wrapped src src layers p ⟨p.node, layers ++ p.above⟩) ∧
    (∀ src' layers p', Place.Wrapped src src' layers p p' →
      Option.Rel
          (fun site site' => Place.SameAncestor layers.length p p' site.call site'.call ∧
            site'.call.calleeName src' = site.call.calleeName src ∧ site'.index = site.index ∧
            site'.arguments.length = site.arguments.length)
          p.callSite? p'.callSite? ∧
        Option.Rel (Placement.Alike (Place.SameAncestor layers.length p p'))
          (Placement.read src p).toOption (Placement.read src' p').toOption ∧
        Option.Rel (Option.Rel Hit.SameReplacement) (check o src p).toOption
          (check o src' p').toOption) ∧
    ∀ parens list call rest, p.above = parens ++ list :: call :: rest →
      (∀ f ∈ parens, f.IsParens) → list.label.kind = .arguments → call.label.kind = .call →
      ∃ site, p.callSite? = some site ∧
        site.call = call.fill (list.fill (Place.rootOf p.node parens)) ∧
        site.index = (list.before.filter Node.isSignificant).length ∧
        site.arguments = list.before.reverse.filter Node.isSignificant ++
          Place.rootOf p.node parens :: list.after.filter Node.isSignificant := by
  have hp := Node.isSignificant_of_isClosure hclosure
  refine ⟨fun layers hlayers => Place.wrapped_of_isParens src p hlayers, fun src' layers p' h => ?_,
    fun parens list call rest habove hparens hlist hcall =>
      Place.exists_callSite_of_above hp habove hparens hlist hcall⟩
  have hsite := h.rel_callSite? hp
  have hread := Placement.rel_read (fun _ _ hn => hn) hsite
  refine ⟨rel_mono hsite ?_, hread, ?_⟩
  · rintro site site' ⟨halike, hcall⟩
    exact ⟨hcall, halike.calleeName_eq fun _ _ hn => hn, halike.index, halike.length⟩
  · have hmatch := h.node.matchClosure_eq o.includeAsync fun _ _ hn => hn
    refine rel_check o hmatch (rel_mono hread ?_) h.node.rel.sameReadable
    intro pl pl' hpl
    exact ⟨hpl.callee, rel_mono hpl.timer fun t t' ht =>
      ⟨ht.scheduler, ht.delay, h.readable _ _ ht.call⟩⟩

/-- A scheduler call with a delay, whose closure forwards an argument. -/
def delayedText : String := "setTimeout(() => é.m(x), 5)"

/-- The tree of `delayedText`. -/
def delayedTree : Node :=
  callTree 10 28
    [forwardingTree 11 24 .identifier ⟨17, 19⟩ 20 [.part .identifier 22 23 none []],
      .part ⟨"number"⟩ 26 27 none []]

/-- The call of `delayedText` with its closure in two more pairs of parentheses. -/
def parenthesizedText : String := "setTimeout(((() => é.m(x))), 5)"

/-- The tree of `parenthesizedText`. -/
def parenthesizedTree : Node :=
  callTree 10 32
    [.part .parenthesized 11 28 none
      [.part .parenthesized 12 27 none
        [forwardingTree 13 26 .identifier ⟨19, 21⟩ 22 [.part .identifier 24 25 none []]]],
      .part ⟨"number"⟩ 30 31 none []]

/-- The scheduler call is found through both pairs of parentheses, and written anew in the same
way. -/
theorem parentheses_transparent_delayed :
    let o : Options := ⟨true, ["on"], false⟩
    let p := delayedTree.places.get ⟨4, by decide⟩
    let p' := parenthesizedTree.places.get ⟨6, by decide⟩
    p.node.isClosure = true ∧
      Place.Wrapped (.ofText delayedText) (.ofText parenthesizedText) (p'.above.take 2) p p' ∧
      (check o (.ofText delayedText) p).toOption.join.map (fun hit => hit.finding.replacement) =
        some "setTimeout(é.m.bind(é), 5, x)" ∧
      ∃ hit, (check o (.ofText parenthesizedText) p').toOption = some (some hit) ∧
        hit.finding.replacement = "setTimeout(é.m.bind(é), 5, x)" := by
  intro o p p'
  have hclosure : p.node.isClosure = true := by decide
  have halign : delayedTree.Aligned delayedText := by decide +kernel
  have halign' : parenthesizedTree.Aligned parenthesizedText := by decide +kernel
  have hwrapped :
      Place.Wrapped (.ofText delayedText) (.ofText parenthesizedText) (p'.above.take 2) p p' := by
    -- above the closure stand the argument list, the call and the program
    refine ⟨.intro rfl rfl (by decide +kernel) ?_, ⟨p'.above.drop 2,
      (List.take_append_drop 2 _).symm, .cons ⟨rfl, rfl, rfl, ?_, ?_⟩ (.cons ⟨rfl, rfl, rfl, ?_, ?_⟩
        (.cons ⟨rfl, rfl, rfl, ?_, ?_⟩ .nil))⟩, by decide, fun a a' h =>
      Place.sameReadable_of_aligned halign halign' (List.get_mem _ _) (List.get_mem _ _) h⟩
    repeat' first
      | exact .nil
      | refine .cons rfl (.intro rfl rfl (by decide +kernel) ?_) ?_
  have hreplacement : (check o (.ofText delayedText) p).toOption.join.map
      (fun hit => hit.finding.replacement) = some "setTimeout(é.m.bind(é), 5, x)" := by
    decide +kernel
  obtain ⟨hit, hcheck⟩ : ∃ hit, check o (.ofText delayedText) p = .ok (some hit) :=
    exists_hit (by decide +kernel)
  obtain ⟨-, -, hrel⟩ :=
    (parentheses_transparent o (.ofText delayedText) p hclosure).2.1 _ _ p' hwrapped
  refine ⟨hclosure, hwrapped, hreplacement, ?_⟩
  rw [hcheck] at hrel hreplacement
  generalize (check o (.ofText parenthesizedText) p').toOption = answer at hrel
  cases hrel with
  | some hhit =>
    cases hhit with
    | some hsame => exact ⟨_, rfl, hsame.trans (Option.some.inj hreplacement)⟩

end BindLint
