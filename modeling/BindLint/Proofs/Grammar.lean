import BindLint.Proofs.Reportable

/-!
# The grammar of forwarding closures

Recognition takes a closure apart step by step and gives up as soon as a step fails.  Here
the closures that forward are described by a grammar instead, read off the tree from the
outside in:

    closure     ::=  arrow function or function expression, without parameters, with a body
    body        ::=  expression  |  block of one statement of one expression
    expression  ::=  call  |  await call  |  ( expression )
    call        ::=  receiver . property ( arguments )

Comments and tokens count nowhere, parentheses may stand any number of times around an
expression and around what is awaited, and no mark `?.` stands in the call or in its access.
Recognition accepts exactly these closures; what it reads of them are the texts of the
receiver, the property and the arguments.

## Main definitions

* `Node.Wraps` — an expression in any number of parentheses.
* `Node.ComesTo` — the call that an expression is or awaits.
* `Node.Holds` — the expression that a body consists of.
* `Node.CallsMethod` — the parts of the call of a method.
* `Node.Forwards` — a closure that forwards to the call of a method.

## Main results

* `Node.unwrap_eq_iff` — the loop through the parentheses finds what they wrap.
* `Node.forwardedCall?_eq_some_iff` — the steps of recognition find what is forwarded to.
* `matchClosure_iff_forwards` — **recognition accepts exactly the grammar.**
-/

namespace BindLint
namespace Node

/-! ### Parentheses -/

/-- The first node is the second one in any number of parentheses, each of which holds
nothing else that is significant. -/
inductive Wraps : Node → Node → Prop where
  /-- Without parentheses. -/
  | refl (e : Node) : Wraps e e
  /-- With one more pair. -/
  | paren {p inner e : Node} (hkind : p.kind = .parenthesized)
      (hsole : p.significantChildren = [inner]) (h : Wraps inner e) : Wraps p e

theorem soleChild?_eq_some_iff {n c : Node} :
    n.soleChild? = some c ↔ n.significantChildren = [c] := by
  unfold soleChild?
  split
  · next d hd =>
    rw [hd]
    simp
  · next hnot =>
    constructor
    · intro h
      cases h
    · intro h
      exact absurd h (hnot c)

mutual

/-- A node wraps what the loop through the parentheses comes to. -/
theorem wraps_unwrap (n : Node) : n.Wraps n.unwrap := by
  cases n with
  | mk l cs =>
    rw [unwrap]
    split
    · next hkind =>
      cases h : unwrapSole? cs with
      | none => exact .refl _
      | some m =>
        obtain ⟨c, hsole, hc⟩ := wraps_of_unwrapSole? cs m h
        exact .paren hkind hsole hc
    · exact .refl _

theorem wraps_of_unwrapSole? (cs : List Node) :
    ∀ m, unwrapSole? cs = some m → ∃ c, cs.filter isSignificant = [c] ∧ c.Wraps m := by
  cases cs with
  | nil => simp [unwrapSole?]
  | cons c cs =>
    intro m hm
    rw [unwrapSole?] at hm
    split at hm
    · next hc =>
      split at hm
      · cases hm
      · next hcs =>
        cases hm
        have hnone : cs.filter isSignificant = [] := by simpa using hcs
        exact ⟨c, by rw [List.filter_cons_of_pos hc, hnone], wraps_unwrap c⟩
    · next hc =>
      obtain ⟨d, hd, h⟩ := wraps_of_unwrapSole? cs m hm
      exact ⟨d, by rw [List.filter_cons_of_neg hc, hd], h⟩

end

/-- The loop through the parentheses comes to what they wrap, if that is no parenthesis. -/
theorem unwrap_eq_iff {n e : Node} (he : e.kind ≠ .parenthesized) : n.unwrap = e ↔ n.Wraps e := by
  constructor
  · rintro rfl
    exact wraps_unwrap n
  · intro h
    induction h with
    | refl => exact unwrap_of_ne he
    | paren hkind hsole _ ih =>
      rw [unwrap_of_sole hkind (soleChild?_eq_some_iff.2 hsole), ih he]

/-! ### Expressions and bodies -/

/-- The call that an expression is or awaits, in any number of parentheses. -/
inductive ComesTo (e : Node) : Bool → Node → Prop where
  /-- The expression is the call. -/
  | direct {call : Node} (hcall : call.kind = .call) (h : e.Wraps call) : ComesTo e false call
  /-- The expression awaits the call. -/
  | awaited {a operand call : Node} (hawait : a.kind = .await) (h : e.Wraps a)
      (hsole : a.significantChildren = [operand]) (hcall : call.kind = .call)
      (hoperand : operand.Wraps call) : ComesTo e true call

theorem ComesTo.kind_eq {e call : Node} {awaited : Bool} (h : e.ComesTo awaited call) :
    call.kind = .call := by
  cases h with
  | direct hcall => exact hcall
  | awaited _ _ _ hcall => exact hcall

theorem call_ne_parenthesized : Kind.call ≠ .parenthesized := by decide

theorem await_ne_parenthesized : Kind.await ≠ .parenthesized := by decide

theorem await_ne_call : Kind.await ≠ .call := by decide

theorem unwrap_eq_of_kind {n e : Node} {kind : Kind} (hkind : kind ≠ .parenthesized)
    (he : e.kind = kind) (h : n.Wraps e) : n.unwrap = e :=
  (unwrap_eq_iff (he ▸ hkind)).2 h

/-- The step through an expression finds the call that it comes to. -/
theorem forwarding?_eq_some_iff {body : BodyKind} {e : Node} {f : Forwarding} :
    e.forwarding? body = some f ↔ f.form.body = body ∧ e.ComesTo f.form.awaited f.call := by
  constructor
  · intro h
    unfold forwarding? at h
    split at h
    · next hcall =>
      cases h
      exact ⟨rfl, .direct hcall (wraps_unwrap e)⟩
    · split at h
      · next hawait =>
        split at h
        · next operand hsole =>
          split at h
          · next hcall =>
            cases h
            exact ⟨rfl, .awaited hawait (wraps_unwrap e) (soleChild?_eq_some_iff.1 hsole) hcall
              (wraps_unwrap operand)⟩
          · cases h
        · cases h
      · cases h
  · obtain ⟨⟨body', awaited⟩, call⟩ := f
    rintro ⟨rfl, h⟩
    cases h with
    | direct hcall h =>
      have hunwrap := unwrap_eq_of_kind call_ne_parenthesized hcall h
      rw [forwarding?, hunwrap, if_pos hcall]
    | awaited hawait h hsole hcall hoperand =>
      have hunwrap := unwrap_eq_of_kind await_ne_parenthesized hawait h
      have hinner := unwrap_eq_of_kind call_ne_parenthesized hcall hoperand
      rw [forwarding?, hunwrap, if_neg (hawait ▸ await_ne_call), if_pos hawait,
        soleChild?_eq_some_iff.2 hsole]
      simp only [hinner, if_pos hcall]

/-- The expression that a body consists of: the body itself, or the one expression of the
one statement of a block. -/
inductive Holds (body : Node) : BodyKind → Node → Prop where
  /-- The body is the expression. -/
  | expression : Holds body .expression body
  /-- The body is a block of one statement. -/
  | block {statement e : Node} (hblock : body.kind = .statementBlock)
      (hsole : body.significantChildren = [statement])
      (hstatement : statement.kind = .expressionStatement)
      (he : statement.significantChildren = [e]) : Holds body .block e

theorem soleExpression?_eq_some_iff {body e : Node} :
    body.soleExpression? = some e ↔
      ∃ statement, body.significantChildren = [statement] ∧
        statement.kind = .expressionStatement ∧ statement.significantChildren = [e] := by
  unfold soleExpression?
  cases hsole : body.soleChild? with
  | none =>
    refine iff_of_false (by simp) ?_
    rintro ⟨statement, h, -⟩
    rw [soleChild?_eq_some_iff.2 h] at hsole
    cases hsole
  | some statement =>
    rw [soleChild?_eq_some_iff.1 hsole]
    simp only [List.cons.injEq, and_true, exists_eq_left', ← soleChild?_eq_some_iff]
    split
    · next hkind => simp [hkind]
    · next hkind => simp [hkind]

/-- What comes to a call is no block. -/
theorem ComesTo.kind_ne_statementBlock {e call : Node} {awaited : Bool}
    (h : e.ComesTo awaited call) : e.kind ≠ .statementBlock := by
  have hwraps : ∀ {n m : Node}, n.Wraps m → m.kind ≠ .statementBlock →
      n.kind ≠ .statementBlock := by
    intro n m hnm hm
    cases hnm with
    | refl => exact hm
    | paren hkind => rw [hkind]; decide
  cases h with
  | direct hcall h => exact hwraps h (by rw [hcall]; decide)
  | awaited hawait h => exact hwraps h (by rw [hawait]; decide)

end Node

/-- The step through a body finds the call that its expression comes to. -/
theorem Candidate.forwarding?_eq_some_iff {c : Candidate} {f : Forwarding} :
    c.forwarding? = some f ↔
      ∃ e, c.body.Holds f.form.body e ∧ e.ComesTo f.form.awaited f.call := by
  obtain ⟨⟨kind, awaited⟩, call⟩ := f
  unfold forwarding? bodyKind
  by_cases hblock : c.body.kind = .statementBlock
  · simp only [hblock, if_true, Option.bind_eq_some_iff, Node.soleExpression?_eq_some_iff,
      Node.forwarding?_eq_some_iff]
    constructor
    · rintro ⟨e, ⟨statement, hsole, hstatement, he⟩, rfl, hcomes⟩
      exact ⟨e, .block hblock hsole hstatement he, hcomes⟩
    · rintro ⟨e, hholds, hcomes⟩
      cases hholds with
      | expression => exact absurd hblock hcomes.kind_ne_statementBlock
      | block _ hsole hstatement he => exact ⟨e, ⟨_, hsole, hstatement, he⟩, rfl, hcomes⟩
  · simp only [if_neg hblock, Node.forwarding?_eq_some_iff]
    constructor
    · rintro ⟨rfl, hcomes⟩
      exact ⟨c.body, .expression, hcomes⟩
    · rintro ⟨e, hholds, hcomes⟩
      cases hholds with
      | expression => exact ⟨rfl, hcomes⟩
      | block hkind => exact absurd hkind hblock

namespace Node

/-! ### Calls of methods -/

/-- No mark `?.` stands directly in a node. -/
def Unchained (n : Node) : Prop :=
  ∀ c ∈ n.children, c.field ≠ some .optionalChain ∧ c.kind ≠ .optionalChain

/-- A node calls a method on a receiver, by a plain access and with a list of arguments. -/
structure CallsMethod (call : Node) (m : MethodCall) : Prop where
  /-- The arguments are those of an argument list. -/
  arguments : ∃ list, call.child? .arguments = some list ∧ list.kind = .arguments ∧
    list.significantChildren = m.arguments
  /-- What is called is the property of the receiver. -/
  access : ∃ callee, call.child? .function = some callee ∧ callee.kind = .member ∧
    callee.child? .object = some m.receiver ∧ callee.child? .property = some m.property ∧
    callee.Unchained
  /-- The receiver is not `super`. -/
  receiver : m.receiver.kind ≠ .super
  /-- The property is a plain name. -/
  property : m.property.kind = .propertyIdentifier
  /-- The call is not an optional one. -/
  unchained : call.Unchained

theorem hasOptionalChain_eq_false_iff {n : Node} :
    n.hasOptionalChain = false ↔ n.Unchained := by
  simp [hasOptionalChain, Unchained]

theorem plainAccess?_eq_some_iff {callee receiver property : Node} :
    callee.plainAccess? = some (receiver, property) ↔
      callee.kind = .member ∧ callee.child? .object = some receiver ∧
        callee.child? .property = some property ∧ callee.Unchained ∧
        receiver.kind ≠ .super ∧ property.kind = .propertyIdentifier := by
  rw [← hasOptionalChain_eq_false_iff]
  unfold plainAccess?
  constructor
  · intro h
    split at h
    · next hcallee =>
      split at h
      · next r p hr hp =>
        split at h
        · next hparts =>
          cases h
          simp only [Bool.and_eq_true, decide_eq_true_eq, Bool.not_eq_true'] at hcallee hparts
          exact ⟨hcallee.1, hr, hp, hcallee.2, hparts.2, hparts.1⟩
        · cases h
      · cases h
    · cases h
  · rintro ⟨hmember, hr, hp, hchain, hsuper, hproperty⟩
    simp [hmember, hr, hp, hchain, hsuper, hproperty]

/-- The step through a call finds the parts of the call of a method. -/
theorem methodCall?_eq_some_iff {call : Node} {m : MethodCall} :
    call.methodCall? = some m ↔ call.CallsMethod m := by
  obtain ⟨receiver, property, arguments⟩ := m
  unfold methodCall?
  constructor
  · intro h
    split at h
    · next list callee hlist hcallee =>
      split at h
      · next hcall =>
        obtain ⟨⟨r, p⟩, hplain, hparts⟩ := Option.map_eq_some_iff.1 h
        cases hparts
        simp only [Bool.and_eq_true, decide_eq_true_eq, Bool.not_eq_true'] at hcall
        obtain ⟨hmember, hr, hp, hchain, hsuper, hproperty⟩ := plainAccess?_eq_some_iff.1 hplain
        exact
          { arguments := ⟨list, hlist, hcall.1, rfl⟩
            access := ⟨callee, hcallee, hmember, hr, hp, hchain⟩
            receiver := hsuper
            property := hproperty
            unchained := hasOptionalChain_eq_false_iff.1 hcall.2 }
      · cases h
    · cases h
  · rintro ⟨⟨list, hlist, hkind, rfl⟩, ⟨callee, hcallee, hmember, hr, hp, hchain⟩, hsuper,
      hproperty, hunchained⟩
    have hplain : callee.plainAccess? = some (receiver, property) :=
      plainAccess?_eq_some_iff.2 ⟨hmember, hr, hp, hchain, hsuper, hproperty⟩
    simp [hlist, hcallee, hkind, hasOptionalChain_eq_false_iff.2 hunchained, hplain]

/-! ### Closures -/

/-- A closure forwards to the call of a method, which stands in it in some form. -/
structure Forwards (includeAsync : Bool) (n : Node) (form : Form) (m : MethodCall) : Prop where
  /-- It is an arrow function other than `x => e`, or a function expression that is no
  generator. -/
  closure : (n.kind = .arrowFunction ∧ n.child? .parameter = none) ∨
    (n.kind = .functionExpression ∧ ∀ c ∈ n.children, c.kind = .star → c.named = true)
  /-- Its parameter list is empty, if it has one. -/
  parameters : ∀ list, n.child? .parameters = some list → list.significantChildren = []
  /-- It is not marked `async`, unless such closures are included. -/
  async : (∀ c ∈ n.children, c.kind = .async → c.named = true) ∨ includeAsync = true
  /-- Its body comes down to the call. -/
  body : ∃ body e call, n.child? .body = some body ∧ body.Holds form.body e ∧
    e.ComesTo form.awaited call ∧ call.CallsMethod m

theorem hasToken_eq_false_iff {n : Node} {token : Kind} :
    n.hasToken token = false ↔ ∀ c ∈ n.children, c.kind = token → c.named = true := by
  simp only [hasToken, List.any_eq_false, Bool.and_eq_true, Bool.not_eq_true', decide_eq_true_eq]
  constructor
  · intro h c hc hkind
    by_contra hnamed
    exact h c hc ⟨Bool.eq_false_iff.2 hnamed, hkind⟩
  · rintro h c hc ⟨hnamed, hkind⟩
    rw [h c hc hkind] at hnamed
    cases hnamed

theorem isPlainClosure_iff {n : Node} :
    n.isPlainClosure = true ↔
      (n.kind = .arrowFunction ∧ n.child? .parameter = none) ∨
        (n.kind = .functionExpression ∧ ∀ c ∈ n.children, c.kind = .star → c.named = true) := by
  rw [← hasToken_eq_false_iff]
  unfold isPlainClosure
  by_cases harrow : n.kind = .arrowFunction
  · have hne : Kind.arrowFunction ≠ .functionExpression := by decide
    simp [harrow, hne]
  · simp [harrow]

theorem takesNothing_iff {n : Node} :
    n.takesNothing = true ↔
      ∀ list, n.child? .parameters = some list → list.significantChildren = [] := by
  unfold takesNothing
  cases n.child? .parameters <;> simp

/-- The step through the closure itself finds its body and whether it is marked `async`. -/
theorem candidate?_eq_some_iff {n : Node} {c : Candidate} :
    n.candidate? = some c ↔
      (n.isPlainClosure = true ∧ n.takesNothing = true) ∧
        n.child? .body = some c.body ∧ c.isAsync = n.hasToken .async := by
  unfold candidate?
  by_cases hplain : n.isPlainClosure = true ∧ n.takesNothing = true
  · rw [if_pos (Bool.and_eq_true_iff.2 hplain)]
    simp only [hplain, and_self, true_and, Option.map_eq_some_iff]
    constructor
    · rintro ⟨body, hbody, rfl⟩
      exact ⟨hbody, rfl⟩
    · rintro ⟨hbody, hasync⟩
      exact ⟨c.body, hbody, by rw [← hasync]⟩
  · rw [if_neg fun h => hplain (Bool.and_eq_true_iff.1 h)]
    exact iff_of_false (by simp) fun h => hplain h.1

/-- The steps of recognition find the call that a closure forwards to. -/
theorem forwardedCall?_eq_some_iff {includeAsync : Bool} {n : Node} {form : Form}
    {m : MethodCall} :
    n.forwardedCall? includeAsync = some (form, m) ↔ n.Forwards includeAsync form m := by
  unfold forwardedCall?
  constructor
  · intro h
    split at h
    · cases h
    · next c hc =>
      obtain ⟨⟨hplain, hnothing⟩, hbody, hasync⟩ := candidate?_eq_some_iff.1 hc
      split at h
      · cases h
      · next hcounts =>
        obtain ⟨f, hf, hm⟩ := Option.bind_eq_some_iff.1 h
        obtain ⟨m', hm', heq⟩ := Option.map_eq_some_iff.1 hm
        cases heq
        obtain ⟨e, hholds, hcomes⟩ := Candidate.forwarding?_eq_some_iff.1 hf
        refine
          { closure := isPlainClosure_iff.1 hplain
            parameters := takesNothing_iff.1 hnothing
            async := ?_
            body := ⟨c.body, e, f.call, hbody, hholds, hcomes, methodCall?_eq_some_iff.1 hm'⟩ }
        rw [← hasToken_eq_false_iff, ← hasync]
        cases hmark : c.isAsync with
        | false => exact Or.inl rfl
        | true => exact Or.inr (by simpa [hmark] using hcounts)
  · rintro ⟨hclosure, hparameters, hasync, body, e, call, hbody, hholds, hcomes, hm⟩
    have hc : n.candidate? = some ⟨body, n.hasToken .async⟩ :=
      candidate?_eq_some_iff.2
        ⟨⟨isPlainClosure_iff.2 hclosure, takesNothing_iff.2 hparameters⟩, hbody, rfl⟩
    have hf : Candidate.forwarding? ⟨body, n.hasToken .async⟩ = some ⟨form, call⟩ :=
      Candidate.forwarding?_eq_some_iff.2 ⟨e, hholds, hcomes⟩
    have hcounts : ¬(n.hasToken .async && !includeAsync) = true := by
      rw [← hasToken_eq_false_iff] at hasync
      rcases hasync with hasync | hasync <;> simp [hasync]
    simp only [hc, if_neg hcounts, hf, Option.bind_some, methodCall?_eq_some_iff.2 hm,
      Option.map_some]

end Node

/-! ### Texts -/

/-- The texts of a shape are those of the parts of a method call. -/
structure MethodCall.SpelledAs (m : MethodCall) (src : Source) (s : Shape) : Prop where
  /-- The text of the receiver. -/
  receiver : m.receiver.text src = .ok s.receiver
  /-- The text of the property. -/
  method : m.property.text src = .ok s.method
  /-- The texts of the arguments, in order. -/
  arguments : List.Forall₂ (fun a t => a.text src = .ok t) m.arguments s.arguments

theorem readTexts_eq_ok_iff {src : Source} {ns : List Node} {ts : List String} :
    readTexts src ns = .ok ts ↔ List.Forall₂ (fun n t => n.text src = .ok t) ns ts := by
  unfold readTexts
  induction ns generalizing ts with
  | nil =>
    rw [List.mapM_nil, List.forall₂_nil_left_iff]
    exact ⟨fun h => (Except.ok.inj h).symm, fun h => h ▸ rfl⟩
  | cons n ns ih =>
    rw [List.mapM_cons, List.forall₂_cons_left_iff]
    constructor
    · intro h
      obtain ⟨t, ht, h⟩ := exists_of_bind_ok h
      obtain ⟨rest, hrest, h⟩ := exists_of_bind_ok h
      exact ⟨t, rest, ht, ih.1 hrest, (Except.ok.inj h).symm⟩
    · rintro ⟨t, rest, ht, hrest, rfl⟩
      rw [bind_of_ok ht, bind_of_ok (ih.2 hrest)]
      rfl

/-- The shape that is read of a method call. -/
theorem MethodCall.read_eq_ok_iff {m : MethodCall} {src : Source} {form : Form} {s : Shape} :
    m.read src form = .ok s ↔ s.form = form ∧ m.SpelledAs src s := by
  unfold read
  constructor
  · intro h
    obtain ⟨receiver, hr, h⟩ := exists_of_bind_ok h
    obtain ⟨method, hm, h⟩ := exists_of_bind_ok h
    obtain ⟨arguments, ha, h⟩ := exists_of_bind_ok h
    cases h
    exact ⟨rfl, hr, hm, readTexts_eq_ok_iff.1 ha⟩
  · rintro ⟨rfl, hr, hm, ha⟩
    rw [bind_of_ok hr, bind_of_ok hm, bind_of_ok (readTexts_eq_ok_iff.2 ha)]
    rfl

/-- A closure that does not forward is passed over. -/
theorem matchClosure_of_eq_none {src : Source} {includeAsync : Bool} {n : Node}
    (h : n.forwardedCall? includeAsync = none) : matchClosure src includeAsync n = .ok none := by
  rw [matchClosure, h]

theorem matchClosure_of_eq_some {src : Source} {includeAsync : Bool} {n : Node} {form : Form}
    {m : MethodCall} (h : n.forwardedCall? includeAsync = some (form, m)) :
    matchClosure src includeAsync n = (m.read src form).map some := by
  rw [matchClosure, h]

/-- **Recognition accepts exactly the grammar.**  A shape is recognized exactly if the
closure forwards to a method call with these texts, a closure is passed over exactly if it
forwards to none; and where the nodes of the closure can be read, it is recognized exactly
if it forwards. -/
theorem matchClosure_iff_forwards (src : Source) (includeAsync : Bool) (n : Node) :
    (∀ s, matchClosure src includeAsync n = .ok (some s) ↔
        ∃ m, n.Forwards includeAsync s.form m ∧ m.SpelledAs src s) ∧
      (matchClosure src includeAsync n = .ok none ↔
        ∀ form m, ¬n.Forwards includeAsync form m) ∧
      ((∀ part : Node, part.Within n → ∃ t, part.text src = .ok t) →
        ((∃ s, matchClosure src includeAsync n = .ok (some s)) ↔
          ∃ form m, n.Forwards includeAsync form m)) := by
  simp only [← Node.forwardedCall?_eq_some_iff]
  cases hcall : n.forwardedCall? includeAsync with
  | none => simp [matchClosure_of_eq_none hcall]
  | some found =>
    obtain ⟨form, m⟩ := found
    rw [matchClosure_of_eq_some hcall]
    refine ⟨?_, ?_, ?_⟩
    · intro s
      constructor
      · intro h
        obtain ⟨s', hread, hs⟩ := exists_of_map_ok h
        cases hs
        obtain ⟨rfl, hspelled⟩ := MethodCall.read_eq_ok_iff.1 hread
        exact ⟨m, rfl, hspelled⟩
      · rintro ⟨m', hm', hspelled⟩
        cases hm'
        rw [MethodCall.read_eq_ok_iff.2 ⟨rfl, hspelled⟩]
        rfl
    · refine iff_of_false ?_ fun h => h form m rfl
      intro h
      obtain ⟨s, -, hs⟩ := exists_of_map_ok h
      cases hs
    · intro hread
      refine iff_of_true ?_ ⟨form, m, rfl⟩
      -- the parts of the call lie within the closure
      obtain ⟨hr, hp, ha⟩ := Node.within_of_forwardedCall? hcall
      obtain ⟨receiver, hreceiver⟩ := hread _ hr
      obtain ⟨method, hmethod⟩ := hread _ hp
      obtain ⟨arguments, harguments⟩ := exists_readTexts fun a hmem => hread a (ha a hmem)
      have hspelled : m.SpelledAs src ⟨receiver, method, arguments, form⟩ :=
        ⟨hreceiver, hmethod, readTexts_eq_ok_iff.1 harguments⟩
      refine ⟨⟨receiver, method, arguments, form⟩, ?_⟩
      rw [MethodCall.read_eq_ok_iff.2 ⟨rfl, hspelled⟩]
      rfl

/-- A closure marked `async`, with a comment and parentheses around an awaited call. -/
def awaitedText : String := "async()=>\x7b/*é*/(await((o.m())))\x7d"

/-- The tree of `awaitedText`. -/
def awaitedTree : Node :=
  .part .arrowFunction 0 33 none
    [.mk ⟨.async, ⟨0, 5⟩, false, none, false, false, false⟩ [],
      .part ⟨"formal_parameters"⟩ 5 7 (some .parameters) [],
      .part .statementBlock 9 33 (some .body)
        [.part .comment 10 16 none [],
          .part .expressionStatement 16 32 none
            [.part .parenthesized 16 32 none
              [.part .await 17 31 none
                [.part .parenthesized 22 31 none
                  [.part .parenthesized 23 30 none
                    [.part .call 24 29 none
                      [.part .member 24 27 (some .function)
                        [.part .identifier 24 25 (some .object) [],
                          .part .propertyIdentifier 26 27 (some .property) []],
                        .part .arguments 27 29 (some .arguments) []]]]]]]]]

/-- The call is found through the block, the parentheses and the `await`; it is passed over
if closures marked `async` are not included. -/
theorem matchClosure_iff_forwards_awaited :
    let src := Source.ofText awaitedText
    (∀ part : Node, part.Within awaitedTree → ∃ t, part.text src = .ok t) ∧
      matchClosure src true awaitedTree = .ok (some ⟨"o", "m", [], ⟨.block, true⟩⟩) ∧
      (∃ form m, awaitedTree.Forwards true form m) ∧
      ∀ form m, ¬awaitedTree.Forwards false form m := by
  intro src
  have halign : awaitedTree.Aligned awaitedText := by decide +kernel
  have hread : ∀ part : Node, part.Within awaitedTree → ∃ t, part.text src = .ok t :=
    fun part hpart => halign.exists_text hpart
  have hfound : matchClosure src true awaitedTree =
      .ok (some ⟨"o", "m", [], ⟨.block, true⟩⟩) := by decide +kernel
  have hpassed : matchClosure src false awaitedTree = .ok none := by decide +kernel
  obtain ⟨-, -, hiff⟩ := matchClosure_iff_forwards src true awaitedTree
  obtain ⟨-, hnone, -⟩ := matchClosure_iff_forwards src false awaitedTree
  exact ⟨hread, hfound, (hiff hread).1 ⟨_, hfound⟩, hnone.1 hpassed⟩

end BindLint
