import BindLint.Proofs.Grammar
import Mathlib.Data.List.Forall2

/-!
# Trees that are alike

Two trees are alike if they differ in spans and comments only: node by node, one of them is the
other, and where their children do not match the second one has a comment in between.  What else
the nodes have to have in common, such as their texts, is left open as a relation that holds of
all pairs.

Recognition looks at kinds, fields and tokens and passes over comments, so each of its steps
answers alike on trees that are alike: with nothing on both sides, or with parts that are alike
again.  Where the texts of these parts agree, the shapes that are read agree.

## Main definitions

* `Commented` — a list of nodes with comments put in.
* `Node.Alike` — trees that are alike.

## Main results

* `Node.Alike.unwrap` — parentheses are looked through on both sides alike.
* `Node.Alike.forwardedCall?` — **recognition answers alike on trees that are alike.**
* `Node.Alike.matchClosure_eq` — it reads the same shape, if texts agree.
-/

namespace BindLint

/-! ### Answers in relation -/

section Rel

variable {α β γ δ : Type} {r : α → β → Prop} {s : γ → δ → Prop} {x : Option α} {y : Option β}

theorem rel_cases (h : Option.Rel r x y) :
    (x = none ∧ y = none) ∨ ∃ a b, x = some a ∧ y = some b ∧ r a b := by
  cases h with
  | none => exact Or.inl ⟨rfl, rfl⟩
  | some hab => exact Or.inr ⟨_, _, rfl, rfl, hab⟩

theorem rel_eq (x : Option α) : Option.Rel Eq x x := by
  cases x with
  | none => exact .none
  | some a => exact .some rfl

theorem rel_mono_of_eq_some {r' : α → β → Prop} (h : Option.Rel r x y)
    (hr : ∀ a b, x = some a → y = some b → r a b → r' a b) : Option.Rel r' x y := by
  cases h with
  | none => exact .none
  | some hab => exact .some (hr _ _ rfl rfl hab)

theorem rel_mono {r' : α → β → Prop} (h : Option.Rel r x y) (hr : ∀ a b, r a b → r' a b) :
    Option.Rel r' x y :=
  rel_mono_of_eq_some h fun a b _ _ hab => hr a b hab

theorem rel_map {f : α → γ} {g : β → δ} (h : Option.Rel r x y)
    (hfg : ∀ a b, r a b → s (f a) (g b)) : Option.Rel s (x.map f) (y.map g) := by
  cases h with
  | none => exact .none
  | some hab => exact .some (hfg _ _ hab)

theorem rel_bind {f : α → Option γ} {g : β → Option δ} (h : Option.Rel r x y)
    (hfg : ∀ a b, r a b → Option.Rel s (f a) (g b)) : Option.Rel s (x.bind f) (y.bind g) := by
  cases h with
  | none => exact .none
  | some hab => exact hfg _ _ hab

theorem rel_filter {q : α → Bool} {q' : β → Bool} (h : Option.Rel r x y)
    (hq : ∀ a b, r a b → q' b = q a) : Option.Rel r (x.filter q) (y.filter q') := by
  cases h with
  | none => exact .none
  | @some a b hab =>
    rw [Option.filter_some, Option.filter_some, hq a b hab]
    split
    · exact .some hab
    · exact .none

end Rel

/-- Two steps that fail with the same error, or give results in a relation. -/
inductive SameOutcome {ε α β : Type} (r : α → β → Prop) : Except ε α → Except ε β → Prop where
  /-- Both fail. -/
  | error (e : ε) : SameOutcome r (.error e) (.error e)
  /-- Both give a result. -/
  | ok {a : α} {b : β} (h : r a b) : SameOutcome r (.ok a) (.ok b)

namespace SameOutcome

variable {ε α β γ δ : Type} {r : α → β → Prop} {s : γ → δ → Prop} {x : Except ε α} {y : Except ε β}

theorem of_eq {x y : Except ε α} (h : y = x) : SameOutcome Eq x y := by
  subst h
  cases y with
  | error e => exact .error e
  | ok a => exact .ok rfl

theorem bind {f : α → Except ε γ} {g : β → Except ε δ} (h : SameOutcome r x y)
    (hfg : ∀ a b, r a b → SameOutcome s (f a) (g b)) : SameOutcome s (x >>= f) (y >>= g) := by
  cases h with
  | error e => exact .error e
  | ok hab => exact hfg _ _ hab

theorem rel_toOption (h : SameOutcome r x y) : Option.Rel r x.toOption y.toOption := by
  cases h with
  | error e => exact .none
  | ok hab => exact .some hab

end SameOutcome

/-! ### Comments put in -/

/-- The second list is the first one with comments put in: its other nodes stand under the same
fields as those of the first list, to which they are related in order. -/
inductive Commented (S : Node → Node → Prop) : List Node → List Node → Prop where
  /-- Nothing is left. -/
  | nil : Commented S [] []
  /-- A node on both sides. -/
  | cons {c c' : Node} {cs cs' : List Node} (hfield : c'.field = c.field) (hc : S c c')
      (h : Commented S cs cs') : Commented S (c :: cs) (c' :: cs')
  /-- A comment on the second side. -/
  | comment {c' : Node} {cs cs' : List Node} (hkind : c'.kind = .comment) (hfield : c'.field = none)
      (h : Commented S cs cs') : Commented S cs (c' :: cs')

namespace Commented

variable {S : Node → Node → Prop} {cs cs' ds ds' : List Node}

theorem append (h : Commented S cs cs') (hd : Commented S ds ds') :
    Commented S (cs ++ ds) (cs' ++ ds') := by
  induction h with
  | nil => exact hd
  | cons hfield hc _ ih => exact .cons hfield hc ih
  | comment hkind hfield _ ih => exact .comment hkind hfield ih

theorem reverse (h : Commented S cs cs') : Commented S cs.reverse cs'.reverse := by
  induction h with
  | nil => exact .nil
  | cons hfield hc _ ih =>
    rw [List.reverse_cons, List.reverse_cons]
    exact ih.append (.cons hfield hc .nil)
  | comment hkind hfield _ ih =>
    rw [List.reverse_cons, ← List.append_nil (List.reverse _)]
    exact ih.append (.comment hkind hfield .nil)

theorem mono {T : Node → Node → Prop} (h : Commented S cs cs') (hST : ∀ a b, S a b → T a b) :
    Commented T cs cs' := by
  induction h with
  | nil => exact .nil
  | cons hfield hc _ ih => exact .cons hfield (hST _ _ hc) ih
  | comment hkind hfield _ ih => exact .comment hkind hfield ih

/-- A comment is not significant, so that the significant nodes match. -/
theorem forall₂_filter (h : Commented S cs cs')
    (hS : ∀ a b, S a b → b.isSignificant = a.isSignificant) :
    List.Forall₂ S (cs.filter Node.isSignificant) (cs'.filter Node.isSignificant) := by
  induction h with
  | nil => exact .nil
  | @cons c c' _ _ _ hc _ ih =>
    by_cases hsig : c.isSignificant = true
    · rw [List.filter_cons_of_pos hsig, List.filter_cons_of_pos ((hS c c' hc).trans hsig)]
      exact .cons hc ih
    · rw [List.filter_cons_of_neg hsig, List.filter_cons_of_neg (by rwa [hS c c' hc])]
      exact ih
  | comment hkind _ _ ih =>
    rw [List.filter_cons_of_neg (by simp [Node.isSignificant, hkind])]
    exact ih

/-- A comment stands under no field, so that the first nodes under a field match. -/
theorem rel_find? (h : Commented S cs cs') (field : Field) :
    Option.Rel S (cs.find? fun c => c.field = some field)
      (cs'.find? fun c => c.field = some field) := by
  induction h with
  | nil => exact .none
  | @cons c c' _ _ hfield hc _ ih =>
    by_cases hf : c.field = some field
    · rw [List.find?_cons_of_pos (by simpa using hf),
        List.find?_cons_of_pos (by simpa using hfield.trans hf)]
      exact .some hc
    · rw [List.find?_cons_of_neg (by simpa using hf),
        List.find?_cons_of_neg (by simpa [hfield] using hf)]
      exact ih
  | comment _ hfield _ ih =>
    rw [List.find?_cons_of_neg (by simp [hfield])]
    exact ih

/-- Tests that no comment passes have the same outcome. -/
theorem any_eq {q : Node → Bool} (h : Commented S cs cs')
    (hS : ∀ a b, b.field = a.field → S a b → q b = q a)
    (hq : ∀ c : Node, c.kind = .comment → c.field = none → q c = false) : cs'.any q = cs.any q := by
  induction h with
  | nil => rfl
  | cons hfield hc _ ih => rw [List.any_cons, List.any_cons, hS _ _ hfield hc, ih]
  | comment hkind hfield _ ih => rw [List.any_cons, hq _ hkind hfield, Bool.false_or, ih]

end Commented

/-! ### Trees -/

/-- The second tree is the first one with other spans and with comments put in, and its other nodes
are in a relation to those of the first one.  The field of the root does not count: it says where
the tree stands. -/
inductive Node.Alike (R : Node → Node → Prop) : Node → Node → Prop where
  /-- Node by node. -/
  | intro {n n' : Node} (hkind : n'.kind = n.kind) (hnamed : n'.named = n.named) (hrel : R n n')
      (hcs : Commented (Node.Alike R) n.children n'.children) : Node.Alike R n n'

namespace Node

theorem sizeOf_lt_of_mem_children {n c : Node} (h : c ∈ n.children) : sizeOf c < sizeOf n := by
  cases n with
  | mk l cs =>
    have hlt : sizeOf c < sizeOf cs := List.sizeOf_lt_of_mem h
    simp only [mk.sizeOf_spec]
    omega

mutual

theorem Alike.refl {R : Node → Node → Prop} (hR : ∀ n, R n n) (n : Node) : n.Alike R n := by
  cases n with
  | mk l cs => exact .intro rfl rfl (hR _) (Alike.refl_children hR cs)

theorem Alike.refl_children {R : Node → Node → Prop} (hR : ∀ n, R n n) (cs : List Node) :
    Commented (Alike R) cs cs := by
  cases cs with
  | nil => exact .nil
  | cons c cs => exact .cons rfl (Alike.refl hR c) (Alike.refl_children hR cs)

end

namespace Alike

variable {R : Node → Node → Prop} {n n' : Node}

theorem kind_eq (h : n.Alike R n') : n'.kind = n.kind := by
  cases h with
  | intro hkind => exact hkind

theorem named_eq (h : n.Alike R n') : n'.named = n.named := by
  cases h with
  | intro _ hnamed => exact hnamed

theorem rel (h : n.Alike R n') : R n n' := by
  cases h with
  | intro _ _ hrel => exact hrel

theorem children (h : n.Alike R n') : Commented (Alike R) n.children n'.children := by
  cases h with
  | intro _ _ _ hcs => exact hcs

theorem isSignificant_eq (h : n.Alike R n') : n'.isSignificant = n.isSignificant := by
  rw [isSignificant, isSignificant, h.named_eq, h.kind_eq]

theorem significantChildren (h : n.Alike R n') :
    List.Forall₂ (Alike R) n.significantChildren n'.significantChildren :=
  h.children.forall₂_filter fun _ _ hc => hc.isSignificant_eq

theorem child? (h : n.Alike R n') (field : Field) :
    Option.Rel (Alike R) (n.child? field) (n'.child? field) :=
  h.children.rel_find? field

theorem hasOptionalChain_eq (h : n.Alike R n') : n'.hasOptionalChain = n.hasOptionalChain := by
  refine h.children.any_eq (fun a b hfield hc => ?_) fun c hkind hfield => ?_
  · rw [hfield, hc.kind_eq]
  · rw [hkind, hfield]
    decide

theorem hasToken_eq (h : n.Alike R n') {token : Kind} (htoken : token ≠ .comment) :
    n'.hasToken token = n.hasToken token := by
  refine h.children.any_eq (fun a b _ hc => ?_) fun c hkind _ => ?_
  · rw [hc.named_eq, hc.kind_eq]
  · rw [hkind, decide_eq_false htoken.symm, Bool.and_false]

theorem soleChild? (h : n.Alike R n') : Option.Rel (Alike R) n.soleChild? n'.soleChild? := by
  have hcs := h.significantChildren
  unfold Node.soleChild?
  generalize n.significantChildren = cs at hcs
  generalize n'.significantChildren = cs' at hcs
  cases hcs with
  | nil => exact .none
  | cons hc hrest =>
    cases hrest with
    | nil => exact .some hc
    | cons _ _ => exact .none

/-- **Parentheses are looked through on both sides alike.** -/
theorem unwrap {n n' : Node} (h : n.Alike R n') : n.unwrap.Alike R n'.unwrap := by
  by_cases hkind : n.kind = .parenthesized
  · rcases rel_cases h.soleChild? with ⟨hnone, hnone'⟩ | ⟨c, c', hc, hc', hinner⟩
    · rw [unwrap_of_not_sole hnone, unwrap_of_not_sole hnone']
      exact h
    · have hmem : c ∈ n.significantChildren := by
        rw [soleChild?_eq_some_iff.1 hc]
        exact List.mem_singleton_self c
      have hlt := sizeOf_lt_of_mem_children (List.mem_filter.1 hmem).1
      rw [unwrap_of_sole hkind hc, unwrap_of_sole (h.kind_eq.trans hkind) hc']
      exact unwrap hinner
  · rw [unwrap_of_ne hkind, unwrap_of_ne (by rwa [h.kind_eq])]
    exact h
termination_by sizeOf n

end Alike
end Node

/-! ### Recognition -/

/-- Calls that bodies come down to, in the same form. -/
structure Forwarding.Alike (R : Node → Node → Prop) (f f' : Forwarding) : Prop where
  /-- They stand in the same form. -/
  form : f'.form = f.form
  /-- They are alike. -/
  call : f.call.Alike R f'.call

/-- Candidates with bodies that are alike. -/
structure Candidate.Alike (R : Node → Node → Prop) (c c' : Candidate) : Prop where
  /-- Both are marked `async`, or none is. -/
  isAsync : c'.isAsync = c.isAsync
  /-- The bodies are alike. -/
  body : c.body.Alike R c'.body

/-- Calls of methods with parts that are alike. -/
structure MethodCall.Alike (R : Node → Node → Prop) (m m' : MethodCall) : Prop where
  /-- The receivers are alike. -/
  receiver : m.receiver.Alike R m'.receiver
  /-- The properties are alike. -/
  property : m.property.Alike R m'.property
  /-- The arguments are alike, in order. -/
  arguments : List.Forall₂ (Node.Alike R) m.arguments m'.arguments

namespace Node.Alike

variable {R : Node → Node → Prop} {n n' : Node}

theorem forwarding? (h : n.Alike R n') (body : BodyKind) :
    Option.Rel (Forwarding.Alike R) (n.forwarding? body) (n'.forwarding? body) := by
  have hinner := h.unwrap
  unfold Node.forwarding?
  rw [hinner.kind_eq]
  split
  · exact .some ⟨rfl, hinner⟩
  · split
    · rcases rel_cases hinner.soleChild? with ⟨hx, hy⟩ | ⟨operand, operand', hx, hy, hoperand⟩
      · rw [hx, hy]
        exact .none
      · simp only [hx, hy, hoperand.unwrap.kind_eq]
        split
        · exact .some ⟨rfl, hoperand.unwrap⟩
        · exact .none
    · exact .none

theorem soleExpression? (h : n.Alike R n') :
    Option.Rel (Node.Alike R) n.soleExpression? n'.soleExpression? := by
  unfold Node.soleExpression?
  rcases rel_cases h.soleChild? with ⟨hx, hy⟩ | ⟨statement, statement', hx, hy, hstatement⟩
  · rw [hx, hy]
    exact .none
  · simp only [hx, hy, hstatement.kind_eq]
    split
    · exact hstatement.soleChild?
    · exact .none

theorem isPlainClosure_eq (h : n.Alike R n') : n'.isPlainClosure = n.isPlainClosure := by
  unfold Node.isPlainClosure
  rw [h.kind_eq, h.hasToken_eq (by decide)]
  rcases rel_cases (h.child? .parameter) with ⟨hx, hy⟩ | ⟨_, _, hx, hy, -⟩
  · rw [hx, hy]
  · rw [hx, hy, Option.isNone_some, Option.isNone_some]

theorem takesNothing_eq (h : n.Alike R n') : n'.takesNothing = n.takesNothing := by
  unfold Node.takesNothing
  rcases rel_cases (h.child? .parameters) with ⟨hx, hy⟩ | ⟨list, list', hx, hy, hlist⟩
  · rw [hx, hy]
  · have hlength := hlist.significantChildren.length_eq
    simp only [hx, hy]
    rw [Bool.eq_iff_iff, List.isEmpty_iff, List.isEmpty_iff, ← List.length_eq_zero_iff,
      ← List.length_eq_zero_iff, hlength]

theorem candidate? (h : n.Alike R n') :
    Option.Rel (Candidate.Alike R) n.candidate? n'.candidate? := by
  unfold Node.candidate?
  rw [h.isPlainClosure_eq, h.takesNothing_eq, h.hasToken_eq (by decide)]
  split
  · exact rel_map (h.child? .body) fun _ _ hbody => ⟨rfl, hbody⟩
  · exact .none

theorem plainAccess? (h : n.Alike R n') :
    Option.Rel (fun a a' => a.1.Alike R a'.1 ∧ a.2.Alike R a'.2) n.plainAccess?
      n'.plainAccess? := by
  unfold Node.plainAccess?
  rw [h.kind_eq, h.hasOptionalChain_eq]
  split
  · rcases rel_cases (h.child? .object) with ⟨hx, hy⟩ | ⟨receiver, receiver', hx, hy, hr⟩
    · rw [hx, hy]
      exact .none
    · rcases rel_cases (h.child? .property) with ⟨hx', hy'⟩ | ⟨property, property', hx', hy', hp⟩
      · rw [hx, hy, hx', hy']
        exact .none
      · simp only [hx, hy, hx', hy', hr.kind_eq, hp.kind_eq]
        split
        · exact .some ⟨hr, hp⟩
        · exact .none
  · exact .none

theorem methodCall? (h : n.Alike R n') :
    Option.Rel (MethodCall.Alike R) n.methodCall? n'.methodCall? := by
  unfold Node.methodCall?
  rw [h.hasOptionalChain_eq]
  rcases rel_cases (h.child? .arguments) with ⟨hx, hy⟩ | ⟨list, list', hx, hy, hlist⟩
  · rw [hx, hy]
    exact .none
  · rcases rel_cases (h.child? .function) with ⟨hx', hy'⟩ | ⟨callee, callee', hx', hy', hcallee⟩
    · rw [hx, hy, hx', hy']
      exact .none
    · simp only [hx, hy, hx', hy', hlist.kind_eq]
      split
      · exact rel_map hcallee.plainAccess? fun _ _ ha => ⟨ha.1, ha.2, hlist.significantChildren⟩
      · exact .none

end Node.Alike

theorem Candidate.Alike.forwarding? {R : Node → Node → Prop} {c c' : Candidate}
    (h : c.Alike R c') : Option.Rel (Forwarding.Alike R) c.forwarding? c'.forwarding? := by
  have hkind : c'.bodyKind = c.bodyKind := by rw [bodyKind, bodyKind, h.body.kind_eq]
  unfold Candidate.forwarding?
  rw [hkind]
  split
  · exact h.body.forwarding? .expression
  · exact rel_bind h.body.soleExpression? fun _ _ he => he.forwarding? .block

/-- **Recognition answers alike on trees that are alike**: both forward in the same form, to
methods with parts that are alike, or none does. -/
theorem Node.Alike.forwardedCall? {R : Node → Node → Prop} {n n' : Node} (h : n.Alike R n')
    (includeAsync : Bool) :
    Option.Rel (fun f f' => f'.1 = f.1 ∧ f.2.Alike R f'.2) (n.forwardedCall? includeAsync)
      (n'.forwardedCall? includeAsync) := by
  unfold Node.forwardedCall?
  rcases rel_cases h.candidate? with ⟨hx, hy⟩ | ⟨c, c', hx, hy, hc⟩
  · rw [hx, hy]
    exact .none
  · simp only [hx, hy, hc.isAsync]
    split
    · exact .none
    · exact rel_bind hc.forwarding? fun _ _ hf =>
        rel_map hf.call.methodCall? fun _ _ hm => ⟨hf.form, hm⟩

/-! ### Texts -/

/-- Nodes with the same text, each in its source. -/
def SameText (src src' : Source) (n n' : Node) : Prop := n'.text src' = n.text src

instance (src src' : Source) (n n' : Node) : Decidable (SameText src src' n n') :=
  inferInstanceAs (Decidable (n'.text src' = n.text src))

section Texts

variable {R : Node → Node → Prop} {src src' : Source}

theorem readTexts_eq {ns ns' : List Node} (h : List.Forall₂ (SameText src src') ns ns') :
    readTexts src' ns' = readTexts src ns := by
  unfold readTexts
  induction h with
  | nil => rfl
  | cons hn _ ih => rw [List.mapM_cons, List.mapM_cons, hn, ih]

/-- Calls of methods whose parts have the same texts, as far as both have them. -/
structure MethodCall.SameTexts (src src' : Source) (m m' : MethodCall) : Prop where
  /-- The receivers have the same text. -/
  receiver : SameText src src' m.receiver m'.receiver
  /-- The properties have the same text. -/
  property : SameText src src' m.property m'.property
  /-- The arguments have the same texts, in order. -/
  arguments : ∀ a a', (a, a') ∈ m.arguments.zip m'.arguments → SameText src src' a a'

theorem MethodCall.Alike.sameTexts {m m' : MethodCall} (h : m.Alike R m')
    (hR : ∀ n n', R n n' → SameText src src' n n') : m.SameTexts src src' m' :=
  ⟨hR _ _ h.receiver.rel, hR _ _ h.property.rel,
    fun a a' ha => hR a a' (List.forall₂_zip h.arguments ha).rel⟩

theorem MethodCall.Alike.read_eq {m m' : MethodCall} (h : m.Alike R m') (form : Form)
    (htexts : m.SameTexts src src' m') : m'.read src' form = m.read src form := by
  have hr : m'.receiver.text src' = m.receiver.text src := htexts.receiver
  have hp : m'.property.text src' = m.property.text src := htexts.property
  have ha : readTexts src' m'.arguments = readTexts src m.arguments :=
    readTexts_eq (List.forall₂_iff_zip.2 ⟨h.arguments.length_eq, fun ha => htexts.arguments _ _ ha⟩)
  rw [read, read, hr, hp, ha]

/-- The same shape is read of closures that are alike, if they forward to methods whose parts have
the same texts. -/
theorem Node.Alike.matchClosure_eq_of_sameTexts {n n' : Node} (h : n.Alike R n')
    (includeAsync : Bool)
    (htexts : ∀ form m m', n.forwardedCall? includeAsync = some (form, m) →
      n'.forwardedCall? includeAsync = some (form, m') → m.Alike R m' → m.SameTexts src src' m') :
    matchClosure src' includeAsync n' = matchClosure src includeAsync n := by
  rcases rel_cases (h.forwardedCall? includeAsync) with
    ⟨hx, hy⟩ | ⟨⟨form, m⟩, ⟨form', m'⟩, hx, hy, hform, hm⟩
  · rw [matchClosure_of_eq_none hx, matchClosure_of_eq_none hy]
  · cases hform
    rw [matchClosure_of_eq_some hx, matchClosure_of_eq_some hy,
      hm.read_eq form (htexts form m m' hx hy hm)]

/-- The same shape is read of closures that are alike, if the texts of all their nodes agree. -/
theorem Node.Alike.matchClosure_eq {n n' : Node} (h : n.Alike R n') (includeAsync : Bool)
    (hR : ∀ n n', R n n' → SameText src src' n n') :
    matchClosure src' includeAsync n' = matchClosure src includeAsync n :=
  h.matchClosure_eq_of_sameTexts includeAsync fun _ _ _ _ _ hm => hm.sameTexts hR

end Texts

end BindLint
