import BindLint.Proofs.Grammar

/-!
# Optional chains

A chain is a call, an access or a subscript, with what it is made on below it, and so on down:
the spine of `a.b[0].c()` goes from the call over `a.b[0].c`, `a.b[0]` and `a.b` to `a`.  A mark
`?.` anywhere on the spine cuts the whole chain short, so a method call in such a chain cannot be
written again as a bound method.

Recognition looks for the mark in the call and in its access, and these are the first two nodes of
the spine.  The third is the receiver, and neither it nor what stands below it is looked at: a
receiver may be anything but `super`.  So a closure is recognized although its call is part of an
optional chain exactly if the mark stands on the spine of the receiver
(`matchClosure_chainFree_iff`), as in `() => a?.b.m()` (`optional_receiver_is_matched`).

## Main definitions

* `Node.OnSpine` — a node on the spine of a chain.
* `Node.ChainFree` — no mark `?.` stands on the spine.
* `Node.soleCall?` — the call that a closure comes down to.

## Main results

* `Node.chainFree_iff` — the marks on a spine, link by link.
* `matchClosure_chainFree_iff` — **the call that is recognized is part of no optional chain exactly
  if its receiver is part of none.**
-/

namespace BindLint
namespace Node

/-! ### Spines -/

/-- The kinds of nodes that link a chain: calls, accesses and subscripts. -/
def chainKinds : List Kind := [.call, .member, ⟨"subscript_expression"⟩]

/-- A node on the spine of another one, which goes down through what is called and what is
accessed. -/
inductive OnSpine : Node → Node → Prop where
  /-- The spine starts at the node itself. -/
  | refl (n : Node) : OnSpine n n
  /-- A link goes on to what it is called on. -/
  | called {x c n : Node} (hkind : n.kind ∈ chainKinds) (hc : n.child? .function = some c)
      (h : OnSpine x c) : OnSpine x n
  /-- A link goes on to what it is accessed on. -/
  | accessed {x c n : Node} (hkind : n.kind ∈ chainKinds) (hc : n.child? .object = some c)
      (h : OnSpine x c) : OnSpine x n

/-- No mark `?.` stands on the spine of a node. -/
def ChainFree (n : Node) : Prop := ∀ x, OnSpine x n → x.Unchained

theorem ChainFree.unchained {n : Node} (h : n.ChainFree) : n.Unchained := h n (.refl n)

/-- **The marks on a spine, link by link.** -/
theorem chainFree_iff {n : Node} (hkind : n.kind ∈ chainKinds) :
    n.ChainFree ↔ n.Unchained ∧ (∀ c, n.child? .function = some c → c.ChainFree) ∧
      ∀ c, n.child? .object = some c → c.ChainFree := by
  constructor
  · intro h
    refine ⟨h.unchained, ?_, ?_⟩
    · intro c hc x hx
      exact h x (.called hkind hc hx)
    · intro c hc x hx
      exact h x (.accessed hkind hc hx)
  · rintro ⟨hself, hfunction, hobject⟩ x hx
    cases hx with
    | refl => exact hself
    | called _ hc hx => exact hfunction _ hc x hx
    | accessed _ hc hx => exact hobject _ hc x hx

/-- The spine ends at what is no link. -/
theorem chainFree_iff_unchained {n : Node} (hkind : n.kind ∉ chainKinds) :
    n.ChainFree ↔ n.Unchained := by
  refine ⟨ChainFree.unchained, fun h x hx => ?_⟩
  cases hx with
  | refl => exact h
  | called hlink => exact absurd hlink hkind
  | accessed hlink => exact absurd hlink hkind

/-! ### The call that is recognized -/

/-- The call that the body of a closure comes down to. -/
def soleCall? (n : Node) : Option Node :=
  n.candidate?.bind fun c => c.forwarding?.map Forwarding.call

theorem exists_soleCall {includeAsync : Bool} {n : Node} {form : Form} {m : MethodCall}
    (h : n.forwardedCall? includeAsync = some (form, m)) :
    ∃ call, n.soleCall? = some call ∧ call.kind = .call ∧ call.CallsMethod m := by
  unfold forwardedCall? at h
  split at h
  · cases h
  · next c hc =>
    split at h
    · cases h
    · obtain ⟨f, hf, hm⟩ := Option.bind_eq_some_iff.1 h
      obtain ⟨m', hm', heq⟩ := Option.map_eq_some_iff.1 hm
      cases heq
      obtain ⟨e, -, hcomes⟩ := Candidate.forwarding?_eq_some_iff.1 hf
      refine ⟨f.call, ?_, hcomes.kind_eq, methodCall?_eq_some_iff.1 hm'⟩
      rw [soleCall?, hc, Option.bind_some, hf, Option.map_some]

/-- The first two nodes of the spine bear no mark, and the third is the receiver. -/
theorem CallsMethod.chainFree_iff {call : Node} {m : MethodCall} (h : call.CallsMethod m)
    (hcall : call.kind = .call) :
    ∃ callee, call.child? .function = some callee ∧ callee.child? .object = some m.receiver ∧
      callee.Unchained ∧
      (call.ChainFree ↔ m.receiver.ChainFree ∧
        (∀ c, call.child? .object = some c → c.ChainFree) ∧
        ∀ c, callee.child? .function = some c → c.ChainFree) := by
  obtain ⟨callee, hcallee, hmember, hobject, -, hunchained⟩ := h.access
  refine ⟨callee, hcallee, hobject, hunchained, ?_⟩
  have hspine : callee.ChainFree ↔
      m.receiver.ChainFree ∧ ∀ c, callee.child? .function = some c → c.ChainFree := by
    rw [Node.chainFree_iff (by rw [hmember]; decide)]
    constructor
    · rintro ⟨-, hfunction, hreceiver⟩
      exact ⟨hreceiver _ hobject, hfunction⟩
    · rintro ⟨hreceiver, hfunction⟩
      refine ⟨hunchained, hfunction, fun c hc => ?_⟩
      cases hobject.symm.trans hc
      exact hreceiver
  rw [Node.chainFree_iff (by rw [hcall]; decide)]
  constructor
  · rintro ⟨-, hfunction, hodd⟩
    obtain ⟨hreceiver, hodd'⟩ := hspine.1 (hfunction _ hcallee)
    exact ⟨hreceiver, hodd, hodd'⟩
  · rintro ⟨hreceiver, hodd, hodd'⟩
    refine ⟨h.unchained, fun c hc => ?_, hodd⟩
    cases hcallee.symm.trans hc
    exact hspine.2 ⟨hreceiver, hodd'⟩

end Node

/-- **The call that is recognized is part of no optional chain exactly if its receiver is part of
none.**  Neither the call nor its access bears a mark, and below them only the receiver is left.  A
parser gives a call no `object` and an access no `function`; where a tree has them, they are not
looked at either. -/
theorem matchClosure_chainFree_iff (src : Source) (includeAsync : Bool) (n : Node) (s : Shape)
    (h : matchClosure src includeAsync n = .ok (some s)) :
    ∃ call callee m, n.soleCall? = some call ∧ call.CallsMethod m ∧ m.SpelledAs src s ∧
      call.child? .function = some callee ∧ callee.child? .object = some m.receiver ∧
      call.Unchained ∧ callee.Unchained ∧
      (call.ChainFree ↔ m.receiver.ChainFree ∧
        (∀ c, call.child? .object = some c → c.ChainFree) ∧
        ∀ c, callee.child? .function = some c → c.ChainFree) := by
  cases hfound : n.forwardedCall? includeAsync with
  | none =>
    rw [matchClosure_of_eq_none hfound] at h
    cases h
  | some found =>
    obtain ⟨form, m⟩ := found
    rw [matchClosure_of_eq_some hfound] at h
    obtain ⟨s', hread, hs⟩ := exists_of_map_ok h
    cases hs
    obtain ⟨-, hspelled⟩ := MethodCall.read_eq_ok_iff.1 hread
    obtain ⟨call, hcall, hkind, hcalls⟩ := Node.exists_soleCall hfound
    obtain ⟨callee, hcallee, hobject, hunchained, hiff⟩ := hcalls.chainFree_iff hkind
    exact ⟨call, callee, m, hcall, hcalls, hspelled, hcallee, hobject, hcalls.unchained, hunchained,
      hiff⟩

/-- The tree of `on(() => a.b.m())`, with `b` at some offset and with some marks in front of it. -/
def accessTree (b : Nat) (marks : List Node) : Node :=
  callTree 2 (b + 6)
    [.part .arrowFunction 3 (b + 5) none
      [.part ⟨"formal_parameters"⟩ 3 5 (some .parameters) [],
        .part .call 9 (b + 5) (some .body)
          [.part .member 9 (b + 3) (some .function)
            [.part .member 9 (b + 1) (some .object)
              (.part .identifier 9 10 (some .object) [] ::
                (marks ++ [.part .propertyIdentifier b (b + 1) (some .property) []])),
              .part .propertyIdentifier (b + 2) (b + 3) (some .property) []],
            .part .arguments (b + 3) (b + 5) (some .arguments) []]]]

/-- The spine of `a.b.m()` goes down to `a`, and no mark stands on it. -/
theorem matchClosure_chainFree_iff_access :
    let src := Source.ofText "on(() => a.b.m())"
    let n := ((accessTree 11 []).places.get ⟨4, by decide⟩).node
    matchClosure src false n = .ok (some ⟨"a.b", "m", [], ⟨.expression, false⟩⟩) ∧
      ∃ call, n.soleCall? = some call ∧ call.ChainFree := by
  intro src n
  have hmatch : matchClosure src false n =
      .ok (some ⟨"a.b", "m", [], ⟨.expression, false⟩⟩) := by decide +kernel
  obtain ⟨call, callee, m, hcall, hcalls, -, hcallee, hobject, -, -, hiff⟩ :=
    matchClosure_chainFree_iff src false n _ hmatch
  refine ⟨hmatch, call, hcall, hiff.2 ?_⟩
  cases hcall
  cases hcallee
  rw [← Option.some.inj hobject, Node.chainFree_iff (by decide),
    ← Node.hasOptionalChain_eq_false_iff]
  refine ⟨⟨by decide +kernel, nofun, ?_⟩, nofun, nofun⟩
  -- the receiver is accessed on `a`, where the spine ends
  rintro a ⟨⟩
  rw [Node.chainFree_iff_unchained (by decide), ← Node.hasOptionalChain_eq_false_iff]
  decide +kernel

/-- The call in `() => a?.b.m()` is recognized, with a mark on the spine of its receiver. -/
theorem optional_receiver_is_matched :
    let src := Source.ofText "on(() => a?.b.m())"
    let tree := accessTree 12 [.part .optionalChain 10 12 (some .optionalChain) []]
    let p := tree.places.get ⟨4, by decide⟩
    tree.Aligned "on(() => a?.b.m())" ∧
      matchClosure src false p.node =
        .ok (some ⟨"a?.b", "m", [], ⟨.expression, false⟩⟩) ∧
      (check ⟨true, ["on"], false⟩ src p).toOption.join.map
        (fun hit => hit.finding.replacement) = some "a?.b.m.bind(a?.b)" ∧
      ∃ call x, p.node.soleCall? = some call ∧ Node.OnSpine x call ∧ ¬x.Unchained := by
  intro src tree p
  refine ⟨by decide +kernel, by decide +kernel, by decide +kernel, ?_⟩
  refine ⟨_, _, rfl, .called (by decide) rfl (.accessed (by decide) rfl (.refl _)), ?_⟩
  rw [← Node.hasOptionalChain_eq_false_iff]
  decide +kernel

end BindLint
