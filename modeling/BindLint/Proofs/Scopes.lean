import BindLint.Proofs.Forwarded
import BindLint.Proofs.Grammar

/-!
# Scopes of text that is written again

A suggestion writes the receiver and the arguments of a call again, outside the closure that the
call stood in.  What `this` means is settled by the nearest function, method or class around it,
where arrow functions do not count; what `await` waits in is the nearest function.  So moving a
node changes the meaning of what stands in it if one of these lies between where it stood and
where it is put.

On the way from the closure down to the receiver and the arguments there are parentheses, a block
with its statement, `await`, and the call with its parts, and on the way from the closure up to the
call of a scheduler there are parentheses and the call: nothing that settles a meaning
(`Node.Forwards.exists_frames`, `Place.IsArgument.exists_frames`).  What is left is the closure
itself.  An arrow function does not settle `this`, so that text keeps its `this` when it is moved
out of one.  A function expression does, and every closure settles `await`; the rule looks at
neither, and reports such closures as well (`this_and_await_leave_closure`).

## Main definitions

* `thisScopes`, `awaitScopes` — the kinds of nodes that settle what `this` and `await` mean.
* `Place.scope` — the scope of a node in a tree that is moved.

## Main results

* `Place.scope_eq_iff` — when moving a tree leaves a node of it in its scope.
* `scope_of_moved_eq_iff` — only the closure itself can stand in between.
* `reemitted_keeps_scope_iff` — **what is written again leaves its scope exactly if this is the
  closure itself.**
-/

namespace BindLint

/-! ### Scopes -/

/-- The functions that are no arrow functions, and methods. -/
def functionKinds : List Kind :=
  [.functionExpression, ⟨"function_declaration"⟩, ⟨"generator_function"⟩,
    ⟨"generator_function_declaration"⟩, ⟨"method_definition"⟩]

/-- What settles the meaning of `this`. -/
def thisScopes : List Kind :=
  functionKinds ++ [⟨"class"⟩, ⟨"class_declaration"⟩, ⟨"abstract_class_declaration"⟩]

/-- What `await` waits in. -/
def awaitScopes : List Kind := .arrowFunction :: functionKinds

/-- The nearest ancestor of one of some kinds, with all that stands above it. -/
def scopeFrom (kinds : List Kind) (above : List Frame) : List Frame :=
  above.dropWhile fun f => !kinds.contains f.label.kind

/-- The scope of a node in a tree that is moved. -/
inductive Scope where
  /-- It lies in the tree, so many ancestors above the node, and is moved with it. -/
  | inside (ancestors : Nat) : Scope
  /-- It lies around the tree. -/
  | around (above : List Frame) : Scope

/-- The scope of a node at a place in a tree, where the tree itself stands below some frames. -/
def Place.scope (kinds : List Kind) (q : Place) (above : List Frame) : Scope :=
  match q.above.findIdx? fun f => kinds.contains f.label.kind with
  | some i => .inside i
  | none => .around (scopeFrom kinds above)

/-- **Moving a tree** leaves a node of it in its scope if the scope lies in the tree, or if the
tree stands in the same scope before and after. -/
theorem Place.scope_eq_iff {kinds : List Kind} {q : Place} {before after : List Frame} :
    q.scope kinds before = q.scope kinds after ↔
      (∃ f ∈ q.above, f.label.kind ∈ kinds) ∨ scopeFrom kinds before = scopeFrom kinds after := by
  unfold scope
  cases hfind : q.above.findIdx? fun f => kinds.contains f.label.kind with
  | none =>
    have hnone : ¬∃ f ∈ q.above, f.label.kind ∈ kinds := by simpa using hfind
    simp [hnone]
  | some i =>
    have hsome : ∃ f ∈ q.above, f.label.kind ∈ kinds := by
      have hany : (q.above.findIdx? fun f => kinds.contains f.label.kind).isSome =
          q.above.any fun f => kinds.contains f.label.kind := List.findIdx?_isSome
      rw [hfind] at hany
      simpa using hany.symm
    simp [hsome]

theorem scopeFrom_append {kinds : List Kind} {fs : List Frame}
    (h : ∀ f ∈ fs, f.label.kind ∉ kinds) (above : List Frame) :
    scopeFrom kinds (fs ++ above) = scopeFrom kinds above :=
  List.dropWhile_append_of_pos (by simpa using h)

theorem scopeFrom_cons_of_mem {kinds : List Kind} {f : Frame} (h : f.label.kind ∈ kinds)
    (above : List Frame) : scopeFrom kinds (f :: above) = f :: above :=
  List.dropWhile_cons_of_neg (by simpa using h)

theorem scopeFrom_cons_of_not_mem {kinds : List Kind} {f : Frame} (h : f.label.kind ∉ kinds)
    (above : List Frame) : scopeFrom kinds (f :: above) = scopeFrom kinds above :=
  List.dropWhile_cons_of_pos (by simpa using h)

/-- A frame with all above it is no scope further up. -/
theorem scopeFrom_ne {kinds : List Kind} (f : Frame) (between above : List Frame) :
    f :: (between ++ above) ≠ scopeFrom kinds above := by
  intro h
  have hle : (scopeFrom kinds above).length ≤ above.length :=
    (List.dropWhile_suffix _).length_le
  rw [← h, List.length_cons, List.length_append] at hle
  omega

/-! ### What is passed on the way -/

/-- The kinds of nodes between a closure and what it forwards to, and between a closure and the
call that it is passed to. -/
def passedKinds : List Kind :=
  [.statementBlock, .expressionStatement, .parenthesized, .await, .call, .arguments, .member]

/-- A node stands in another one, and on the way down to it only nodes of the passed kinds stand,
that one included. -/
def Node.Passes (n r : Node) : Prop :=
  ∃ fs, Place.rootOf r fs = n ∧ ∀ f ∈ fs, f.label.kind ∈ passedKinds

namespace Node

theorem exists_frame {n c : Node} (h : c ∈ n.children) :
    ∃ f : Frame, f.label = n.label ∧ f.fill c = n := by
  cases n with
  | mk l cs =>
    obtain ⟨before, after, hcs⟩ := List.append_of_mem h
    refine ⟨⟨l, before.reverse, after⟩, rfl, ?_⟩
    rw [Frame.fill, List.reverse_reverse, ← hcs]
    rfl

theorem Passes.refl (n : Node) : n.Passes n := ⟨[], rfl, by simp⟩

theorem Passes.trans {n m r : Node} (hnm : n.Passes m) (hmr : m.Passes r) : n.Passes r := by
  obtain ⟨fs, hfs, hpassed⟩ := hnm
  obtain ⟨gs, hgs, hpassed'⟩ := hmr
  refine ⟨gs ++ fs, by rw [Place.rootOf_append, hgs, hfs], ?_⟩
  intro f hf
  rcases List.mem_append.1 hf with hf | hf
  · exact hpassed' f hf
  · exact hpassed f hf

theorem passes_of_mem_children {n c : Node} (hc : c ∈ n.children) (hn : n.kind ∈ passedKinds) :
    n.Passes c := by
  obtain ⟨f, hlabel, hfill⟩ := exists_frame hc
  refine ⟨[f], hfill, ?_⟩
  intro g hg
  rw [List.mem_singleton.1 hg, hlabel]
  exact hn

theorem passes_of_child? {n c : Node} {field : Field} (hc : n.child? field = some c)
    (hn : n.kind ∈ passedKinds) : n.Passes c :=
  passes_of_mem_children (List.mem_of_find?_eq_some hc) hn

theorem passes_of_mem_significantChildren {n c : Node} (hc : c ∈ n.significantChildren)
    (hn : n.kind ∈ passedKinds) : n.Passes c :=
  passes_of_mem_children (List.mem_filter.1 hc).1 hn

theorem passes_of_sole {n c : Node} (hc : n.significantChildren = [c])
    (hn : n.kind ∈ passedKinds) : n.Passes c :=
  passes_of_mem_significantChildren (by rw [hc]; exact List.mem_singleton_self c) hn

theorem Wraps.passes {n e : Node} (h : n.Wraps e) : n.Passes e := by
  induction h with
  | refl e => exact .refl e
  | paren hkind hsole _ ih => exact (passes_of_sole hsole (by rw [hkind]; decide)).trans ih

theorem ComesTo.passes {e call : Node} {awaited : Bool} (h : e.ComesTo awaited call) :
    e.Passes call := by
  cases h with
  | direct _ hwraps => exact hwraps.passes
  | awaited hawait hwraps hsole _ hoperand =>
    have hstep := passes_of_sole hsole (by rw [hawait]; decide)
    exact (hwraps.passes.trans hstep).trans hoperand.passes

theorem Holds.passes {body e : Node} {kind : BodyKind} (h : body.Holds kind e) :
    body.Passes e := by
  cases h with
  | expression => exact .refl body
  | block hblock hsole hstatement he =>
    exact (passes_of_sole hsole (by rw [hblock]; decide)).trans
      (passes_of_sole he (by rw [hstatement]; decide))

end Node

/-- The nodes that a suggestion writes again: the receiver and the arguments. -/
def MethodCall.reemitted (m : MethodCall) : List Node := m.receiver :: m.arguments

theorem Node.CallsMethod.passes {call r : Node} {m : MethodCall} (h : call.CallsMethod m)
    (hcall : call.kind = .call) (hr : r ∈ m.reemitted) : call.Passes r := by
  have hpassed : call.kind ∈ passedKinds := by
    rw [hcall]
    decide
  rcases List.mem_cons.1 hr with rfl | hr
  · obtain ⟨callee, hcallee, hmember, hobject, -, -⟩ := h.access
    exact (passes_of_child? hcallee hpassed).trans
      (passes_of_child? hobject (by rw [hmember]; decide))
  · obtain ⟨list, hlist, hkind, hargs⟩ := h.arguments
    rw [← hargs] at hr
    exact (passes_of_child? hlist hpassed).trans
      (passes_of_mem_significantChildren hr (by rw [hkind]; decide))

/-- Between a closure and what it forwards to, only the closure itself can settle a meaning. -/
theorem Node.Forwards.exists_frames {includeAsync : Bool} {n r : Node} {form : Form}
    {m : MethodCall} (h : n.Forwards includeAsync form m) (hr : r ∈ m.reemitted) :
    ∃ (inner : List Frame) (own : Frame), Place.rootOf r (inner ++ [own]) = n ∧
      own.label = n.label ∧ ∀ f ∈ inner, f.label.kind ∈ passedKinds := by
  obtain ⟨body, e, call, hbody, hholds, hcomes, hcalls⟩ := h.body
  obtain ⟨inner, hinner, hpassed⟩ :=
    (hholds.passes.trans hcomes.passes).trans (hcalls.passes hcomes.kind_eq hr)
  obtain ⟨own, hlabel, hfill⟩ := exists_frame (List.mem_of_find?_eq_some hbody)
  refine ⟨inner, own, ?_, hlabel, hpassed⟩
  rw [Place.rootOf_append, hinner]
  exact hfill

/-- Between a closure and the call that it is passed to, nothing settles a meaning. -/
theorem Place.IsArgument.exists_frames {p : Place} {site : CallSite} (h : p.IsArgument site) :
    ∃ between rest, p.above = between ++ rest ∧ rootOf p.node between = site.call ∧
      ∀ f ∈ between, f.label.kind ∈ passedKinds := by
  obtain ⟨parens, list, call, rest, habove, hparens, hlist, hcall, -⟩ := h
  refine ⟨parens ++ [list, call], rest, by rw [habove, List.append_assoc]; rfl, ?_, ?_⟩
  · rw [rootOf_append]
    rfl
  · intro f hf
    rcases List.mem_append.1 hf with hf | hf
    · rw [hparens f hf]
      decide
    · rcases List.mem_cons.1 hf with rfl | hf
      · rw [hlist]
        decide
      · rw [List.mem_singleton.1 hf, hcall]
        decide

/-! ### What is replaced -/

/-- The node that a suggestion replaces is the closure or the call that it is passed to. -/
theorem exists_replaced {o : Options} {src : Source} {p : Place} {hit : Hit}
    (h : check o src p = .ok (some hit)) :
    ∃ between rest text, p.above = between ++ rest ∧
      (∀ f ∈ between, f.label.kind ∈ passedKinds) ∧
      hit.finding.suggestions =
        [⟨(Place.rootOf p.node between).span.start, (Place.rootOf p.node between).span.stop,
          text⟩] := by
  obtain ⟨s, pl, edit, -, hread, hedit, hsuggestions⟩ := suggestions_of_check h
  unfold Shape.edit at hedit
  split at hedit
  · split at hedit
    · cases hedit
    · next t ht =>
      cases hedit
      obtain ⟨site, delay, hsite, -, -, -, -, hteq⟩ := Placement.eq_some_timer hread ht
      obtain ⟨between, rest, habove, hroot, hpassed⟩ := hsite.exists_frames
      have hcall : t.call = Place.rootOf p.node between := by
        rw [hroot]
        exact congrArg Timer.call hteq
      refine ⟨between, rest, s.scheduled t.scheduler t.delay, habove, hpassed, ?_⟩
      rw [hsuggestions, hcall]
  · cases hedit
    exact ⟨[], p.above, _, rfl, by simp, hsuggestions⟩

/-- Only the closure itself can stand between a node that is moved and its scope. -/
theorem scope_of_moved_eq_iff {kinds : List Kind} (hkinds : ∀ k ∈ passedKinds, k ∉ kinds)
    {inner between rest : List Frame} {own : Frame}
    (hinner : ∀ f ∈ inner, f.label.kind ∈ passedKinds)
    (hbetween : ∀ f ∈ between, f.label.kind ∈ passedKinds) (q : Place) :
    q.scope kinds (inner ++ [own] ++ (between ++ rest)) = q.scope kinds rest ↔
      (own.label.kind ∈ kinds → ∃ f ∈ q.above, f.label.kind ∈ kinds) := by
  rw [Place.scope_eq_iff, List.append_assoc, List.singleton_append,
    scopeFrom_append fun f hf => hkinds _ (hinner f hf)]
  by_cases hown : own.label.kind ∈ kinds
  · -- the closure settles the meaning of all that is not settled below it, and is left
    have hleft : scopeFrom kinds (own :: (between ++ rest)) ≠ scopeFrom kinds rest := by
      rw [scopeFrom_cons_of_mem hown]
      exact scopeFrom_ne own between rest
    simp only [hleft, or_false, hown, forall_const]
  · have hkept : scopeFrom kinds (own :: (between ++ rest)) = scopeFrom kinds rest := by
      rw [scopeFrom_cons_of_not_mem hown, scopeFrom_append fun f hf => hkinds _ (hbetween f hf)]
    exact iff_of_true (Or.inr hkept) fun h => absurd h hown

/-- **What is written again leaves its scope exactly if this is the closure itself.**  The
receiver and the arguments are moved from below the closure to where the replaced node stands.
There `this` means the same, unless the closure is a function expression and no other function,
method or class around it is moved along; and `await` waits in the same function only if that
function is moved along. -/
theorem reemitted_keeps_scope_iff (o : Options) (src : Source) (p : Place) (hit : Hit)
    (form : Form) (m : MethodCall) (r : Node) (hcheck : check o src p = .ok (some hit))
    (hcall : p.node.forwardedCall? o.includeAsync = some (form, m)) (hr : r ∈ m.reemitted) :
    ∃ (below : List Frame) (target : Place),
      Place.rootOf r below = p.node ∧ target.root = p.root ∧ p.node.Within target.node ∧
      (∃ text, hit.finding.suggestions =
        [⟨target.node.span.start, target.node.span.stop, text⟩]) ∧
      ∀ q ∈ r.places,
        (q.scope thisScopes (below ++ p.above) = q.scope thisScopes target.above ↔
          (p.node.kind = .functionExpression → ∃ f ∈ q.above, f.label.kind ∈ thisScopes)) ∧
        (q.scope awaitScopes (below ++ p.above) = q.scope awaitScopes target.above ↔
          ∃ f ∈ q.above, f.label.kind ∈ awaitScopes) := by
  have hforwards := Node.forwardedCall?_eq_some_iff.1 hcall
  obtain ⟨inner, own, hbelow, hlabel, hinner⟩ := hforwards.exists_frames hr
  obtain ⟨between, rest, text, habove, hbetween, hsuggestions⟩ := exists_replaced hcheck
  have hkind : own.label.kind = p.node.kind := by
    rw [hlabel]
    rfl
  have hroot : Place.root ⟨Place.rootOf p.node between, rest⟩ = p.root := by
    rw [Place.root, Place.root, habove, Place.rootOf_append]
  refine ⟨inner ++ [own], ⟨Place.rootOf p.node between, rest⟩, hbelow, hroot,
    Place.within_rootOf p.node between, ⟨text, hsuggestions⟩, ?_⟩
  intro q _
  rw [habove, scope_of_moved_eq_iff (by decide) hinner hbetween,
    scope_of_moved_eq_iff (by decide) hinner hbetween, hkind]
  rcases hforwards.closure with ⟨harrow, -⟩ | ⟨hfunction, -⟩
  · -- an arrow function settles `await` and leaves `this` to what is around it
    have hthis : Kind.arrowFunction ∉ thisScopes := by decide
    have hne : Kind.arrowFunction ≠ .functionExpression := by decide
    have hawait : Kind.arrowFunction ∈ awaitScopes := by decide
    simp [harrow, hthis, hne, hawait]
  · have hthis : Kind.functionExpression ∈ thisScopes := by decide
    have hawait : Kind.functionExpression ∈ awaitScopes := by decide
    simp [hfunction, hthis, hawait]

theorem Node.exists_reemitted {n : Node} {includeAsync : Bool} {kinds : List Kind} {kind : Kind}
    (h : (n.forwardedCall? includeAsync).map (fun found => found.2.reemitted.map Node.kind) =
      some kinds) (hkind : kind ∈ kinds) :
    ∃ form m r, n.forwardedCall? includeAsync = some (form, m) ∧ r ∈ m.reemitted ∧
      r.kind = kind := by
  obtain ⟨⟨form, m⟩, hcall, rfl⟩ := Option.map_eq_some_iff.1 h
  obtain ⟨r, hr, hkind⟩ := List.mem_map.1 hkind
  exact ⟨form, m, r, hcall, hr, hkind⟩

/-- A function expression that forwards to a method of its own `this`. -/
def ownThisText : String := "on(function () { this.m(); })"

/-- The tree of `ownThisText`. -/
def ownThisTree : Node :=
  callTree 2 29
    [.part .functionExpression 3 28 none
      [.part ⟨"formal_parameters"⟩ 12 14 (some .parameters) [],
        .part .statementBlock 15 28 (some .body)
          [.part .expressionStatement 17 26 none
            [.part .call 17 25 none
              [.part .member 17 23 (some .function)
                [.part ⟨"this"⟩ 17 21 (some .object) [],
                  .part .propertyIdentifier 22 23 (some .property) []],
                .part .arguments 23 25 (some .arguments) []]]]]]

/-- The receiver is the `this` of the function, and is written again outside of it. -/
theorem reemitted_keeps_scope_iff_ownThis :
    let o : Options := ⟨true, ["on"], false⟩
    let src := Source.ofText ownThisText
    let p := ownThisTree.places.get ⟨4, by decide⟩
    ∃ hit form m r, check o src p = .ok (some hit) ∧
      p.node.forwardedCall? o.includeAsync = some (form, m) ∧ r ∈ m.reemitted ∧
      ∃ (below : List Frame) (target : Place), Place.rootOf r below = p.node ∧
        target.root = p.root ∧
        Place.scope thisScopes ⟨r, []⟩ (below ++ p.above) ≠
          Place.scope thisScopes ⟨r, []⟩ target.above := by
  intro o src p
  obtain ⟨hit, hcheck⟩ : ∃ hit, check o src p = .ok (some hit) := exists_hit (by decide +kernel)
  obtain ⟨form, m, r, hcall, hr, -⟩ : ∃ form m r,
      p.node.forwardedCall? o.includeAsync = some (form, m) ∧ r ∈ m.reemitted ∧
        r.kind = ⟨"this"⟩ :=
    Node.exists_reemitted (by decide +kernel) (List.mem_singleton_self _)
  obtain ⟨below, target, hbelow, hroot, -, -, hscopes⟩ :=
    reemitted_keeps_scope_iff o src p hit form m r hcheck hcall hr
  refine ⟨hit, form, m, r, hcheck, hcall, hr, below, target, hbelow, hroot, ?_⟩
  intro hkept
  have hfunction : p.node.kind = .functionExpression := by decide +kernel
  obtain ⟨f, hf, -⟩ := (hscopes ⟨r, []⟩ (Node.mem_places_self r)).1.1 hkept hfunction
  cases hf

/-- A closure marked `async` that awaits what it forwards. -/
def ownAwaitText : String := "setTimeout(async () => o.m(await f()))"

/-- The tree of `ownAwaitText`. -/
def ownAwaitTree : Node :=
  callTree 10 38
    [.part .arrowFunction 11 37 none
      [.mk { kind := .async, span := ⟨11, 16⟩, named := false } [],
        .part ⟨"formal_parameters"⟩ 17 19 (some .parameters) [],
        .part .call 23 37 (some .body)
          [.part .member 23 26 (some .function)
            [.part .identifier 23 24 (some .object) [],
              .part .propertyIdentifier 25 26 (some .property) []],
            .part .arguments 26 37 (some .arguments)
              [.part .await 27 36 none
                [.part .call 33 36 none
                  [.part .identifier 33 34 (some .function) [],
                    .part .arguments 34 36 (some .arguments) []]]]]]]

/-- The `this` of a function expression, and an `await` of a closure marked `async`, are written
again outside of them. -/
theorem this_and_await_leave_closure :
    (let o : Options := ⟨true, ["on"], false⟩
      let src := Source.ofText ownThisText
      let p := ownThisTree.places.get ⟨4, by decide⟩
      p.node.kind = .functionExpression ∧
        (check o src p).toOption.join.map (fun hit => hit.finding.suggestions) =
          some [⟨3, 28, "this.m.bind(this)"⟩] ∧
        ∃ form m r, p.node.forwardedCall? o.includeAsync = some (form, m) ∧ r ∈ m.reemitted ∧
          ∃ q ∈ r.places, q.node.kind = ⟨"this"⟩ ∧ ∀ f ∈ q.above, f.label.kind ∉ thisScopes) ∧
    (let o : Options := ⟨true, ["on"], true⟩
      let src := Source.ofText ownAwaitText
      let p := ownAwaitTree.places.get ⟨4, by decide⟩
      p.node.hasToken .async = true ∧
        (check o src p).toOption.join.map (fun hit => hit.finding.suggestions) =
          some [⟨0, 38, "setTimeout(o.m.bind(o), 0, await f())"⟩] ∧
        ∃ form m r, p.node.forwardedCall? o.includeAsync = some (form, m) ∧ r ∈ m.reemitted ∧
          ∃ q ∈ r.places, q.node.kind = .await ∧ ∀ f ∈ q.above, f.label.kind ∉ awaitScopes) := by
  constructor
  · intro o src p
    obtain ⟨form, m, r, hcall, hr, hkind⟩ : ∃ form m r,
        p.node.forwardedCall? o.includeAsync = some (form, m) ∧ r ∈ m.reemitted ∧
          r.kind = ⟨"this"⟩ :=
      Node.exists_reemitted (by decide +kernel) (List.mem_singleton_self _)
    refine ⟨by decide +kernel, by decide +kernel, form, m, r, hcall, hr, ?_⟩
    exact ⟨⟨r, []⟩, Node.mem_places_self r, hkind, by simp⟩
  · intro o src p
    obtain ⟨form, m, r, hcall, hr, hkind⟩ : ∃ form m r,
        p.node.forwardedCall? o.includeAsync = some (form, m) ∧ r ∈ m.reemitted ∧
          r.kind = .await :=
      Node.exists_reemitted (by decide +kernel)
        (show Kind.await ∈ [Kind.identifier, Kind.await] by decide)
    refine ⟨by decide +kernel, by decide +kernel, form, m, r, hcall, hr, ?_⟩
    exact ⟨⟨r, []⟩, Node.mem_places_self r, hkind, by simp⟩

end BindLint
