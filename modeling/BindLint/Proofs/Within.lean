import BindLint.CallSite
import BindLint.Closure
import BindLint.Proofs.Boundary

/-!
# Nodes within a tree

Checking a closure reads the texts of nodes below it (receiver, property and
arguments of the forwarded call) and of nodes above it (the call it is passed to,
that call's callee and delay).  All of these lie within the tree that is linted, so
whatever a parser promises about every node of its trees holds of each of them.

The promise that matters for reading is that every node starts and stops between two
characters (`Node.Aligned`).

## Main definitions

* `Node.Within` — a node is another one or lies below it.
* `Node.Aligned` — every node within a tree starts and stops between characters.

## Main results

* `Place.forall_mem_places_iff` — the nodes within a tree are those at its places.
* `Node.within_of_forwardedCall?` — the parts of a forwarded call lie within the closure.
* `Node.Aligned.exists_text` — nodes within an aligned tree can be read.
-/

namespace BindLint
namespace Node

/-! ### Lying within -/

/-- A node is another one or lies below it. -/
inductive Within : Node → Node → Prop where
  /-- A node lies within itself. -/
  | refl (n : Node) : Within n n
  /-- What lies within a child lies within the node. -/
  | child {m c n : Node} (hc : c ∈ n.children) (h : Within m c) : Within m n

theorem within_of_mem_children {c n : Node} (h : c ∈ n.children) : c.Within n :=
  .child h (.refl c)

theorem Within.trans {a b c : Node} (hab : a.Within b) (hbc : b.Within c) : a.Within c := by
  induction hbc with
  | refl => exact hab
  | child hc _ ih => exact .child hc ih

theorem within_of_child? {n c : Node} {f : Field} (h : n.child? f = some c) : c.Within n :=
  within_of_mem_children (List.mem_of_find?_eq_some h)

theorem within_of_mem_significantChildren {n c : Node} (h : c ∈ n.significantChildren) :
    c.Within n :=
  within_of_mem_children (List.mem_filter.1 h).1

theorem within_of_soleChild? {n c : Node} (h : n.soleChild? = some c) : c.Within n := by
  apply within_of_mem_significantChildren
  unfold soleChild? at h
  split at h
  · next heq =>
    cases h
    rw [heq]
    exact List.mem_singleton_self c
  · cases h

mutual

theorem unwrap_within (n : Node) : n.unwrap.Within n := by
  cases n with
  | mk l cs =>
    rw [unwrap]
    split
    · cases h : unwrapSole? cs with
      | none => exact .refl _
      | some m =>
        obtain ⟨c, hc, hm⟩ := within_of_unwrapSole? cs m h
        exact .child hc hm
    · exact .refl _

theorem within_of_unwrapSole? (cs : List Node) :
    ∀ m, unwrapSole? cs = some m → ∃ c ∈ cs, m.Within c := by
  cases cs with
  | nil => simp [unwrapSole?]
  | cons c cs =>
    intro m hm
    rw [unwrapSole?] at hm
    split at hm
    · split at hm
      · cases hm
      · cases hm
        exact ⟨c, List.mem_cons_self, unwrap_within c⟩
    · obtain ⟨d, hd, h⟩ := within_of_unwrapSole? cs m hm
      exact ⟨d, List.mem_cons_of_mem c hd, h⟩

end

/-! ### The parts of a forwarded call -/

theorem within_of_forwarding? {body : BodyKind} {e : Node} {f : Forwarding}
    (h : e.forwarding? body = some f) : f.call.Within e := by
  unfold forwarding? at h
  split at h
  · cases h
    exact unwrap_within e
  · split at h
    · split at h
      · next operand hsole =>
        split at h
        · cases h
          exact ((unwrap_within operand).trans (within_of_soleChild? hsole)).trans
            (unwrap_within e)
        · cases h
      · cases h
    · cases h

theorem within_of_soleExpression? {block e : Node} (h : block.soleExpression? = some e) :
    e.Within block := by
  unfold soleExpression? at h
  split at h
  · next statement hsole =>
    split at h
    · exact (within_of_soleChild? h).trans (within_of_soleChild? hsole)
    · cases h
  · cases h

theorem within_of_candidate_forwarding? {c : Candidate} {f : Forwarding}
    (h : c.forwarding? = some f) : f.call.Within c.body := by
  unfold Candidate.forwarding? at h
  split at h
  · exact within_of_forwarding? h
  · obtain ⟨e, he, hf⟩ := Option.bind_eq_some_iff.1 h
    exact (within_of_forwarding? hf).trans (within_of_soleExpression? he)

theorem within_of_plainAccess? {callee receiver property : Node}
    (h : callee.plainAccess? = some (receiver, property)) :
    receiver.Within callee ∧ property.Within callee := by
  unfold plainAccess? at h
  split at h
  · split at h
    · next hr hp =>
      split at h
      · cases h
        exact ⟨within_of_child? hr, within_of_child? hp⟩
      · cases h
    · cases h
  · cases h

end Node

/-- A property of all parts of a method call. -/
def MethodCall.All (m : MethodCall) (P : Node → Prop) : Prop :=
  P m.receiver ∧ P m.property ∧ ∀ a ∈ m.arguments, P a

namespace Node

theorem within_of_methodCall? {call : Node} {m : MethodCall} (h : call.methodCall? = some m) :
    m.All fun part => part.Within call := by
  unfold methodCall? at h
  split at h
  · next args callee hargs hcallee =>
    split at h
    · obtain ⟨⟨receiver, property⟩, hplain, rfl⟩ := Option.map_eq_some_iff.1 h
      obtain ⟨hr, hp⟩ := within_of_plainAccess? hplain
      have hin : callee.Within call := within_of_child? hcallee
      refine ⟨hr.trans hin, hp.trans hin, fun a ha => ?_⟩
      exact (within_of_mem_significantChildren ha).trans (within_of_child? hargs)
    · cases h
  · cases h

/-- The parts of a forwarded call lie within the closure. -/
theorem within_of_forwardedCall? {includeAsync : Bool} {n : Node} {form : Form} {m : MethodCall}
    (h : n.forwardedCall? includeAsync = some (form, m)) : m.All fun part => part.Within n := by
  unfold forwardedCall? at h
  split at h
  · cases h
  · next c hc =>
    split at h
    · cases h
    · obtain ⟨f, hf, hm⟩ := Option.bind_eq_some_iff.1 h
      obtain ⟨m', hm', heq⟩ := Option.map_eq_some_iff.1 hm
      cases heq
      have hbody : c.body.Within n := by
        unfold candidate? at hc
        split at hc
        · obtain ⟨body, hb, rfl⟩ := Option.map_eq_some_iff.1 hc
          exact within_of_child? hb
        · cases hc
      have hcall : f.call.Within n := (within_of_candidate_forwarding? hf).trans hbody
      obtain ⟨hr, hp, ha⟩ := within_of_methodCall? hm'
      exact ⟨hr.trans hcall, hp.trans hcall, fun a h => (ha a h).trans hcall⟩

end Node

/-! ### What stands above a place -/

namespace Place

theorem within_fill (f : Frame) (n : Node) : n.Within (f.fill n) := by
  apply Node.within_of_mem_children
  rw [Frame.fill, Node.children_mk]
  exact List.mem_append_right _ List.mem_cons_self

theorem within_rootOf (n : Node) (fs : List Frame) : n.Within (rootOf n fs) := by
  induction fs generalizing n with
  | nil => exact .refl n
  | cons f fs ih => exact (within_fill f n).trans (ih (f.fill n))

theorem rootOf_append (n : Node) (fs gs : List Frame) :
    rootOf n (fs ++ gs) = rootOf (rootOf n fs) gs := by
  induction fs generalizing n with
  | nil => rfl
  | cons f fs ih => exact ih (f.fill n)

/-- A node lies within the tree of its place. -/
theorem within_root_of_mem_places {tree : Node} {p : Place} (h : p ∈ tree.places) :
    p.node.Within tree := by
  rw [← root_of_mem_places h]
  exact within_rootOf p.node p.above

/-- Every node within a tree stands at one of its places. -/
theorem exists_mem_places {m n : Node} (h : m.Within n) : ∃ p ∈ n.places, p.node = m := by
  induction h with
  | refl => exact ⟨⟨m, []⟩, m.mem_places_self, rfl⟩
  | @child c n hc _ ih =>
    obtain ⟨p, hp, hm⟩ := ih
    obtain ⟨i, hi⟩ := List.mem_iff_getElem?.1 hc
    exact ⟨p.under (n.holeAt i), Node.mem_places_iff.2 (Or.inr ⟨c, i, hi, p, hp, rfl⟩), hm⟩

/-- What holds at every place of a tree holds of every node within it. -/
theorem forall_mem_places_iff {tree : Node} {P : Node → Prop} :
    (∀ p ∈ tree.places, P p.node) ↔ ∀ n : Node, n.Within tree → P n := by
  constructor
  · intro h n hn
    obtain ⟨p, hp, rfl⟩ := exists_mem_places hn
    exact h p hp
  · intro h p hp
    exact h p.node (within_root_of_mem_places hp)

end Place

/-! ### Reading aligned trees -/

/-- Every node within a tree starts and stops between two characters of a text. -/
def Node.Aligned (tree : Node) (text : String) : Prop :=
  ∀ n : Node, n.Within tree →
    Utf8.IsBoundary text n.span.start ∧ Utf8.IsBoundary text n.span.stop

/-- Alignment can be checked place by place. -/
instance (tree : Node) (text : String) : Decidable (tree.Aligned text) :=
  decidable_of_iff
    (∀ p ∈ tree.places, Utf8.IsBoundary text p.node.span.start ∧
      Utf8.IsBoundary text p.node.span.stop) <| by
    rw [Node.Aligned, ← Place.forall_mem_places_iff]

/-- Nodes within an aligned tree can be read. -/
theorem Node.Aligned.exists_text {tree n : Node} {text : String} (h : tree.Aligned text)
    (hn : n.Within tree) : ∃ t, n.text (.ofText text) = .ok t :=
  Source.exists_read (h n hn).1 (h n hn).2

end BindLint
