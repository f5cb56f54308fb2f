import BindLint.Proofs.Gating

/-!
# Where syntax errors are reported

A parser that cannot place a piece of text, or that has to make a piece up, puts a node at fault
into its tree, and marks that node and all nodes above it.  A marked tree is refused, and the error
is reported where the first node at fault starts.

The search for that node goes down from the root, always into the first marked child, and never
comes back.  It therefore rests on the marks: if every node is marked exactly when it is at fault
or has a marked child, the first marked child is where the first fault lies, and the search cannot
end at a node that is not at fault.

## Main definitions

* `Node.Recorded` — the marks of a tree tell where its faults are.

## Main results

* `Node.find?_placesUnder` — the search finds the first node at fault in depth-first pre-order.
* `Node.Recorded.hasError_iff` — a tree is marked exactly if something in it is at fault.
* `syntax_error_at_first_fault` — **a text is refused exactly if its tree holds a fault, and the
  error is reported at the first one.**
-/

namespace BindLint
namespace Node

/-! ### Marks -/

/-- Every node within a tree is marked exactly if it is at fault or a child of it is marked. -/
def Recorded (tree : Node) : Prop :=
  ∀ n : Node, n.Within tree →
    (n.hasError = true ↔ n.isFault = true ∨ ∃ c ∈ n.children, c.hasError = true)

/-- Marks can be checked place by place. -/
instance (tree : Node) : Decidable tree.Recorded :=
  decidable_of_iff
    (∀ p ∈ tree.places, (p.node.hasError = true ↔
      p.node.isFault = true ∨ ∃ c ∈ p.node.children, c.hasError = true)) <| by
    rw [Recorded, ← Place.forall_mem_places_iff]

theorem Recorded.of_mem_children {c n : Node} (h : n.Recorded) (hc : c ∈ n.children) :
    c.Recorded := by
  intro m hm
  exact h m (hm.trans (within_of_mem_children hc))

theorem isFault_of_isMissing {n : Node} (h : n.label.isMissing = true) : n.isFault = true := by
  simp [isFault, h]

/-- A missing node is marked like any other fault, so that the search need not ask for it. -/
theorem Recorded.marked_eq {n : Node} (h : n.Recorded) :
    (n.hasError || n.label.isMissing) = n.hasError := by
  cases hmissing : n.label.isMissing with
  | false => exact Bool.or_false _
  | true =>
    have hmarked : n.hasError = true :=
      (h n (.refl n)).2 (Or.inl (isFault_of_isMissing hmissing))
    rw [hmarked]
    rfl

/-! ### The search -/

theorem firstFault_of_isFault {n : Node} (h : n.isFault = true) : n.firstFault = n := by
  cases n with
  | mk l cs => exact if_pos h

theorem firstFault_of_not_isFault {n : Node} (h : ¬n.isFault = true) :
    n.firstFault = (firstFaultIn? n.children).getD n := by
  cases n with
  | mk l cs => exact if_neg h

/-- The search among some nodes finds something exactly if one of them is marked. -/
theorem isSome_firstFaultIn? {cs : List Node} (h : ∀ c ∈ cs, c.Recorded) :
    (firstFaultIn? cs).isSome = cs.any hasError := by
  induction cs with
  | nil => rfl
  | cons c cs ih =>
    have hc := (h c List.mem_cons_self).marked_eq
    have hcs := ih fun d hd => h d (List.mem_cons_of_mem c hd)
    rw [firstFaultIn?, hc, List.any_cons]
    cases c.hasError with
    | true => rfl
    | false => simpa using hcs

mutual

/-- **The search finds the first node at fault** in depth-first pre-order, if the node it starts
from is marked; otherwise nothing is at fault. -/
theorem find?_placesUnder {n : Node} (h : n.Recorded) (above : List Frame) :
    ((n.placesUnder above).find? fun p => p.node.isFault).map Place.node =
      if n.hasError then some n.firstFault else none := by
  cases n with
  | mk l cs =>
    have hcs : ∀ c ∈ cs, c.Recorded := fun c hc => h.of_mem_children hc
    have hmark := h _ (.refl _)
    rw [placesUnder]
    by_cases hfault : (mk l cs).isFault = true
    · have hmarked : (mk l cs).hasError = true := hmark.2 (Or.inl hfault)
      rw [List.find?_cons_of_pos (by exact hfault), if_pos hmarked, firstFault_of_isFault hfault,
        Option.map_some]
    · -- the fault lies below, where the search goes into the first marked child
      have hsearch := find?_placesAmong hcs l above []
      have hsome : (firstFaultIn? cs).isSome = (mk l cs).hasError := by
        rw [isSome_firstFaultIn? hcs, Bool.eq_iff_iff, List.any_eq_true, hmark]
        simp [hfault]
      rw [List.find?_cons_of_neg (by exact hfault), hsearch, firstFault_of_not_isFault hfault,
        ← hsome, children_mk]
      cases firstFaultIn? cs with
      | none => rfl
      | some m => rfl

theorem find?_placesAmong {cs : List Node} (h : ∀ c ∈ cs, c.Recorded) (l : Label)
    (above : List Frame) (before : List Node) :
    ((placesAmong l above before cs).find? fun p => p.node.isFault).map Place.node =
      firstFaultIn? cs := by
  cases cs with
  | nil => rfl
  | cons c after =>
    have hc : c.Recorded := h c List.mem_cons_self
    have hafter : ∀ d ∈ after, d.Recorded := fun d hd => h d (List.mem_cons_of_mem c hd)
    rw [placesAmong, List.find?_append, Option.map_or, find?_placesUnder hc,
      find?_placesAmong hafter, firstFaultIn?, hc.marked_eq]
    cases c.hasError with
    | true => rfl
    | false => rfl

end

/-- A marked tree has a first node at fault, and the search ends there. -/
theorem Recorded.exists_first {tree : Node} (h : tree.Recorded) (hmarked : tree.hasError = true) :
    ∃ p, tree.places.find? (fun p => p.node.isFault) = some p ∧ p.node.isFault = true ∧
      tree.firstFault = p.node := by
  have hsearch := find?_placesUnder h []
  rw [if_pos hmarked] at hsearch
  obtain ⟨p, hp, hnode⟩ := Option.map_eq_some_iff.1 hsearch
  exact ⟨p, hp, by simpa using List.find?_some hp, hnode.symm⟩

/-- A tree is marked exactly if something within it is at fault. -/
theorem Recorded.hasError_iff {tree : Node} (h : tree.Recorded) :
    tree.hasError = true ↔ ∃ n : Node, n.Within tree ∧ n.isFault = true := by
  constructor
  · intro hmarked
    obtain ⟨p, hp, hfault, -⟩ := h.exists_first hmarked
    exact ⟨p.node, Place.within_root_of_mem_places (List.mem_of_find?_eq_some hp), hfault⟩
  · intro ⟨n, hn, hfault⟩
    by_contra hmarked
    have hsearch := find?_placesUnder h []
    rw [if_neg hmarked, Option.map_eq_none_iff, List.find?_eq_none] at hsearch
    exact (Place.forall_mem_places_iff (P := fun m => ¬m.isFault = true)).1 hsearch n hn hfault

end Node

/-! ### Texts that do not parse -/

/-- **A text is refused exactly if its tree holds a fault**, anywhere, as long as the marks of the
tree tell where its faults are.  The error is then reported where the first node at fault in
depth-first pre-order starts; this is where the search ends, so that it never ends at a node that
is not at fault. -/
theorem syntax_error_at_first_fault (parse : Parser) (o : Options) (path : Path) (text : String)
    (hpath : path.isScannable = true) (htree : (parse path text).Recorded) :
    ((∃ e, (lint parse o path text).findings = .error (.unparsable e)) ↔
        ∃ n : Node, n.Within (parse path text) ∧ n.isFault = true) ∧
      ∀ e, (lint parse o path text).findings = .error (.unparsable e) →
        ∃ p, (parse path text).places.find? (fun p => p.node.isFault) = some p ∧
          p.node.isFault = true ∧ (parse path text).firstFault = p.node ∧
          e =
            { path
              line := (Source.point (.ofText text) p.node.span.start).row + 1
              column := (Source.point (.ofText text) p.node.span.start).column } := by
  constructor
  · rw [← htree.hasError_iff]
    constructor
    · intro ⟨e, he⟩
      exact (findings_eq_unparsable_iff.1 he).2.1
    · intro hmarked
      exact ⟨_, findings_eq_unparsable_iff.2 ⟨hpath, hmarked, rfl⟩⟩
  · intro e he
    obtain ⟨-, hmarked, herror⟩ := findings_eq_unparsable_iff.1 he
    obtain ⟨p, hp, hfault, hfirst⟩ := htree.exists_first hmarked
    refine ⟨p, hp, hfault, hfirst, ?_⟩
    rw [herror, SyntaxError.ofTree, hfirst]

/-- A node at fault: one that the parser made up, or one for text that it could not place. -/
def Node.faulty (kind : Kind) (missing : Bool) (start stop : Nat) : Node :=
  .ofLabel ⟨kind, ⟨start, stop⟩, !missing, none, !missing, missing, false⟩ []

/-- A text in whose second line a parenthesis is missing, and whose third is nothing but one. -/
def unclosedText : String := "x;\nf(é;\n)"

/-- The tree of `unclosedText`. -/
def unclosedTree : Node :=
  .part ⟨"program"⟩ 0 10 none
    [.part .expressionStatement 0 2 none [.part .identifier 0 1 none []],
      .part .expressionStatement 3 8 none
        [.part .call 3 7 none
          [.part .identifier 3 4 (some .function) [],
            .part .arguments 4 7 (some .arguments)
              [.part .identifier 5 7 none [], .faulty ⟨")"⟩ true 7 7]]],
      .faulty ⟨"ERROR"⟩ false 9 10]

/-- The missing parenthesis lies deeper than the other fault and comes first; the letter before it
counts for two columns. -/
theorem syntax_error_at_first_fault_missing :
    let path : Path := ⟨0, ["a.js"]⟩
    path.isScannable = true ∧ unclosedTree.Recorded ∧
      (∃ n : Node, n.Within unclosedTree ∧ n.isFault = true) ∧
      (lint (fun _ _ => unclosedTree) {} path unclosedText).findings =
        .error (.unparsable ⟨path, 2, 4⟩) := by
  intro path
  have hpath : path.isScannable = true := by decide
  have htree : unclosedTree.Recorded := by decide
  have hfault : ∃ n : Node, n.Within unclosedTree ∧ n.isFault = true :=
    ⟨.faulty ⟨"ERROR"⟩ false 9 10,
      Node.within_of_mem_children (by simp [unclosedTree, Node.part, Node.ofLabel]), by decide⟩
  obtain ⟨hiff, hfirst⟩ :=
    syntax_error_at_first_fault (fun _ _ => unclosedTree) {} path unclosedText hpath htree
  obtain ⟨e, he⟩ := hiff.2 hfault
  obtain ⟨p, hp, -, -, herror⟩ := hfirst e he
  have hspan : (unclosedTree.places.find? fun p => p.node.isFault).map (fun p => p.node.span) =
      some ⟨7, 7⟩ := by decide
  rw [hp, Option.map_some, Option.some.injEq] at hspan
  rw [hspan] at herror
  refine ⟨hpath, htree, hfault, ?_⟩
  rw [he, herror]
  decide +kernel

end BindLint
