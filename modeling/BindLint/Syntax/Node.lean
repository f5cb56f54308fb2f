/-!
# Concrete syntax trees

A tree as a parser hands it over: every token and every comment is a node.  A
node knows the symbol of the grammar it stands for, the bytes it covers, whether
the grammar names it, under which field it hangs in its parent, and whether the
parser had to invent or skip something there.

## Main definitions

* `Kind`, `Field`, `Span` — symbol, field name and byte range of a node.
* `Node` — a label and the children in order.
* `Node.significantChildren` — the named children other than comments.
* `Node.unwrap` — what stands inside any number of parentheses.

## Main results

* `Node.unwrap_of_ne`, `Node.unwrap_of_sole`, `Node.unwrap_of_not_sole` — the
  three equations of `Node.unwrap`.
-/

namespace BindLint

/-! ### Labels -/

/-- A symbol of the grammar, by its name. -/
structure Kind where
  /-- The name of the symbol. -/
  name : String
  deriving DecidableEq, Repr, Inhabited

namespace Kind

/-- An arrow function, `() => e`. -/
def arrowFunction : Kind := ⟨"arrow_function"⟩
/-- A function in the place of an expression, `function () { ... }`. -/
def functionExpression : Kind := ⟨"function_expression"⟩
/-- A block `{ ... }`, as a statement or as the body of a function. -/
def statementBlock : Kind := ⟨"statement_block"⟩
/-- An expression in the place of a statement. -/
def expressionStatement : Kind := ⟨"expression_statement"⟩
/-- An expression in parentheses, `(e)`. -/
def parenthesized : Kind := ⟨"parenthesized_expression"⟩
/-- A call, `f(a, b)`. -/
def call : Kind := ⟨"call_expression"⟩
/-- An awaited expression, `await e`. -/
def await : Kind := ⟨"await_expression"⟩
/-- The list `(a, b)` of a call. -/
def arguments : Kind := ⟨"arguments"⟩
/-- A property access, `a.b`. -/
def member : Kind := ⟨"member_expression"⟩
/-- The name `b` in `a.b`. -/
def propertyIdentifier : Kind := ⟨"property_identifier"⟩
/-- A name on its own. -/
def identifier : Kind := ⟨"identifier"⟩
/-- The word `super`. -/
def super : Kind := ⟨"super"⟩
/-- A comment. -/
def comment : Kind := ⟨"comment"⟩
/-- The mark `?.`. -/
def optionalChain : Kind := ⟨"optional_chain"⟩
/-- The word `async`. -/
def async : Kind := ⟨"async"⟩
/-- The star of a generator. -/
def star : Kind := ⟨"*"⟩

end Kind

/-- The name under which a node hangs in its parent. -/
structure Field where
  /-- The name itself. -/
  name : String
  deriving DecidableEq, Repr, Inhabited

namespace Field

/-- The lone parameter of `x => e`. -/
def parameter : Field := ⟨"parameter"⟩
/-- The parameter list of a function. -/
def parameters : Field := ⟨"parameters"⟩
/-- The body of a function. -/
def body : Field := ⟨"body"⟩
/-- What is called. -/
def function : Field := ⟨"function"⟩
/-- What it is called with. -/
def arguments : Field := ⟨"arguments"⟩
/-- What a property is taken from. -/
def object : Field := ⟨"object"⟩
/-- The property that is taken. -/
def property : Field := ⟨"property"⟩
/-- The mark `?.` of an access or a call. -/
def optionalChain : Field := ⟨"optional_chain"⟩

end Field

/-- A range of byte offsets; `stop` is the first offset after it. -/
structure Span where
  /-- The first offset. -/
  start : Nat
  /-- The first offset after the range. -/
  stop : Nat
  deriving DecidableEq, Repr, Inhabited

/-- What a node says about itself, its children apart. -/
structure Label where
  /-- The symbol it stands for. -/
  kind : Kind
  /-- The bytes it covers. -/
  span : Span
  /-- Whether the grammar names it; a token such as `(` is not named. -/
  named : Bool := true
  /-- The field it hangs under. -/
  field : Option Field := none
  /-- Whether it stands for text the parser could not place. -/
  isError : Bool := false
  /-- Whether the parser made it up. -/
  isMissing : Bool := false
  /-- Whether an error is recorded at it or below it. -/
  hasError : Bool := false
  deriving DecidableEq, Repr, Inhabited

/-- A node of a concrete syntax tree. -/
inductive Node where
  /-- A label with the children in order. -/
  | mk (label : Label) (children : List Node) : Node
  deriving Repr, Inhabited

namespace Node

/-! ### Reading a node -/

/-- What a node says about itself. -/
def label : Node → Label
  | mk l _ => l

/-- The children in order, tokens and comments included. -/
def children : Node → List Node
  | mk _ cs => cs

/-- The symbol of a node. -/
def kind (n : Node) : Kind := n.label.kind

/-- The bytes of a node. -/
def span (n : Node) : Span := n.label.span

/-- Whether the grammar names a node. -/
def named (n : Node) : Bool := n.label.named

/-- The field a node hangs under. -/
def field (n : Node) : Option Field := n.label.field

/-- Whether an error is recorded at a node or below it. -/
def hasError (n : Node) : Bool := n.label.hasError

/-- Whether a node is itself an error or was made up. -/
def isFault (n : Node) : Bool := n.label.isError || n.label.isMissing

/-- A node whose error flag is worked out: it is set if the node is itself at
fault or the flag of a child is set. -/
def ofLabel (l : Label) (cs : List Node) : Node :=
  mk { l with hasError := l.isError || l.isMissing || cs.any hasError } cs

/-- The first child under a field. -/
def child? (n : Node) (f : Field) : Option Node :=
  n.children.find? fun c => c.field = some f

/-- Whether a node counts: it is named and no comment. -/
def isSignificant (n : Node) : Bool := n.named && n.kind ≠ .comment

/-- The named children that are no comments. -/
def significantChildren (n : Node) : List Node := n.children.filter isSignificant

/-- The one significant child, if there is exactly one. -/
def soleChild? (n : Node) : Option Node :=
  match n.significantChildren with
  | [c] => some c
  | _ => none

/-- Whether a node is an optional access `a?.b` or an optional call `a?.()`. -/
def hasOptionalChain (n : Node) : Bool :=
  n.children.any fun c => c.field = some .optionalChain || c.kind = .optionalChain

/-- Whether a token of this kind, such as `async`, is a child. -/
def hasToken (n : Node) (token : Kind) : Bool :=
  n.children.any fun c => !c.named && c.kind = token

@[simp] theorem label_mk (l : Label) (cs : List Node) : (mk l cs).label = l := rfl
@[simp] theorem children_mk (l : Label) (cs : List Node) : (mk l cs).children = cs := rfl

/-! ### Parentheses -/

mutual

/-- What stands inside the parentheses around an expression, however many there
are.  Parentheses that hold nothing, or more than one thing, stay as they are. -/
def unwrap : Node → Node
  | mk l cs =>
      if l.kind = .parenthesized then (unwrapSole? cs).getD (mk l cs) else mk l cs

/-- The only significant one of some nodes, unwrapped. -/
def unwrapSole? : List Node → Option Node
  | [] => none
  | c :: cs =>
      if c.isSignificant then (if cs.any isSignificant then none else some c.unwrap)
      else unwrapSole? cs

end

theorem unwrapSole?_eq (cs : List Node) :
    unwrapSole? cs =
      match cs.filter isSignificant with
      | [c] => some c.unwrap
      | _ => none := by
  induction cs with
  | nil => simp [unwrapSole?]
  | cons c cs ih =>
    rw [unwrapSole?]
    by_cases hc : c.isSignificant = true
    · rw [if_pos hc, List.filter_cons_of_pos hc]
      by_cases hcs : cs.any isSignificant = true
      · rw [if_pos hcs]
        obtain ⟨d, hd, hs⟩ := List.any_eq_true.1 hcs
        have hmem : d ∈ cs.filter isSignificant := List.mem_filter.2 ⟨hd, hs⟩
        cases h : cs.filter isSignificant with
        | nil => simp [h] at hmem
        | cons e es => rfl
      · rw [if_neg hcs]
        have : cs.filter isSignificant = [] := by
          simpa [List.filter_eq_nil_iff, List.any_eq_true] using hcs
        rw [this]
    · rw [if_neg hc, List.filter_cons_of_neg hc, ih]

/-- What is no parenthesis is left alone. -/
theorem unwrap_of_ne {n : Node} (h : n.kind ≠ .parenthesized) : n.unwrap = n := by
  cases n with
  | mk l cs =>
    have h' : ¬l.kind = .parenthesized := h
    rw [unwrap, if_neg h']

/-- Parentheses around one thing are looked through. -/
theorem unwrap_of_sole {n c : Node} (h : n.kind = .parenthesized) (hc : n.soleChild? = some c) :
    n.unwrap = c.unwrap := by
  cases n with
  | mk l cs =>
    have h' : l.kind = .parenthesized := h
    rw [unwrap, if_pos h', unwrapSole?_eq]
    simp only [soleChild?, significantChildren, children_mk] at hc
    split at hc
    · next c' heq =>
      cases hc
      simp
    · cases hc

/-- Parentheses around nothing, or around several things, stay. -/
theorem unwrap_of_not_sole {n : Node} (hc : n.soleChild? = none) : n.unwrap = n := by
  cases n with
  | mk l cs =>
    rw [unwrap, unwrapSole?_eq]
    simp only [soleChild?, significantChildren, children_mk] at hc
    split at hc
    · cases hc
    · split <;> rfl

end Node
end BindLint
