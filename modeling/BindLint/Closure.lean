import BindLint.Syntax.Source

/-!
# Forwarding closures

A closure *forwards* if it takes no parameters and its whole body is one call of
a method on a receiver:

    () => obj.method()
    () => { obj.method(); }
    function () { obj.method(); }
    async () => await obj.method()

Recognition looks at the tree alone and goes in three steps: the closure itself
(`Node.candidate?`), the one call its body comes down to
(`Candidate.forwarding?`), and the receiver, method and arguments of that call
(`Node.methodCall?`).  Reading the texts of these nodes is a separate last step
(`MethodCall.read`), the only one that looks at the source.

## Main definitions

* `Form` — how the call stands in the body.
* `Node.forwardedCall?` — all three steps of recognition.
* `Shape` — the texts of a recognized call; `matchClosure` gives it.
-/

namespace BindLint

/-! ### Candidates -/

/-- The two kinds of body a closure can have. -/
inductive BodyKind where
  /-- An expression: `() => e`. -/
  | expression : BodyKind
  /-- A block: `() => { ... }`. -/
  | block : BodyKind
  deriving DecidableEq, Repr, Inhabited

/-- The name of a kind of body. -/
def BodyKind.name : BodyKind → String
  | .expression => "expression"
  | .block => "block"

/-- A closure that takes no parameters. -/
structure Candidate where
  /-- Its body. -/
  body : Node
  /-- Whether it is marked `async`. -/
  isAsync : Bool
  deriving Repr, Inhabited

/-- The kind of body a candidate has. -/
def Candidate.bodyKind (c : Candidate) : BodyKind :=
  if c.body.kind = .statementBlock then .block else .expression

/-- The kinds of closures that are looked at. -/
def closureKinds : List Kind := [.arrowFunction, .functionExpression]

namespace Node

/-- Whether a node is a closure of a form that can forward: an arrow function other
than `x => e`, or a function expression that is no generator. -/
def isPlainClosure (n : Node) : Bool :=
  if n.kind = .arrowFunction then (n.child? .parameter).isNone
  else n.kind = .functionExpression && !n.hasToken .star

/-- Whether the parameter list of a node, if it has one, is empty. -/
def takesNothing (n : Node) : Bool :=
  match n.child? .parameters with
  | none => true
  | some ps => ps.significantChildren.isEmpty

/-- The closure as a candidate, if it takes no parameters. -/
def candidate? (n : Node) : Option Candidate :=
  if n.isPlainClosure && n.takesNothing then
    (n.child? .body).map fun body => ⟨body, n.hasToken .async⟩
  else none

end Node

/-! ### The forwarded call -/

/-- How a forwarded call stands in the body of its closure. -/
structure Form where
  /-- Whether the body is the call itself or a block around it. -/
  body : BodyKind
  /-- Whether the call is awaited. -/
  awaited : Bool
  deriving DecidableEq, Repr, Inhabited

/-- The name of a form. -/
def Form.name : Form → String
  | ⟨.expression, false⟩ => "direct_call"
  | ⟨.expression, true⟩ => "awaited_call"
  | ⟨.block, false⟩ => "single_statement_direct_call"
  | ⟨.block, true⟩ => "single_statement_awaited_call"

/-- All forms. -/
def Form.all : List Form :=
  [⟨.expression, false⟩, ⟨.expression, true⟩, ⟨.block, false⟩, ⟨.block, true⟩]

/-- The form of a name. -/
def Form.ofName? (name : String) : Option Form := Form.all.find? fun f => f.name = name

/-- The call a closure body comes down to. -/
structure Forwarding where
  /-- How it stands in the body. -/
  form : Form
  /-- The call. -/
  call : Node
  deriving Repr, Inhabited

namespace Node

/-- The call that an expression is, or awaits, through any parentheses. -/
def forwarding? (body : BodyKind) (e : Node) : Option Forwarding :=
  if e.unwrap.kind = .call then some ⟨⟨body, false⟩, e.unwrap⟩
  else if e.unwrap.kind = .await then
    match e.unwrap.soleChild? with
    | some operand =>
        if operand.unwrap.kind = .call then some ⟨⟨body, true⟩, operand.unwrap⟩ else none
    | none => none
  else none

/-- The expression that a block consists of, if it is one expression statement. -/
def soleExpression? (block : Node) : Option Node :=
  match block.soleChild? with
  | some statement =>
      if statement.kind = .expressionStatement then statement.soleChild? else none
  | none => none

end Node

/-- The one call the body of a candidate comes down to. -/
def Candidate.forwarding? (c : Candidate) : Option Forwarding :=
  match c.bodyKind with
  | .expression => c.body.forwarding? .expression
  | .block => c.body.soleExpression?.bind (Node.forwarding? .block)

/-! ### The method call -/

/-- The parts of a call `receiver.property(arguments)`. -/
structure MethodCall where
  /-- What the method is called on. -/
  receiver : Node
  /-- The name of the method. -/
  property : Node
  /-- What it is called with. -/
  arguments : List Node
  deriving Repr, Inhabited

namespace Node

/-- The receiver and the property of a plain access `receiver.property`.  Private
names, optional accesses and accesses on `super` are no plain ones. -/
def plainAccess? (callee : Node) : Option (Node × Node) :=
  if callee.kind = .member && !callee.hasOptionalChain then
    match callee.child? .object, callee.child? .property with
    | some receiver, some property =>
        if property.kind = .propertyIdentifier && receiver.kind ≠ .super then
          some (receiver, property)
        else none
    | _, _ => none
  else none

/-- The parts of a call of a method.  Only a plain access can be written again as
`receiver.method.bind(receiver)`, so computed names, optional calls and tagged
templates are no method calls here. -/
def methodCall? (call : Node) : Option MethodCall :=
  match call.child? .arguments, call.child? .function with
  | some args, some callee =>
      if args.kind = .arguments && !call.hasOptionalChain then
        callee.plainAccess?.map fun (receiver, property) =>
          ⟨receiver, property, args.significantChildren⟩
      else none
  | _, _ => none

/-- The method call that a closure forwards to, with its form.  A closure marked
`async` counts only if async ones are included. -/
def forwardedCall? (includeAsync : Bool) (n : Node) : Option (Form × MethodCall) :=
  match n.candidate? with
  | none => none
  | some c =>
      if c.isAsync && !includeAsync then none
      else c.forwarding?.bind fun f => f.call.methodCall?.map fun m => (f.form, m)

end Node

/-! ### Shapes -/

/-- The texts of a forwarded method call, as they stand in the source. -/
structure Shape where
  /-- The receiver. -/
  receiver : String
  /-- The name of the method. -/
  method : String
  /-- The arguments in order. -/
  arguments : List String
  /-- How the call stands in the closure. -/
  form : Form
  deriving DecidableEq, Repr, Inhabited

/-- Whether arguments are forwarded. -/
def Shape.hasArguments (s : Shape) : Bool := !s.arguments.isEmpty

/-- The texts of some nodes in order. -/
def readTexts (src : Source) (ns : List Node) : Except Utf8.Fault (List String) :=
  ns.mapM fun n => n.text src

/-- The shape of a method call: the texts of its parts. -/
def MethodCall.read (src : Source) (form : Form) (m : MethodCall) : Except Utf8.Fault Shape := do
  let receiver ← m.receiver.text src
  let method ← m.property.text src
  let arguments ← readTexts src m.arguments
  return ⟨receiver, method, arguments, form⟩

/-- The shape that a closure forwards to, or `none` if it does not forward. -/
def matchClosure (src : Source) (includeAsync : Bool) (n : Node) :
    Except Utf8.Fault (Option Shape) :=
  match n.forwardedCall? includeAsync with
  | none => .ok none
  | some (form, m) => (m.read src form).map some

end BindLint
