import BindLint.Syntax.Place
import BindLint.Syntax.Source

/-!
# Where a closure is passed

A closure is *passed* if it is an argument of a call, parentheses around it not
counted.  What matters of the call is its name, as it is written: `setTimeout(f)`
and `window.setTimeout(f)` are both calls of `setTimeout`, whatever `window` is.
A closure passed first to one of the two schedulers stands in a *timer position*:
such a call hands the arguments after the delay on to the closure.

## Main definitions

* `Place.callSite?` — the call a node is an argument of.
* `Node.calleeName` — the name of what a call calls.
* `Placement.read` — call, name and timer position of a node, read from a source.
-/

namespace BindLint

/-! ### Call sites -/

/-- The place of the outermost parentheses around a node, or of the node itself. -/
def Place.outOfParens : Node → List Frame → Place
  | n, [] => ⟨n, []⟩
  | n, f :: fs =>
      if f.label.kind = .parenthesized then outOfParens (f.fill n) fs else ⟨n, f :: fs⟩

/-- A call with one of its arguments picked out. -/
structure CallSite where
  /-- The call. -/
  call : Node
  /-- Its significant arguments in order. -/
  arguments : List Node
  /-- The index of the argument picked out. -/
  index : Nat
  deriving Repr, Inhabited

/-- The call that the node at a place is an argument of, if its parent is the
argument list of a call.  `new Foo(f)` is no call. -/
def CallSite.of? (argument : Place) : Option CallSite :=
  match argument.above with
  | list :: call :: _ =>
      if list.label.kind = .arguments && call.label.kind = .call && argument.node.isSignificant then
        some
          { call := call.fill (list.fill argument.node)
            arguments := (list.fill argument.node).significantChildren
            index := (list.before.filter Node.isSignificant).length }
      else none
  | _ => none

/-- The call that a node is an argument of, parentheses around it not counted. -/
def Place.callSite? (p : Place) : Option CallSite :=
  CallSite.of? (Place.outOfParens p.node p.above)

/-! ### Names of callees -/

/-- The node that spells the name of what a call calls: `f` in `f(...)` and in
`a.b.f(...)`. -/
def Node.calleeNode? (call : Node) : Option Node :=
  match call.child? .function with
  | none => none
  | some callee =>
      if callee.kind = .identifier then some callee
      else if callee.kind = .member then
        (callee.child? .property).filter fun p => p.kind = .propertyIdentifier
      else none

/-- The text of a node that may be absent. -/
def readOptional (src : Source) : Option Node → Except Utf8.Fault (Option String)
  | none => .ok none
  | some n => (n.text src).map some

/-- The name of what a call calls. -/
def Node.calleeName (src : Source) (call : Node) : Except Utf8.Fault (Option String) :=
  readOptional src call.calleeNode?

/-! ### Timer positions -/

/-- The schedulers that hand the arguments after the delay to their callback. -/
def schedulers : List String := ["setInterval", "setTimeout"]

/-- A closure's position as the callback of a scheduler. -/
structure Timer where
  /-- The name of the scheduler. -/
  scheduler : String
  /-- The text of the delay, if there is one. -/
  delay : Option String
  /-- The call of the scheduler. -/
  call : Node
  deriving Repr, Inhabited

/-- The timer position of a closure passed to a call of this name. -/
def CallSite.timer? (src : Source) (site : CallSite) (callee : Option String) :
    Except Utf8.Fault (Option Timer) :=
  match callee with
  | none => .ok none
  | some name =>
      if site.index = 0 && schedulers.contains name then do
        let delay ← readOptional src site.arguments[1]?
        return some ⟨name, delay, site.call⟩
      else .ok none

/-! ### Placements -/

/-- Everything that counts about where a closure stands. -/
structure Placement where
  /-- The call it is passed to. -/
  site : Option CallSite := none
  /-- The name of what that call calls. -/
  callee : Option String := none
  /-- Its timer position. -/
  timer : Option Timer := none
  deriving Repr, Inhabited

/-- The placement of a node. -/
def Placement.read (src : Source) (p : Place) : Except Utf8.Fault Placement :=
  match p.callSite? with
  | none => .ok {}
  | some site => do
      let callee ← site.call.calleeName src
      let timer ← site.timer? src callee
      return ⟨some site, callee, timer⟩

end BindLint
