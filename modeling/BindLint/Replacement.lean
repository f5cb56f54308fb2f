import BindLint.CallSite
import BindLint.Closure

/-!
# Bound methods in place of closures

A closure that forwards no arguments is replaced by a bound method:

    () => obj.method()                        obj.method.bind(obj)

One that forwards arguments can only be replaced in a timer position, where the
scheduler takes over handing them on, and then the whole call is replaced:

    setTimeout(() => obj.method(a, b), 100)   setTimeout(obj.method.bind(obj), 100, a, b)

The receiver is written twice as it stands; nothing is parsed again.

## Main definitions

* `Shape.bound`, `Shape.scheduled` — the two replacement texts.
* `Shape.edit` — which node is replaced, and by which text.
* `Replacement` — a replacement with the text and the points it replaces.
-/

namespace BindLint

/-- The delay of a scheduler call that gave none. -/
def defaultDelay : String := "0"

namespace Shape

/-- The bound method. -/
def bound (s : Shape) : String :=
  s.receiver ++ "." ++ s.method ++ ".bind(" ++ s.receiver ++ ")"

/-- The arguments of the scheduler call that hands the forwarded arguments on. -/
def scheduledArguments (s : Shape) (delay : Option String) : List String :=
  s.bound :: delay.getD defaultDelay :: s.arguments

/-- The scheduler call that hands the forwarded arguments on. -/
def scheduled (s : Shape) (scheduler : String) (delay : Option String) : String :=
  scheduler ++ "(" ++ String.intercalate ", " (s.scheduledArguments delay) ++ ")"

end Shape

/-- Why a shape cannot be replaced. -/
inductive EditError where
  /-- It forwards arguments and no scheduler is there to hand them on. -/
  | argumentsOutsideTimer (receiver method : String) : EditError
  deriving DecidableEq, Repr

/-- How an error is worded. -/
def EditError.message : EditError → String
  | .argumentsOutsideTimer receiver method =>
      "Cannot rewrite " ++ receiver ++ "." ++ method ++
        "(...) with arguments outside a timer context"

/-- The node that is replaced and the text that replaces it. -/
structure Edit where
  /-- The node that is replaced. -/
  target : Node
  /-- The text that replaces it. -/
  text : String
  deriving Repr, Inhabited

/-- The edit for a closure of this shape: the closure alone becomes a bound method,
or the scheduler call around it is written anew. -/
def Shape.edit (s : Shape) (closure : Node) (timer : Option Timer) :
    Except EditError Edit :=
  if s.hasArguments then
    match timer with
    | none => .error (.argumentsOutsideTimer s.receiver s.method)
    | some t => .ok ⟨t.call, s.scheduled t.scheduler t.delay⟩
  else .ok ⟨closure, s.bound⟩

/-- A replacement and what it replaces. -/
structure Replacement where
  /-- The text that replaces. -/
  text : String
  /-- The text that is replaced. -/
  replaced : String
  /-- The bytes that are replaced. -/
  span : Span
  /-- Where they start. -/
  start : Point
  /-- Where they stop. -/
  stop : Point
  deriving DecidableEq, Repr, Inhabited

/-- An edit with what it replaces in a source. -/
def Edit.read (src : Source) (e : Edit) : Except Utf8.Fault Replacement := do
  let replaced ← e.target.text src
  return ⟨e.text, replaced, e.target.span, src.point e.target.span.start,
    src.point e.target.span.stop⟩

end BindLint
