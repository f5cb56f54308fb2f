import BindLint.Finding
import BindLint.Log
import BindLint.Options

/-!
# The rule

A closure keeps everything around it alive for as long as whoever received it
holds on to it; a bound method keeps only its receiver.  The rule therefore
reports closures that do nothing but forward, where they are passed to a call
that holds on to them.

## Main definitions

* `ruleMeta` — what the rule says about itself.
* `check` — the finding for the closure at a place, if it is reported.
* `Hit` — a finding with what the log says about it.
-/

namespace BindLint

/-- What the rule is for. -/
def ruleDescription : String :=
  "Prefer .bind() over closure wrappers to prevent potential memory leaks"

/-- What the rule says about itself to programs that list rules. -/
def ruleMeta : Value :=
  .obj
    [ ("type", .str "suggestion"),
      ("docs", .obj [("description", .str ruleDescription), ("recommended", .bool false)]),
      ("has_suggestions", .bool true),
      ("messages", .obj (Message.all.map fun m => (m.id, .str m.template))) ]

/-- A finding together with the closure it is about. -/
structure Hit where
  /-- Where the closure starts. -/
  closure : Point
  /-- How the call stands in the closure. -/
  form : Form
  /-- The finding. -/
  finding : Finding
  deriving DecidableEq, Repr, Inhabited

/-- What the log says about a hit. -/
def Hit.record (h : Hit) : Log.Record where
  level := .debug
  logger := "prefer_bind.rule.prefer_bind"
  message :=
    "prefer-bind match at " ++ toString (h.closure.row + 1) ++ ":" ++ toString h.closure.column ++
      " (" ++ h.form.name ++ ") -> " ++ h.finding.replacement

/-- Why a closure could not be checked. -/
inductive CheckError where
  /-- The text of a node is no UTF-8. -/
  | undecodable (fault : Utf8.Fault) : CheckError
  /-- The closure was to be reported and cannot be replaced. -/
  | irreplaceable (error : EditError) : CheckError
  deriving DecidableEq, Repr

/-- How an error is worded. -/
def CheckError.message : CheckError → String
  | .undecodable fault => fault.message
  | .irreplaceable error => error.message

/-- A result of reading texts as a result of a check. -/
def orUndecodable {α : Type} : Except Utf8.Fault α → Except CheckError α
  | .ok a => .ok a
  | .error fault => .error (.undecodable fault)

/-- Whether a shape in a placement is reported.  Forwarded arguments survive only
in a timer position. -/
def Options.reports (o : Options) (shape : Shape) (placement : Placement) : Bool :=
  !(shape.hasArguments && placement.timer.isNone) &&
    o.admits (o.isLongLived placement.callee) placement.timer.isSome

/-- The hit for a closure of a reported shape. -/
def Hit.make (src : Source) (closure : Node) (shape : Shape) (timer : Option Timer) :
    Except CheckError Hit :=
  match shape.edit closure timer with
  | .error e => .error (.irreplaceable e)
  | .ok edit => do
      let replacement ← orUndecodable (edit.read src)
      return ⟨src.point closure.span.start, shape.form, .ofReplacement replacement⟩

/-- The hit for the closure at a place, or `none` if it is not reported. -/
def check (o : Options) (src : Source) (p : Place) : Except CheckError (Option Hit) := do
  match ← orUndecodable (matchClosure src o.includeAsync p.node) with
  | none => return none
  | some shape =>
      let placement ← orUndecodable (Placement.read src p)
      if o.reports shape placement then
        return some (← Hit.make src p.node shape placement.timer)
      else return none

end BindLint
