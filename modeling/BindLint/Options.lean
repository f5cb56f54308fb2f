/-!
# Options of the rule

The options decide which forwarding closures are worth reporting.  They never
touch what a report says.

## Main definitions

* `Options` — the resolved options and their defaults.
* `Options.admits` — whether a closure in a given position is reported.
-/

namespace BindLint

/-- The names of calls that are known to hold on to their callbacks. -/
def defaultContexts : List String :=
  ["addEventListener", "setTimeout", "setInterval", "on", "once", "subscribe"]

/-- The order in which sets of names are listed: by code point, each name once. -/
def sortNames (names : List String) : List String :=
  (names.mergeSort fun a b => decide (a ≤ b)).eraseDups

/-- Listing a set of names neither adds nor loses one. -/
@[simp] theorem mem_sortNames {name : String} {names : List String} :
    name ∈ sortNames names ↔ name ∈ names := by
  simp [sortNames]

/-- The options of the rule. -/
structure Options where
  /-- Report only closures passed to a call that holds on to them. -/
  onlyLongLived : Bool := true
  /-- The names of the calls that hold on to their callbacks, in order. -/
  contexts : List String := sortNames defaultContexts
  /-- Report closures marked `async` too. -/
  includeAsync : Bool := false
  deriving DecidableEq, Repr, Inhabited

namespace Options

/-- Whether a call of this name holds on to its callbacks. -/
def isLongLived (o : Options) (callee : Option String) : Bool :=
  match callee with
  | none => false
  | some name => o.contexts.contains name

/-- Whether a closure is reported: always if the policy is off, and otherwise if
the call it is passed to holds on to it or it is in a timer position.  A timer
counts even when the scheduler is not among the names. -/
def admits (o : Options) (longLived timer : Bool) : Bool :=
  !o.onlyLongLived || longLived || timer

end Options
end BindLint
