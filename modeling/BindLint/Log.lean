import BindLint.Value

/-!
# Log entries

Logging is part of what a run gives back: every operation that has something to
tell lists its entries in order, and which of them are shown is decided
afterwards by a `Log.Config`.

## Main definitions

* `Log.Level`, `Log.Record`, `Log.Event`, `Log.Entry` — what is logged.
* `Log.Threshold`, `Log.Config`, `Log.Config.shows` — which entries are shown.
* `Log.Config.line` — how an entry is shown.
-/

namespace BindLint
namespace Log

/-! ### Entries -/

/-- How grave an entry is. -/
inductive Level where
  /-- Details of the work. -/
  | debug : Level
  /-- Progress. -/
  | info : Level
  /-- Something was left out. -/
  | warning : Level
  /-- Something failed. -/
  | error : Level
  /-- Everything failed. -/
  | critical : Level
  deriving DecidableEq, Repr, Inhabited

/-- All levels, the least grave first. -/
def Level.all : List Level := [.debug, .info, .warning, .error, .critical]

/-- The number of a level. -/
def Level.number : Level → Int
  | .debug => 10
  | .info => 20
  | .warning => 30
  | .error => 40
  | .critical => 50

/-- The name of a level. -/
def Level.name : Level → String
  | .debug => "debug"
  | .info => "info"
  | .warning => "warning"
  | .error => "error"
  | .critical => "critical"

/-- The name of a level in capitals. -/
def Level.label : Level → String
  | .debug => "DEBUG"
  | .info => "INFO"
  | .warning => "WARNING"
  | .error => "ERROR"
  | .critical => "CRITICAL"

/-- The level of a name, in capitals or not. -/
def Level.ofName? (name : String) : Option Level :=
  Level.all.find? fun l => l.name = name || l.label = name

/-- A message of one of the parts of the program. -/
structure Record where
  /-- How grave it is. -/
  level : Level
  /-- The part that speaks. -/
  logger : String
  /-- What it says. -/
  message : String
  deriving DecidableEq, Repr, Inhabited

/-- Something that happened, with particulars. -/
structure Event where
  /-- How grave it is. -/
  level : Level
  /-- What happened. -/
  event : String
  /-- The particulars. -/
  fields : List (String × Value)
  deriving Repr, Inhabited

/-- A log entry. -/
inductive Entry where
  /-- A message. -/
  | record (r : Record) : Entry
  /-- Something that happened. -/
  | event (e : Event) : Entry
  deriving Repr, Inhabited

/-! ### Showing entries -/

/-- The name that all parts of the program share. -/
def package : String := "prefer_bind"

/-- The name of the handler that shows the messages of the parts. -/
def handler : String := "prefer_bind.structlog"

/-- Whether a part belongs to the program. -/
def inPackage (logger : String) : Bool :=
  logger = package || logger.startsWith (package ++ ".")

/-- From where on entries are shown. -/
inductive Threshold where
  /-- No level is set. -/
  | unset : Threshold
  /-- From a level on. -/
  | least (l : Level) : Threshold
  deriving DecidableEq, Repr, Inhabited

/-- The number of a threshold. -/
def Threshold.number : Threshold → Int
  | .unset => 0
  | .least l => l.number

/-- The threshold of a number; only nought and the numbers of the levels have one. -/
def Threshold.ofNumber? (n : Int) : Option Threshold :=
  if n = 0 then some .unset
  else (Level.all.find? fun l => l.number = n).map Threshold.least

/-- Which entries are shown, and how. -/
structure Config where
  /-- Show entries for a person at a console. -/
  console : Bool
  /-- From where on they are shown. -/
  threshold : Threshold
  deriving DecidableEq, Repr, Inhabited

/-- A configuration: without a threshold, details are shown at a console and warnings
otherwise. -/
def Config.make (console : Bool) (threshold : Option Threshold) : Config :=
  ⟨console, threshold.getD (.least (if console then .debug else .warning))⟩

/-- The least number of messages that are shown; if no level is set, it is that of
warnings. -/
def Config.recordLevel (c : Config) : Int :=
  match c.threshold with
  | .unset => Level.warning.number
  | .least l => l.number

/-- Whether an entry is shown. -/
def Config.shows (c : Config) : Entry → Bool
  | .record r => inPackage r.logger && decide (c.recordLevel ≤ r.level.number)
  | .event e => decide (c.threshold.number ≤ e.level.number)

/-- The names of particulars that are not shown: those that an entry sets itself, and
those that ask for the state of the program. -/
def reservedNames : List String := ["event", "level", "timestamp", "exc_info", "stack_info"]

/-- An entry as an object. -/
def Entry.toValue : Entry → Value
  | .record r =>
      .obj [("event", .str r.message), ("logger", .str r.logger), ("level", .str r.level.name)]
  | .event e =>
      .obj (e.fields.filter (fun f => !reservedNames.contains f.1) ++
        [("event", .str e.event), ("level", .str e.level.name)])

/-- A line of the log. -/
inductive Line where
  /-- A line for a person, whose layout is free. -/
  | console (entry : Entry) : Line
  /-- A line that holds an object. -/
  | object (v : Value) : Line

/-- An entry as a line. -/
def Config.line (c : Config) (e : Entry) : Line :=
  if c.console then .console e else .object e.toValue

/-- The lines of those entries that are shown. -/
def Config.lines (c : Config) (es : List Entry) : List Line :=
  (es.filter c.shows).map c.line

end Log
end BindLint
