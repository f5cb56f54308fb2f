import BindLint.Log
import BindLint.Log.Format
import BindLint.Text.Blank

/-!
# Log entries at a console

For a person an entry is laid out in columns: its level, what it says, the part that
speaks, and then its particulars by name.  A stack and an exception, if there are any,
follow on lines of their own.  What an entry says may itself go over several lines.

## Main definitions

* `Log.Entry.consoleText` — an entry for a person.
* `Log.Config.refuses` — whether an event has particulars that it cannot have.
-/

namespace BindLint
namespace Log

/-! ### Columns -/

/-- The width of the column of levels. -/
def levelWidth : Nat := 9

/-- The least width of the column of what entries say. -/
def eventWidth : Nat := 30

/-- A text with blanks behind it, up to a width. -/
def padTo (width : Nat) (s : String) : String :=
  s ++ String.ofList (List.replicate (width - s.length) ' ')

/-- Whether a character makes a text stand in quotes. -/
def isAwkward (c : Char) : Bool :=
  c = ' ' || c = '\t' || c = '=' || c = '\r' || c = '\n' || c = '"' || c = '\x27'

/-- The value of a particular. -/
def consoleValue : Value → String
  | .str s => if s.toList.any isAwkward then Text.quoted s else s
  | v => quotedValue v

/-- The names of particulars that have columns or lines of their own. -/
def columnNames : List String := ["logger", "logger_name", "stack", "exception"]

/-- The columns of the part that speaks. -/
def speakers (fields : List (String × Value)) : List String :=
  ["logger", "logger_name"].filterMap fun name =>
    (Value.lookup name fields).map fun v => "[" ++ shown v ++ "]"

/-- The columns of the other particulars, in the order of their names. -/
def particulars (fields : List (String × Value)) : List String :=
  let rest := fields.filter fun f => !(reservedNames ++ columnNames).contains f.1
  (rest.mergeSort fun a b => decide (a.1 ≤ b.1)).map fun f => f.1 ++ "=" ++ consoleValue f.2

/-- Columns on one line, without blanks at its end. -/
def joinColumns (columns : List String) : String :=
  let line := String.intercalate " " (columns.filter fun c => !c.isEmpty)
  String.ofList (Text.trimEnd (· = ' ') line.toList)

/-- What follows the columns: the stack, the exception, and a rule between them. -/
def appendix (fields : List (String × Value)) : String :=
  match (Value.lookup "stack" fields).bind Value.str?,
    (Value.lookup "exception" fields).bind Value.str? with
  | none, none => ""
  | some stack, none => "\n" ++ stack
  | none, some exception => "\n" ++ exception
  | some stack, some exception =>
      "\n" ++ stack ++ "\n\n" ++ "".pushn '=' 79 ++ "\n" ++ "\n" ++ exception

/-- What an entry of a level says, for a person. -/
def columns (level : Level) (event : String) (fields : List (String × Value)) : String :=
  joinColumns
    (("[" ++ padTo levelWidth level.name ++ "]") :: padTo eventWidth event ::
      (speakers fields ++ particulars fields))

/-- An entry for a person. -/
def Entry.consoleText : Entry → String
  | .record r => columns r.level r.message [("logger", .str r.logger)]
  | .event e => columns e.level e.event e.fields ++ appendix e.fields

/-! ### Particulars that cannot be -/

/-- The names that the parts of an event have themselves. -/
def takenNames : List String := ["event", "self"]

/-- The name that the level of an event has where it is passed on. -/
def methodName : String := "method_name"

/-- Whether a value can stand on lines of its own. -/
def isLines : Value → Bool
  | .null => true
  | .str _ => true
  | _ => false

/-- Whether an event has particulars that it cannot have: names that are taken, or, if
it is shown to a person, a stack or an exception that is no text. -/
def Config.refuses (c : Config) (e : Event) : Bool :=
  e.fields.any fun f =>
    takenNames.contains f.1 ||
      (c.shows (.event e) &&
        (f.1 = methodName ||
          (c.console && (f.1 = "stack" || f.1 = "exception") && !isLines f.2)))

/-! ### Laws -/

/-- A text brought to a width has it. -/
theorem length_padTo (width : Nat) (s : String) :
    (padTo width s).length = max width s.length := by
  rw [padTo, String.length_append, String.length_ofList, List.length_replicate]
  omega

end Log
end BindLint
