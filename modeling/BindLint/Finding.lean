import BindLint.Replacement

/-!
# Findings

A finding says where a closure should be replaced, by what, and in which words.
It never carries an automatic fix: the replacement is only offered, as a
suggestion.

## Main definitions

* `Suggestion`, `Finding` — what is offered, and the report around it.
* `Message`, `Message.format` — the wordings and how they are filled in.
* `Finding.ofReplacement` — the finding that offers a replacement.
-/

namespace BindLint

/-- The name of the rule. -/
def ruleId : String := "prefer-bind"

/-! ### Messages -/

/-- A part of a wording. -/
inductive Piece where
  /-- Fixed text. -/
  | text (s : String) : Piece
  /-- A place to be filled in, by its name. -/
  | slot (name : String) : Piece
  deriving DecidableEq, Repr

/-- A wording under its identifier. -/
structure Message where
  /-- The identifier. -/
  id : String
  /-- The parts of the wording. -/
  pieces : List Piece
  deriving DecidableEq, Repr

/-- What is said about a closure. -/
def Message.preferBind : Message :=
  ⟨"preferBind",
    [.text "Prefer '", .slot "replacement",
      .text "' over closure wrapper to avoid capturing surrounding scope."]⟩

/-- What is said about a suggestion. -/
def Message.suggestion : Message :=
  ⟨"preferBindSuggestion", [.text "Replace with .bind()"]⟩

/-- All messages. -/
def Message.all : List Message := [.preferBind, .suggestion]

/-- Why a wording cannot be produced. -/
inductive MessageError where
  /-- There is no message of this identifier. -/
  | unknown (id : String) : MessageError
  /-- Nothing was given for this place. -/
  | missing (slot : String) : MessageError
  /-- Something was given under the name of the identifier itself. -/
  | taken : MessageError
  deriving DecidableEq, Repr

/-- The name under which the identifier of a message goes. -/
def messageIdName : String := "message_id"

/-- The name that an error is about. -/
def MessageError.key : MessageError → String
  | .unknown id => id
  | .missing slot => slot
  | .taken => messageIdName

/-- A part of a wording, filled in. -/
def Piece.fill (data : List (String × String)) : Piece → Except MessageError String
  | .text s => .ok s
  | .slot name =>
      match data.find? fun d => d.1 = name with
      | some d => .ok d.2
      | none => .error (.missing name)

/-- A part of a wording as it is written down, a place between braces. -/
def Piece.template : Piece → String
  | .text s => s
  | .slot name => "\x7b" ++ name ++ "\x7d"

namespace Message

/-- The wording as it is written down. -/
def template (m : Message) : String := String.join (m.pieces.map Piece.template)

/-- The wording with its places filled in. -/
def format (m : Message) (data : List (String × String)) : Except MessageError String :=
  (m.pieces.mapM (Piece.fill data)).map String.join

/-- The wording of the message with an identifier. -/
def formatId (id : String) (data : List (String × String)) : Except MessageError String :=
  if data.any fun d => d.1 = messageIdName then .error .taken
  else
    match all.find? fun m => m.id = id with
    | some m => m.format data
    | none => .error (.unknown id)

end Message

/-- What is said about a closure that a text should replace. -/
def preferText (replacement : String) : String :=
  "Prefer '" ++ replacement ++ "' over closure wrapper to avoid capturing surrounding scope."

/-- What is said about a suggestion. -/
def suggestionText : String := "Replace with .bind()"

/-- The two wordings are those of the messages. -/
theorem format_preferBind (replacement : String) :
    Message.preferBind.format [("replacement", replacement)] = .ok (preferText replacement) := by
  simp [Message.format, Message.preferBind, Piece.fill, preferText, Except.map, pure, Except.pure,
    bind, Except.bind, String.join, String.append_assoc]

/-! ### Suggestions and findings -/

/-- A text offered for a range of bytes.  Ranges that come from a tree never start
before the text; ranges handed in from outside may. -/
structure Suggestion where
  /-- The first offset. -/
  start : Int
  /-- The first offset after the range. -/
  stop : Int
  /-- The text offered. -/
  text : String
  deriving DecidableEq, Repr, Inhabited

/-- A reported closure.  Lines count from one, columns are byte columns from zero.
Positions that come from a tree never lie before these; ones handed in from outside
may. -/
structure Finding where
  /-- What is said. -/
  message : String
  /-- The text that should stand there. -/
  replacement : String
  /-- The line of the start. -/
  line : Int
  /-- The column of the start. -/
  column : Int
  /-- The line of the end. -/
  endLine : Int
  /-- The column of the end. -/
  endColumn : Int
  /-- What is offered; the first one counts. -/
  suggestions : List Suggestion := []
  deriving DecidableEq, Repr, Inhabited

/-- The finding that offers a replacement, located at the bytes that are replaced. -/
def Finding.ofReplacement (r : Replacement) : Finding where
  message := preferText r.text
  replacement := r.text
  line := r.start.row + 1
  column := r.start.column
  endLine := r.stop.row + 1
  endColumn := r.stop.column
  suggestions := [⟨r.span.start, r.span.stop, r.text⟩]

end BindLint
