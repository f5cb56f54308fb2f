import BindLint.Value

/-!
# JSON

`Json.parse` reads a JSON document and `Json.compact` and `Json.indented` write
one.  A name that appears twice in an object keeps its first place and its last
value.  Besides the standard's numbers the words `NaN`, `Infinity` and
`-Infinity` are read as numbers.  Written text is plain ASCII: every other
character is escaped, one beyond the first plane as a pair of surrogates.

## Main definitions

* `Json.parse` — a value from a text.
* `Json.compact`, `Json.indented` — a value on one line, or over several lines
  with two blanks per level.
-/

namespace BindLint
namespace Json

/-! ### Reading texts -/

/-- The blanks that may stand between the parts of a document. -/
def isBlank (c : Char) : Bool := c = ' ' || c = '\t' || c = '\n' || c = '\r'

/-- What follows the blanks at the start. -/
def skipBlanks (cs : List Char) : List Char := cs.dropWhile isBlank

/-- The value of a hexadecimal digit. -/
def hexDigit? (c : Char) : Option Nat :=
  if '0' ≤ c ∧ c ≤ '9' then some (c.toNat - '0'.toNat)
  else if 'a' ≤ c ∧ c ≤ 'f' then some (c.toNat - 'a'.toNat + 10)
  else if 'A' ≤ c ∧ c ≤ 'F' then some (c.toNat - 'A'.toNat + 10)
  else none

/-- The number that hexadecimal digits spell. -/
def hex? (cs : List Char) : Option Nat :=
  cs.foldlM (fun n c => (hexDigit? c).map (16 * n + ·)) 0

/-- The character that a letter after a backslash stands for. -/
def escaped? : Char → Option Char
  | '"' => some '"'
  | '\\' => some '\\'
  | '/' => some '/'
  | 'b' => some '\x08'
  | 'f' => some '\x0c'
  | 'n' => some '\n'
  | 'r' => some '\r'
  | 't' => some '\t'
  | _ => none

/-- The text read so far, latest code point first, and a first surrogate that waits
for its second half. -/
structure Reading where
  /-- The code points read, latest first. -/
  points : List Nat := []
  /-- A first surrogate without its second half yet. -/
  held : Option Nat := none

/-- The code points read; a surrogate that has found no second half stays alone. -/
def Reading.flush (r : Reading) : List Nat :=
  match r.held with
  | none => r.points
  | some half => half :: r.points

/-- One more code point. -/
def Reading.push (r : Reading) (point : Nat) : Reading := { points := point :: r.flush }

/-- One more escaped unit: half of a surrogate pair or a character. -/
def Reading.pushUnit (r : Reading) (unit : Nat) : Reading :=
  if 0xD800 ≤ unit ∧ unit < 0xDC00 then { points := r.flush, held := some unit }
  else
    match r.held with
    | some high =>
        if 0xDC00 ≤ unit ∧ unit < 0xE000 then
          { points := (0x10000 + (high - 0xD800) * 0x400 + (unit - 0xDC00)) :: r.points }
        else r.push unit
    | none => r.push unit

/-- The code points up to the closing quote, and what follows it. -/
def text? (r : Reading) : List Char → Option (List Nat × List Char)
  | [] => none
  | '"' :: rest => some (r.flush.reverse, rest)
  | '\\' :: 'u' :: a :: b :: c :: d :: rest =>
      match hex? [a, b, c, d] with
      | some unit => text? (r.pushUnit unit) rest
      | none => none
  | '\\' :: e :: rest =>
      match escaped? e with
      | some c => text? (r.push c.toNat) rest
      | none => none
  | c :: rest => if c.toNat < 0x20 ∨ c = '\\' then none else text? (r.push c.toNat) rest

/-! ### Reading numbers -/

/-- The digits at the start, and what follows them. -/
def digits (cs : List Char) : List Char × List Char :=
  (cs.takeWhile Char.isDigit, cs.dropWhile Char.isDigit)

/-- The number that decimal digits spell. -/
def ofDigits (cs : List Char) : Nat := Nat.ofDigitChars 10 cs 0

/-- A fraction at the start, empty if there is none. -/
def fraction : List Char → List Char × List Char
  | '.' :: rest =>
      match digits rest with
      | ([], _) => ([], '.' :: rest)
      | (ds, rest') => ('.' :: ds, rest')
  | cs => ([], cs)

/-- The sign at the start, empty if there is none. -/
def sign : List Char → List Char × List Char
  | '+' :: rest => (['+'], rest)
  | '-' :: rest => (['-'], rest)
  | cs => ([], cs)

/-- An exponent at the start, empty if there is none. -/
def exponent : List Char → List Char × List Char
  | e :: rest =>
      if e = 'e' ∨ e = 'E' then
        let (s, rest') := sign rest
        match digits rest' with
        | ([], _) => ([], e :: rest)
        | (ds, rest'') => (e :: s ++ ds, rest'')
      else ([], e :: rest)
  | [] => ([], [])

/-- The whole part of a number: a nought alone, or digits that start with none. -/
def whole? : List Char → Option (List Char × List Char)
  | '0' :: rest => some (['0'], rest)
  | cs =>
      match digits cs with
      | ([], _) => none
      | (ds, rest) => some (ds, rest)

/-- The whole number of some digits, which must not be too many. -/
def integer (negative : Bool) (ds : List Char) : Except DocumentError Value :=
  if digitLimit < ds.length then .error (.longNumber ds.length)
  else .ok (.int (if negative then -(ofDigits ds : Int) else ofDigits ds))

/-- The number whose parts are these. -/
def number (negative : Bool) (ds frac exp : List Char) : Except DocumentError Value :=
  if frac.isEmpty && exp.isEmpty then integer negative ds
  else .ok (.float (String.ofList ((if negative then ['-'] else []) ++ ds ++ frac ++ exp)))

/-- A number without its sign. -/
def unsigned (negative : Bool) (cs : List Char) : Except DocumentError (Value × List Char) :=
  match whole? cs with
  | none => .error .malformed
  | some (ds, rest) =>
      let (frac, rest') := fraction rest
      let (exp, rest'') := exponent rest'
      (number negative ds frac exp).map fun v => (v, rest'')

/-- What follows a word at the start. -/
def afterWord? (word : String) (cs : List Char) : Option (List Char) :=
  if word.toList.isPrefixOf cs then some (cs.drop word.length) else none

/-- The values written as words. -/
def words : List (String × Value) :=
  [("null", .null), ("true", .bool true), ("false", .bool false), ("NaN", .float "NaN"),
    ("Infinity", .float "Infinity"), ("-Infinity", .float "-Infinity")]

/-- A value that holds no other: a word or a number. -/
def scalar (cs : List Char) : Except DocumentError (Value × List Char) :=
  match words.findSome? fun w => (afterWord? w.1 cs).map (w.2, ·) with
  | some found => .ok found
  | none =>
      match cs with
      | '-' :: rest => unsigned true rest
      | _ => unsigned false cs

/-! ### Reading values -/

/-- What is there, or else the text is malformed. -/
def required {α : Type} : Option α → Except DocumentError α
  | some a => .ok a
  | none => .error .malformed

/-- The name of a member at the start, and what follows the colon after it. -/
def memberName? : List Char → Option (List Nat × List Char)
  | '"' :: rest =>
      match text? {} rest with
      | none => none
      | some (name, rest') =>
          match skipBlanks rest' with
          | ':' :: rest'' => some (name, skipBlanks rest'')
          | _ => none
  | _ => none

mutual

/-- A value at the start, and what follows it.  Besides the fuel there is a number of
levels that may still be opened. -/
def value : Nat → Nat → List Char → Except DocumentError (Value × List Char)
  | 0, _, _ => .error .malformed
  | fuel + 1, levels, cs =>
      match cs, levels with
      | '"' :: rest, _ => (required (text? {} rest)).map fun r => (Value.ofPoints r.1, r.2)
      | '[' :: _, 0 => .error .nesting
      | '\x7b' :: _, 0 => .error .nesting
      | '[' :: rest, levels + 1 =>
          match skipBlanks rest with
          | ']' :: rest' => .ok (.arr [], rest')
          | rest' => elements fuel levels [] rest'
      | '\x7b' :: rest, levels + 1 =>
          match skipBlanks rest with
          | '\x7d' :: rest' => .ok (.obj [], rest')
          | rest' => members fuel levels [] rest'
      | _, _ => scalar cs

/-- The elements of a list up to its closing bracket; those read are latest first. -/
def elements : Nat → Nat → List Value → List Char → Except DocumentError (Value × List Char)
  | 0, _, _, _ => .error .malformed
  | fuel + 1, levels, read, cs =>
      match value fuel levels cs with
      | .error e => .error e
      | .ok (v, rest) =>
          match skipBlanks rest with
          | ',' :: rest' => elements fuel levels (v :: read) (skipBlanks rest')
          | ']' :: rest' => .ok (.arr (v :: read).reverse, rest')
          | _ => .error .malformed

/-- The members of an object up to its closing brace; those read are latest first. -/
def members :
    Nat → Nat → List (List Nat × Value) → List Char → Except DocumentError (Value × List Char)
  | 0, _, _, _ => .error .malformed
  | fuel + 1, levels, read, cs =>
      match memberName? cs with
      | none => .error .malformed
      | some (name, rest) =>
          match value fuel levels rest with
          | .error e => .error e
          | .ok (v, after) =>
              match skipBlanks after with
              | ',' :: next => members fuel levels ((name, v) :: read) (skipBlanks next)
              | '\x7d' :: next => .ok (Value.ofMembers ((name, v) :: read).reverse, next)
              | _ => .error .malformed

end

/-- The value that a document holds.  Each nested part starts with a character of
its own and costs two steps, so twice the length of the text is enough. -/
def parse (document : String) : Except DocumentError Value :=
  let cs := document.toList
  match value (2 * cs.length + 2) nestingLimit (skipBlanks cs) with
  | .error e => .error e
  | .ok (v, rest) => if (skipBlanks rest).isEmpty then .ok v else .error .malformed

/-! ### Writing -/

/-- The last four hexadecimal digits of a number. -/
def hex4 (n : Nat) : String :=
  String.ofList [Nat.digitChar (n / 4096 % 16), Nat.digitChar (n / 256 % 16),
    Nat.digitChar (n / 16 % 16), Nat.digitChar (n % 16)]

/-- A code point inside quotes. -/
def quotePoint (n : Nat) : String :=
  if n = 0x22 then "\\\""
  else if n = 0x5C then "\\\\"
  else if n = 0x0A then "\\n"
  else if n = 0x0D then "\\r"
  else if n = 0x09 then "\\t"
  else if n = 0x0C then "\\f"
  else if n = 0x08 then "\\b"
  else if 0x20 ≤ n ∧ n < 0x7F then (Char.ofNat n).toString
  else if n < 0x10000 then "\\u" ++ hex4 n
  else
    "\\u" ++ hex4 (0xD800 + (n - 0x10000) / 0x400) ++
      "\\u" ++ hex4 (0xDC00 + (n - 0x10000) % 0x400)

/-- Code points in quotes. -/
def quotePoints (points : List Nat) : String :=
  "\"" ++ String.join (points.map quotePoint) ++ "\""

/-- A text in quotes. -/
def quote (s : String) : String := quotePoints (s.toList.map Char.toNat)

/-- How the parts of lists and objects are set apart. -/
structure Layout where
  /-- What stands before a part at a level of nesting. -/
  gap : Nat → String
  /-- What stands between a name and its value. -/
  colon : String

/-- Everything on one line. -/
def oneLine : Layout := ⟨fun _ => "", ":"⟩

/-- Every part on a line of its own, two blanks deeper than what holds it. -/
def byLines : Layout := ⟨fun level => "\n" ++ "".pushn ' ' (2 * level), ": "⟩

/-- The parts of a list or an object between its brackets. -/
def bracketed (layout : Layout) (level : Nat) (opening closing : String) :
    List String → String
  | [] => opening ++ closing
  | part :: parts =>
      opening ++ layout.gap (level + 1) ++ part ++
        String.join (parts.map fun p => "," ++ layout.gap (level + 1) ++ p) ++
        layout.gap level ++ closing

mutual

/-- A value in a layout, at a level of nesting. -/
def write (layout : Layout) (level : Nat) : Value → String
  | .null => "null"
  | .bool true => "true"
  | .bool false => "false"
  | .int n => toString n
  | .float literal => literal
  | .moment m => quote m.text
  | .str s => quote s
  | .unpaired points => quotePoints points
  | .arr vs => bracketed layout level "[" "]" (writeElements layout (level + 1) vs)
  | .obj ms => bracketed layout level "\x7b" "\x7d" (writeMembers layout (level + 1) ms)
  | .misnamed ms strays =>
      bracketed layout level "\x7b" "\x7d"
        (writeMembers layout (level + 1) ms ++ writeStrays layout (level + 1) strays)

/-- The elements of a list. -/
def writeElements (layout : Layout) (level : Nat) : List Value → List String
  | [] => []
  | v :: vs => write layout level v :: writeElements layout level vs

/-- The members of an object. -/
def writeMembers (layout : Layout) (level : Nat) : List (String × Value) → List String
  | [] => []
  | (name, v) :: ms =>
      (quote name ++ layout.colon ++ write layout level v) :: writeMembers layout level ms

/-- The members of an object that are named by code points. -/
def writeStrays (layout : Layout) (level : Nat) : List (List Nat × Value) → List String
  | [] => []
  | (name, v) :: ms =>
      (quotePoints name ++ layout.colon ++ write layout level v) :: writeStrays layout level ms

end

/-- A value on one line. -/
def compact (v : Value) : String := write oneLine 0 v

/-- A value over several lines. -/
def indented (v : Value) : String := write byLines 0 v

end Json
end BindLint
