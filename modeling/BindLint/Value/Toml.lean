import BindLint.Value
import BindLint.Value.Json

/-!
# TOML

`Toml.parse` reads a TOML document: tables, lists of tables, inline tables,
dotted and quoted names, lists over several lines, comments, texts in all four
kinds of quotes, truth values, numbers, dates and times.

A table may be opened once, a name be given a value once, and what was written as
an inline table or a list cannot be added to.  A `Document` keeps track of both.

## Main definitions

* `Toml.value` — a value at the start of a text.
* `Toml.Document` — what has been read, and what may no longer be changed.
* `Toml.parse` — the object that a document holds.
-/

namespace BindLint
namespace Toml

/-! ### Characters -/

/-- The blanks inside a line. -/
def isBlank (c : Char) : Bool := c = ' ' || c = '\t'

/-- What follows the blanks at the start. -/
def skipBlanks (cs : List Char) : List Char := cs.dropWhile isBlank

/-- Whether a character is a control other than the tab. -/
def isControl (c : Char) : Bool := (c.toNat < 0x20 && c ≠ '\t') || c.toNat = 0x7F

/-- What follows a comment at the start, if there is one; it ends before the line
feed and holds no controls. -/
def skipComment? : List Char → Option (List Char)
  | '#' :: rest =>
      let inside := rest.takeWhile (· ≠ '\n')
      if inside.any isControl then none else some (rest.drop inside.length)
  | cs => some cs

/-- What follows blanks, line feeds and comments at the start. -/
def skipSpace? : Nat → List Char → Option (List Char)
  | 0, _ => none
  | fuel + 1, cs =>
      let rest := cs.dropWhile fun c => isBlank c || c = '\n'
      match rest with
      | '#' :: _ => (skipComment? rest).bind (skipSpace? fuel)
      | _ => some rest

/-! ### Texts -/

/-- The character of a code point that is no surrogate. -/
def charOf? (n : Nat) : Option Char := if n.isValidChar then some (Char.ofNat n) else none

/-- The character that a letter after a backslash stands for. -/
def escaped? : Char → Option Char
  | 'b' => some '\x08'
  | 't' => some '\t'
  | 'n' => some '\n'
  | 'f' => some '\x0c'
  | 'r' => some '\r'
  | '"' => some '"'
  | '\\' => some '\\'
  | _ => none

/-- A character written after a backslash, and what follows it. -/
def escape? : List Char → Option (Char × List Char)
  | 'u' :: rest =>
      if rest.length < 4 then none
      else ((Json.hex? (rest.take 4)).bind charOf?).map fun c => (c, rest.drop 4)
  | 'U' :: rest =>
      if rest.length < 8 then none
      else ((Json.hex? (rest.take 8)).bind charOf?).map fun c => (c, rest.drop 8)
  | e :: rest => (escaped? e).map fun c => (c, rest)
  | [] => none

/-- A text of one line up to its closing double quote; the characters read are
latest first. -/
def basic? : Nat → List Char → List Char → Option (String × List Char)
  | 0, _, _ => none
  | fuel + 1, read, cs =>
      match cs with
      | [] => none
      | '"' :: rest => some (String.ofList read.reverse, rest)
      | '\\' :: rest =>
          match escape? rest with
          | some (c, rest') => basic? fuel (c :: read) rest'
          | none => none
      | c :: rest => if isControl c then none else basic? fuel (c :: read) rest

/-- A text of one line up to its closing single quote. -/
def literal? (cs : List Char) : Option (String × List Char) :=
  let inside := cs.takeWhile (· ≠ '\x27')
  match cs.drop inside.length with
  | _ :: rest => if inside.any isControl then none else some (String.ofList inside, rest)
  | [] => none

/-- What follows the line feed at the start, if there is one. -/
def dropLineFeed : List Char → List Char
  | '\n' :: rest => rest
  | cs => cs

/-- What follows a backslash at the end of a line: blanks up to a line feed, and
then all blanks and line feeds. -/
def continued? (cs : List Char) : Option (List Char) :=
  match skipBlanks cs with
  | '\n' :: rest => some (rest.dropWhile fun c => isBlank c || c = '\n')
  | _ => none

/-- Whether a character may stand in a text of several lines. -/
def isTextChar (c : Char) : Bool := !isControl c || c = '\n'

/-- A text of several lines up to three closing quotes; up to two more quotes may
stand before these. -/
def multiline? (quote : Char) (escapes : Bool) :
    Nat → List Char → List Char → Option (String × List Char)
  | 0, _, _ => none
  | fuel + 1, read, cs =>
      match cs with
      | [] => none
      | c :: rest =>
          if c = quote && rest.take 2 = [quote, quote] then
            -- quotes beyond the three belong to the text
            let more := ((rest.drop 2).takeWhile (· = quote)).take 2
            some (String.ofList (more ++ read).reverse, rest.drop (2 + more.length))
          else if escapes && c = '\\' then
            match continued? rest with
            | some rest' => multiline? quote escapes fuel read rest'
            | none =>
                match escape? rest with
                | some (e, rest') => multiline? quote escapes fuel (e :: read) rest'
                | none => none
          else if isTextChar c then multiline? quote escapes fuel (c :: read) rest
          else none

/-- A text in any quotes, and what follows it. -/
def text? (cs : List Char) : Option (String × List Char) :=
  match cs with
  | '"' :: '"' :: '"' :: rest => multiline? '"' true (cs.length + 1) [] (dropLineFeed rest)
  | '"' :: rest => basic? (cs.length + 1) [] rest
  | '\x27' :: '\x27' :: '\x27' :: rest =>
      multiline? '\x27' false (cs.length + 1) [] (dropLineFeed rest)
  | '\x27' :: rest => literal? rest
  | _ => none

/-! ### Names -/

/-- Whether a character may stand in a name without quotes. -/
def isBareChar (c : Char) : Bool := c.isAlphanum || c = '-' || c = '_'

/-- One part of a name, and what follows it. -/
def keyPart? (cs : List Char) : Option (String × List Char) :=
  match cs with
  | '"' :: rest => basic? (cs.length + 1) [] rest
  | '\x27' :: rest => literal? rest
  | _ =>
      let part := cs.takeWhile isBareChar
      if part.isEmpty then none else some (String.ofList part, cs.drop part.length)

/-- A name of one or more parts, with what follows it and the blanks after it. -/
def key? : Nat → List Char → Option (List String × List Char)
  | 0, _ => none
  | fuel + 1, cs =>
      match keyPart? cs with
      | none => none
      | some (part, rest) =>
          match skipBlanks rest with
          | '.' :: rest' =>
              (key? fuel (skipBlanks rest')).map fun (parts, after) => (part :: parts, after)
          | rest' => some ([part], rest')

/-! ### Numbers -/

/-- Digits of some class with single underscores between them, and what follows:
the digits alone. -/
def grouped (isDigit : Char → Bool) : List Char → List Char × List Char
  | [] => ([], [])
  | '_' :: d :: rest =>
      if isDigit d then
        let (ds, after) := grouped isDigit rest
        (d :: ds, after)
      else ([], '_' :: d :: rest)
  | d :: rest =>
      if isDigit d then
        let (ds, after) := grouped isDigit rest
        (d :: ds, after)
      else ([], d :: rest)

/-- Grouped digits that start with a digit. -/
def digits? (isDigit : Char → Bool) (cs : List Char) : Option (List Char × List Char) :=
  match cs with
  | [] => none
  | d :: _ => if isDigit d then some (grouped isDigit cs) else none

/-- The number that digits spell in a base. -/
def ofDigits (base : Nat) (ds : List Char) : Nat :=
  ds.foldl (fun n d => base * n + (Json.hexDigit? d).getD 0) 0

/-- A number in another base: the letter that names it decides. -/
def based? : List Char → Option (Value × List Char)
  | '0' :: letter :: rest =>
      let read (base : Nat) : Option (Value × List Char) :=
        let isDigit (c : Char) : Bool :=
          match Json.hexDigit? c with
          | some d => decide (d < base)
          | none => false
        (digits? isDigit rest).map fun (ds, after) => (.int (ofDigits base ds), after)
      if letter = 'x' then read 16
      else if letter = 'o' then read 8
      else if letter = 'b' then read 2
      else none
  | _ => none

/-- The whole part of a number: a nought alone, or digits that start with none. -/
def whole? : List Char → Option (List Char × List Char)
  | '0' :: rest => some (['0'], rest)
  | cs => digits? Char.isDigit cs

/-- A fraction at the start, empty if there is none. -/
def fraction : List Char → List Char × List Char
  | '.' :: rest =>
      match digits? Char.isDigit rest with
      | some (ds, after) => ('.' :: ds, after)
      | none => ([], '.' :: rest)
  | cs => ([], cs)

/-- An exponent at the start, empty if there is none. -/
def exponent : List Char → List Char × List Char
  | e :: rest =>
      if e = 'e' ∨ e = 'E' then
        let (s, rest') := Json.sign rest
        match digits? Char.isDigit rest' with
        | some (ds, after) => (e :: s ++ ds, after)
        | none => ([], e :: rest)
      else ([], e :: rest)
  | [] => ([], [])

/-- A number that is none of the words, in base ten. -/
def decimal (cs : List Char) : Except DocumentError (Value × List Char) :=
  let (sign, cs') := Json.sign cs
  match whole? cs' with
  | none => .error .malformed
  | some (ds, rest) =>
      let (frac, rest') := fraction rest
      let (exp, rest'') := exponent rest'
      (Json.number (sign = ['-']) ds frac exp).map fun v => (v, rest'')

/-- The values written as words. -/
def words : List (String × Value) :=
  [("true", .bool true), ("false", .bool false), ("inf", .float "Infinity"),
    ("+inf", .float "Infinity"), ("-inf", .float "-Infinity"), ("nan", .float "NaN"),
    ("+nan", .float "NaN"), ("-nan", .float "NaN")]

/-- A value that holds no other and is no text.  What starts like a moment is one, and
then its day must exist. -/
def scalar (cs : List Char) : Except DocumentError (Value × List Char) :=
  match words.findSome? fun w => (Json.afterWord? w.1 cs).map (w.2, ·) with
  | some found => .ok found
  | none =>
      match Moment.read? cs with
      | some (m, rest) => if m.isReal then .ok (.moment m, rest) else .error .malformed
      | none =>
          match based? cs with
          | some found => .ok found
          | none => decimal cs

/-! ### Members of nested objects -/

/-- The members of the object under a dotted name changed by a function; objects on
the way are made where there are none.  A list on the way stands for its last
element, if lists may be entered. -/
def updateAt (lists : Bool) (f : List (String × Value) → Option (List (String × Value))) :
    List String → List (String × Value) → Option (List (String × Value))
  | [], ms => f ms
  | k :: ks, ms =>
      match Value.lookup k ms with
      | none => (updateAt lists f ks []).map fun inner => Value.insert k (.obj inner) ms
      | some (.obj inner) =>
          (updateAt lists f ks inner).map fun inner' => Value.insert k (.obj inner') ms
      | some (.arr vs) =>
          match lists, vs.getLast? with
          | true, some (.obj inner) =>
              (updateAt lists f ks inner).map fun inner' =>
                Value.insert k (.arr (vs.dropLast ++ [.obj inner'])) ms
          | _, _ => none
      | some _ => none

/-- Members with a name added that is not among them. -/
def addNew (name : String) (v : Value) (ms : List (String × Value)) :
    Option (List (String × Value)) :=
  match Value.lookup name ms with
  | some _ => none
  | none => some (Value.insert name v ms)

/-- Whether a value is made of parts that cannot be added to. -/
def isClosed : Value → Bool
  | .arr _ => true
  | .obj _ => true
  | _ => false

/-- Whether a name or one that it starts with is among some names. -/
def covers (names : List (List String)) (key : List String) : Bool :=
  names.any fun n => n.isPrefixOf key

/-- An inline table while it is read. -/
structure Inline where
  /-- Its members. -/
  members : List (String × Value) := []
  /-- The names that cannot be added to. -/
  closed : List (List String) := []

/-- An inline table with one more member. -/
def Inline.add (t : Inline) (key : List String) (v : Value) : Option Inline :=
  if covers t.closed key then none
  else
    match key.getLast? with
    | none => none
    | some name =>
        (updateAt false (addNew name v) key.dropLast t.members).map fun ms =>
          ⟨ms, if isClosed v then key :: t.closed else t.closed⟩

/-! ### Values -/

/-- How much nesting a list takes up: a call for the list and one for the value in it. -/
def listCost : Nat := 2

/-- How much nesting an inline table takes up: a call for the table, one for the pair in it,
and one for the value of the pair. -/
def tableCost : Nat := 3

mutual

/-- A value at the start, and what follows it.  Besides the fuel there is the nesting
that is left. -/
def value : Nat → Nat → List Char → Except DocumentError (Value × List Char)
  | 0, _, _ => .error .malformed
  | fuel + 1, nesting, cs =>
      match cs with
      | '[' :: rest =>
          if nesting < listCost then .error .nesting
          else
            match skipSpace? (rest.length + 1) rest with
            | some (']' :: rest') => .ok (.arr [], rest')
            | some rest' => elements fuel (nesting - listCost) [] rest'
            | none => .error .malformed
      | '\x7b' :: rest =>
          if nesting < tableCost then .error .nesting
          else
            match skipBlanks rest with
            | '\x7d' :: rest' => .ok (.obj [], rest')
            | rest' => inline fuel (nesting - tableCost) {} rest'
      | '"' :: _ => (Json.required (text? cs)).map fun r => (.str r.1, r.2)
      | '\x27' :: _ => (Json.required (text? cs)).map fun r => (.str r.1, r.2)
      | _ => scalar cs

/-- The elements of a list up to its closing bracket; those read are latest first. -/
def elements : Nat → Nat → List Value → List Char → Except DocumentError (Value × List Char)
  | 0, _, _, _ => .error .malformed
  | fuel + 1, nesting, read, cs =>
      match value fuel nesting cs with
      | .error e => .error e
      | .ok (v, rest) =>
          match skipSpace? (rest.length + 1) rest with
          | some (']' :: after) => .ok (.arr (v :: read).reverse, after)
          | some (',' :: after) =>
              match skipSpace? (after.length + 1) after with
              | some (']' :: after') => .ok (.arr (v :: read).reverse, after')
              | some after' => elements fuel nesting (v :: read) after'
              | none => .error .malformed
          | _ => .error .malformed

/-- The members of an inline table up to its closing brace. -/
def inline : Nat → Nat → Inline → List Char → Except DocumentError (Value × List Char)
  | 0, _, _, _ => .error .malformed
  | fuel + 1, nesting, table, cs =>
      match pair fuel nesting cs with
      | .error e => .error e
      | .ok (key, v, rest) =>
          match table.add key v with
          | none => .error .malformed
          | some table' =>
              match skipBlanks rest with
              | '\x7d' :: after => .ok (.obj table'.members, after)
              | ',' :: after => inline fuel nesting table' (skipBlanks after)
              | _ => .error .malformed

/-- A name and its value, and what follows them. -/
def pair : Nat → Nat → List Char → Except DocumentError (List String × Value × List Char)
  | 0, _, _ => .error .malformed
  | fuel + 1, nesting, cs =>
      match key? (cs.length + 1) cs with
      | some (key, '=' :: rest) =>
          (value fuel nesting (skipBlanks rest)).map fun r => (key, r.1, r.2)
      | _ => .error .malformed

end

/-! ### Documents -/

/-- A document while it is read. -/
structure Document where
  /-- What has been read. -/
  members : List (String × Value) := []
  /-- The table that is open. -/
  header : List String := []
  /-- The tables that cannot be opened again. -/
  opened : List (List String) := []
  /-- Tables made by dotted names since a table was opened; they count as opened
  once the next one is. -/
  pending : List (List String) := []
  /-- The names that cannot be added to. -/
  closed : List (List String) := []

namespace Document

/-- A document before the next table is opened. -/
def settle (d : Document) : Document :=
  { d with opened := d.pending ++ d.opened, pending := [] }

/-- A document with a table opened. -/
def openTable (d : Document) (key : List String) : Option Document :=
  if d.opened.contains key || covers d.closed key then none
  else
    (updateAt true some key d.members).map fun ms =>
      { d with members := ms, header := key, opened := key :: d.opened }

/-- Members with one more empty table at the end of a list of tables. -/
def appendTable (name : String) (ms : List (String × Value)) : Option (List (String × Value)) :=
  match Value.lookup name ms with
  | none => some (Value.insert name (.arr [.obj []]) ms)
  | some (.arr vs) => some (Value.insert name (.arr (vs ++ [.obj []])) ms)
  | some _ => none

/-- A document with one more table of a list opened. -/
def openElement (d : Document) (key : List String) : Option Document :=
  if covers d.closed key then none
  else
    match key.getLast? with
    | none => none
    | some name =>
        (updateAt true (appendTable name) key.dropLast d.members).map fun ms =>
          { d with
            members := ms
            header := key
            opened := key :: d.opened.filter fun k => !key.isPrefixOf k
            closed := d.closed.filter fun k => !key.isPrefixOf k }

/-- The tables that a dotted name goes through, below the table that is open. -/
def through (header key : List String) : List (List String) :=
  (List.range (key.length - 1)).map fun i => header ++ key.take (i + 1)

/-- A document with a name given a value in the table that is open. -/
def assign (d : Document) (key : List String) (v : Value) : Option Document :=
  if (through d.header key).any d.opened.contains || covers d.closed (d.header ++ key.dropLast)
  then none
  else
    match key.getLast? with
    | none => none
    | some name =>
        (updateAt true (addNew name v) (d.header ++ key.dropLast) d.members).map fun ms =>
          { d with
            members := ms
            pending := through d.header key ++ d.pending
            closed := if isClosed v then (d.header ++ key) :: d.closed else d.closed }

/-- A document with one statement read, and what follows that. -/
def statement (d : Document) (cs : List Char) : Except DocumentError (Document × List Char) :=
  match cs with
  | '[' :: '[' :: rest =>
      match key? (rest.length + 1) (skipBlanks rest) with
      | some (key, ']' :: ']' :: after) =>
          (Json.required (d.settle.openElement key)).map fun d' => (d', after)
      | _ => .error .malformed
  | '[' :: rest =>
      match key? (rest.length + 1) (skipBlanks rest) with
      | some (key, ']' :: after) =>
          (Json.required (d.settle.openTable key)).map fun d' => (d', after)
      | _ => .error .malformed
  | '#' :: _ => .ok (d, cs)
  | _ =>
      match pair (3 * cs.length + 3) nestingLimit cs with
      | .error e => .error e
      | .ok (key, v, after) => (Json.required (d.assign key v)).map fun d' => (d', after)

/-- A document with all statements read; each ends its line. -/
def statements : Nat → Document → List Char → Except DocumentError Document
  | 0, _, _ => .error .malformed
  | fuel + 1, d, cs =>
      match skipBlanks cs with
      | [] => .ok d
      | '\n' :: rest => statements fuel d rest
      | c :: rest =>
          match d.statement (c :: rest) with
          | .error e => .error e
          | .ok (d', after) =>
              match skipComment? (skipBlanks after) with
              | some [] => .ok d'
              | some ('\n' :: after') => statements fuel d' after'
              | _ => .error .malformed

end Document

/-- Characters with every carriage return before a line feed left out. -/
def joinLineEnds : List Char → List Char
  | [] => []
  | '\r' :: '\n' :: rest => '\n' :: joinLineEnds rest
  | c :: rest => c :: joinLineEnds rest

/-- The object that a document holds. -/
def parse (document : String) : Except DocumentError (List (String × Value)) :=
  let cs := joinLineEnds document.toList
  (Document.statements (cs.length + 1) {} cs).map Document.members

end Toml
end BindLint
