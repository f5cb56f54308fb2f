import BindLint.Log.Directive
import BindLint.Number.Layout
import BindLint.Text.Quoted

/-!
# Filling in wordings

A message may be given as a wording with marks and the values to put there.  The
marks take the values in order, and all values must be taken.  If the only value is
an object that has members, a mark may also name one of them; then nothing need be
taken.  A wording without values stands as it is.

## Main definitions

* `Log.shown` — a value inside a message.
* `Log.Style.pad` — a text brought to its least width.
* `Log.Style.render?` — a value shown in the way of a mark.
* `Log.fill?` — a wording with its values filled in.
-/

namespace BindLint
namespace Log

/-! ### Values as text -/

mutual

/-- A value inside a list: texts stand in quotes. -/
def quotedValue : Value → String
  | .null => "None"
  | .bool b => if b then "True" else "False"
  | .int n => toString n
  | .float literal => (Number.ofLiteral literal).text
  | .moment m => m.text
  | .str s => Text.quoted s
  | .unpaired points => Text.quotedPoints points
  | .arr vs => "[" ++ String.intercalate ", " (quotedValues vs) ++ "]"
  | .obj ms => "\x7b" ++ String.intercalate ", " (quotedMembers ms) ++ "\x7d"
  | .misnamed ms strays =>
      "\x7b" ++ String.intercalate ", " (quotedMembers ms ++ quotedStrays strays) ++ "\x7d"

/-- Values inside a list. -/
def quotedValues : List Value → List String
  | [] => []
  | v :: vs => quotedValue v :: quotedValues vs

/-- Members inside an object. -/
def quotedMembers : List (String × Value) → List String
  | [] => []
  | (name, v) :: ms => (Text.quoted name ++ ": " ++ quotedValue v) :: quotedMembers ms

/-- Members that are named by code points. -/
def quotedStrays : List (List Nat × Value) → List String
  | [] => []
  | (name, v) :: ms => (Text.quotedPoints name ++ ": " ++ quotedValue v) :: quotedStrays ms

end

/-- A value inside a message: a text stands as it is. -/
def shown : Value → String
  | .str s => s
  | v => quotedValue v

/-! ### Values as numbers -/

/-- The whole number that a value is; truth values count as one and nought. -/
def exactInt? : Value → Option Int
  | .int n => some n
  | .bool b => some (if b then 1 else 0)
  | _ => none

/-- A value as a whole number; the fraction of a number is left out. -/
def wholeInt? : Value → Option Int
  | .float literal => (Number.ofLiteral literal).truncate?
  | v => exactInt? v

/-- A value as a number.  A whole number that is too large has none. -/
def number? : Value → Option Number
  | .float literal => some (Number.ofLiteral literal)
  | v =>
      match (exactInt? v).map Number.ofInt with
      | some (.finite negative x) => some (.finite negative x)
      | _ => none

/-- A value as one character: a text of one, or the number of one. -/
def character? : Value → Option Char
  | .str s =>
      match s.toList with
      | [c] => some c
      | _ => none
  | v =>
      match exactInt? v with
      | some (.ofNat n) => if n.isValidChar then some (Char.ofNat n) else none
      | _ => none

/-! ### Styles -/

/-- How a value is laid out: a mark whose width and precision are known. -/
structure Style where
  /-- Blanks go to the right. -/
  left : Bool
  /-- Numbers that are not below nought have a plus sign. -/
  plus : Bool
  /-- Numbers that are not below nought have a blank for a sign. -/
  blank : Bool
  /-- Show the base of a whole number, and the point of any other. -/
  alternate : Bool
  /-- Numbers are filled up with noughts. -/
  noughts : Bool
  /-- The least width. -/
  width : Nat
  /-- The precision. -/
  precision : Option Nat
  deriving DecidableEq, Repr, Inhabited

namespace Style

/-- A text brought to its least width.  A sign or a mark of the base stands before the
noughts and after the blanks. -/
def pad (s : Style) (noughts : Bool) (lead body : List Char) : List Char :=
  let missing := s.width - (lead.length + body.length)
  if s.left then lead ++ body ++ List.replicate missing ' '
  else if noughts then lead ++ List.replicate missing '0' ++ body
  else List.replicate missing ' ' ++ lead ++ body

/-- The sign of a number. -/
def sign (s : Style) (negative : Bool) : List Char :=
  if negative then ['-'] else if s.plus then ['+'] else if s.blank then [' '] else []

/-- A text, cut off at the precision. -/
def text (s : Style) (t : String) : List Char :=
  let cs := t.toList
  s.pad false [] (match s.precision with
    | some n => cs.take n
    | none => cs)

/-- Characters in capitals, if they are to be. -/
def capitals (capital : Bool) (cs : List Char) : List Char :=
  if capital then cs.map Char.toUpper else cs

/-- A whole number to a base, with as many digits as the precision says. -/
def whole (s : Style) (base : Nat) (mark : List Char) (capital : Bool) (n : Int) : List Char :=
  let ds := Nat.toDigits base n.natAbs
  let digits := List.replicate (s.precision.getD 0 - ds.length) '0' ++ ds
  let lead := s.sign (decide (n < 0)) ++ (if s.alternate then capitals capital mark else [])
  s.pad s.noughts lead (capitals capital digits)

/-- A number whose digits are laid out in some way. -/
def number (s : Style) (capital : Bool) (layout : Binary → Nat → Bool → List Char)
    (x : Number) : List Char :=
  let body :=
    match x with
    | .finite _ b => layout b (s.precision.getD 6) s.alternate
    | .infinite _ => infinityText
    | .undefined => undefinedText
  s.pad s.noughts (s.sign x.isNegative) (capitals capital body)

/-- A value shown in the way of a mark, if it can be. -/
def render? (s : Style) (v : Value) : Conversion → Option (List Char)
  | .text => some (s.text (shown v))
  | .quoted => some (s.text (quotedValue v))
  | .ascii => some (s.text (Text.ascii (quotedValue v)))
  | .character => (character? v).map fun c => s.pad false [] [c]
  | .whole => (wholeInt? v).map (s.whole 10 [] false)
  | .octal => (exactInt? v).map (s.whole 8 ['0', 'o'] false)
  | .hexadecimal capital => (exactInt? v).map (s.whole 16 ['0', 'x'] capital)
  | .fixed capital => (number? v).map (s.number capital Binary.fixed)
  | .scientific capital => (number? v).map (s.number capital Binary.scientific)
  | .general capital => (number? v).map (s.number capital Binary.general)

end Style

/-! ### Taking values -/

/-- The values of a message while its marks take them. -/
structure Arguments where
  /-- The values not yet taken. -/
  remaining : List Value
  /-- The members that marks may name, if they may name any. -/
  members : Option (List (String × Value)) := none

namespace Arguments

/-- The values of a message before any is taken. -/
def ofList : List Value → Arguments
  | [.obj (m :: ms)] => ⟨[.obj (m :: ms)], some (m :: ms)⟩
  | vs => ⟨vs, none⟩

/-- Whether nothing is left that had to be taken. -/
def isDone (a : Arguments) : Bool := a.members.isSome || a.remaining.isEmpty

/-- The next value. -/
def next? (a : Arguments) : Option (Value × Arguments) :=
  match a.remaining with
  | [] => none
  | v :: vs => some (v, { a with remaining := vs })

/-- The values after a mark has named one: that one comes next, and no other. -/
def named? (a : Arguments) : Option String → Option Arguments
  | none => some a
  | some name =>
      (a.members.bind (Value.lookup name)).map fun v => { a with remaining := [v] }

/-- A width or a precision beyond this cannot be met. -/
def sizeLimit : Nat := Nat.pow 2 31

/-- A size, none if the mark sets none. -/
def size? (a : Arguments) : Size → Option (Option Int × Arguments)
  | .absent => some (none, a)
  | .given n => if n < sizeLimit then some (some n, a) else none
  | .taken => do
      let (v, rest) ← a.next?
      let n ← exactInt? v
      if n.natAbs < sizeLimit then some (some n, rest) else none

end Arguments

/-- The style of a mark.  A width below nought moves the blanks to the right, and a
precision below nought counts as nought. -/
def Directive.style (d : Directive) (width precision : Option Int) : Style where
  left := d.flags.contains '-' || decide (width.getD 0 < 0)
  plus := d.flags.contains '+'
  blank := d.flags.contains ' '
  alternate := d.flags.contains '#'
  noughts := d.flags.contains '0'
  width := (width.getD 0).natAbs
  precision := precision.map Int.toNat

/-- What stands for a mark, and the values left. -/
def Directive.fill? (d : Directive) (a : Arguments) : Option (List Char × Arguments) := do
  let a ← a.named? d.key
  let (width, a) ← a.size? d.width
  let (precision, a) ← a.size? d.precision
  let (v, rest) ← a.next?
  let cs ← (d.style width precision).render? v d.conversion
  some (cs, rest)

/-- The parts of a wording, filled in. -/
def fillParts? : List Part → Arguments → Option (List Char)
  | [], a => if a.isDone then some [] else none
  | .character c :: ps, a => (fillParts? ps a).map (c :: ·)
  | .mark d :: ps, a => do
      let (cs, rest) ← d.fill? a
      (fillParts? ps rest).map (cs ++ ·)

/-- A wording with values filled in; without values it stands as it is. -/
def fill? (wording : String) (vs : List Value) : Option String :=
  if vs.isEmpty then some wording
  else
    (parts? wording.toList).bind fun ps =>
      (fillParts? ps (.ofList vs)).map String.ofList

/-! ### Laws -/

/-- A text that is brought to its least width has it. -/
theorem Style.length_pad (s : Style) (noughts : Bool) (lead body : List Char) :
    (s.pad noughts lead body).length = max s.width (lead.length + body.length) := by
  unfold Style.pad
  dsimp only
  split
  · simp only [List.length_append, List.length_replicate]; omega
  · split <;> (simp only [List.length_append, List.length_replicate]; omega)

end Log
end BindLint
