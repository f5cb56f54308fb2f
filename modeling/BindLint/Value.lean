import BindLint.Value.Moment

/-!
# Values of configuration documents and of records

Option files, syntax trees handed in from outside, log records and reports are
all made of the same plain values.  An object keeps its members in the order in
which their names first appeared, because that order is visible in reports and
in the order of complaints about unknown names.

A document may spell a text by numbers, and among these may be half of a surrogate
pair without the other half.  Such a text is no Unicode text; it is kept as code
points, and an object keeps members that are named by one apart from the others.

## Main definitions

* `Value` — null, truth values, numbers, moments, texts, lists and objects.
* `Value.ofPoints`, `Value.ofMembers` — texts and objects as documents spell them.
* `Value.lookup`, `Value.insert`, `Value.erase` — the members of an object.
* `DocumentError` — why a text holds no value.
-/

namespace BindLint

/-- A plain value.  A whole number and a number written with a point or an
exponent are different values; the latter keeps the digits it was written with. -/
inductive Value where
  /-- The absent value. -/
  | null : Value
  /-- A truth value. -/
  | bool (b : Bool) : Value
  /-- A whole number of any size. -/
  | int (n : Int) : Value
  /-- A number with a fraction or an exponent, as written. -/
  | float (literal : String) : Value
  /-- A day, a time of day, or both. -/
  | moment (m : Moment) : Value
  /-- A text. -/
  | str (s : String) : Value
  /-- A text with half of a surrogate pair, by its code points. -/
  | unpaired (points : List Nat) : Value
  /-- A list. -/
  | arr (elements : List Value) : Value
  /-- An object: names with values, each name once, in order of appearance. -/
  | obj (members : List (String × Value)) : Value
  /-- An object some of whose names hold half of a surrogate pair: the other members,
  and those with such a name. -/
  | misnamed (members : List (String × Value)) (strays : List (List Nat × Value)) : Value
  deriving Repr, Inhabited

/-- Why a text holds no value. -/
inductive DocumentError where
  /-- It does not follow the rules of its format. -/
  | malformed : DocumentError
  /-- It holds a whole number of so many digits, which are too many. -/
  | longNumber (digits : Nat) : DocumentError
  /-- Its lists and objects are nested too deep for the calls that are left to its reader. -/
  | nesting : DocumentError
  deriving DecidableEq, Repr, Inhabited

/-- The greatest number of digits of a whole number in base ten. -/
def digitLimit : Nat := 4300

/-- How deep the parts of a document may be nested.  No format sets this limit.  The readers
call themselves for each part within a part, a thousand calls may be open at a time, and this
stands for those that are left when a reader starts, below the calls that led to it.  So it is
what is left at one depth of calls, not a number that a document could rely on. -/
def nestingLimit : Nat := 980

namespace Value

/-- What a value is called in messages. -/
def typeName : Value → String
  | .null => "NoneType"
  | .bool _ => "bool"
  | .int _ => "int"
  | .float _ => "float"
  | .moment m => m.typeName
  | .str _ => "str"
  | .unpaired _ => "str"
  | .arr _ => "list"
  | .obj _ => "dict"
  | .misnamed _ _ => "dict"

/-- What a value is called where its type is named in full. -/
def fullTypeName : Value → String
  | .moment m => "datetime." ++ m.typeName
  | v => v.typeName

/-! ### Members -/

/-- The value a name has among members. -/
def lookup (name : String) (members : List (String × Value)) : Option Value :=
  (members.find? fun m => m.1 = name).map Prod.snd

/-- Members with a name set: in its old place if it was there, else at the end. -/
def insert {κ : Type} [DecidableEq κ] (name : κ) (value : Value) :
    List (κ × Value) → List (κ × Value)
  | [] => [(name, value)]
  | m :: ms => if m.1 = name then (name, value) :: ms else m :: insert name value ms

/-- Members without a name. -/
def erase (name : String) (members : List (String × Value)) : List (String × Value) :=
  members.filter fun m => m.1 ≠ name

/-- The members of an object, or nothing for any other value. -/
def members? : Value → Option (List (String × Value))
  | .obj ms => some ms
  | _ => none

/-- The value a name has in an object; nothing for any other value. -/
def get? (v : Value) (name : String) : Option Value :=
  v.members?.bind (lookup name)

/-- The text a value is. -/
def str? : Value → Option String
  | .str s => some s
  | _ => none

/-- The truth value a value is. -/
def bool? : Value → Option Bool
  | .bool b => some b
  | _ => none

/-- The whole number a value is. -/
def int? : Value → Option Int
  | .int n => some n
  | _ => none

/-- The list a value is. -/
def arr? : Value → Option (List Value)
  | .arr vs => some vs
  | _ => none

/-- A list of texts as a value. -/
def texts (ss : List String) : Value := .arr (ss.map .str)

/-! ### Values as documents spell them -/

/-- The text of code points, if none is half of a surrogate pair. -/
def textOf? (points : List Nat) : Option String :=
  if points.all fun n => decide n.isValidChar then some (String.ofList (points.map Char.ofNat))
  else none

/-- The value of a text that is spelled by code points. -/
def ofPoints (points : List Nat) : Value :=
  match textOf? points with
  | some s => .str s
  | none => .unpaired points

/-- The object of members in the order in which they are spelled; of members with the
same name the last counts, in the place of the first. -/
def ofMembers (spelled : List (List Nat × Value)) : Value :=
  let members := spelled.filterMap fun m => (textOf? m.1).map fun name => (name, m.2)
  let strays := spelled.filter fun m => (textOf? m.1).isNone
  let object := members.foldl (fun ms m => insert m.1 m.2 ms) []
  if strays.isEmpty then .obj object
  else .misnamed object (strays.foldl (fun ms m => insert m.1 m.2 ms) [])

/-! ### Laws of members -/

@[simp] theorem lookup_nil (name : String) : lookup name [] = none := rfl

theorem lookup_cons (name : String) (m : String × Value) (ms : List (String × Value)) :
    lookup name (m :: ms) = if m.1 = name then some m.2 else lookup name ms := by
  by_cases h : m.1 = name <;> simp [lookup, h]

/-- A name that was set has the value it was set to. -/
@[simp] theorem lookup_insert_self (name : String) (v : Value) (ms : List (String × Value)) :
    lookup name (insert name v ms) = some v := by
  induction ms with
  | nil => simp [insert, lookup_cons]
  | cons m ms ih => by_cases h : m.1 = name <;> simp [insert, lookup_cons, h, ih]

/-- Setting a name leaves the other names alone. -/
theorem lookup_insert_of_ne {name other : String} (h : name ≠ other) (v : Value)
    (ms : List (String × Value)) : lookup other (insert name v ms) = lookup other ms := by
  induction ms with
  | nil => simp [insert, lookup_cons, h]
  | cons m ms ih =>
    by_cases hm : m.1 = name
    · simp [insert, lookup_cons, hm, h]
    · simp [insert, lookup_cons, hm, ih]

/-- An erased name has no value. -/
@[simp] theorem lookup_erase_self (name : String) (ms : List (String × Value)) :
    lookup name (erase name ms) = none := by
  simp [lookup, erase]

/-- Erasing a name leaves the other names alone. -/
theorem lookup_erase_of_ne {name other : String} (h : name ≠ other)
    (ms : List (String × Value)) : lookup other (erase name ms) = lookup other ms := by
  induction ms with
  | nil => rfl
  | cons m ms ih =>
    by_cases hm : m.1 = name
    · rw [lookup_cons, if_neg (by rw [hm]; exact h), ← ih]
      simp [erase, hm]
    · have : erase name (m :: ms) = m :: erase name ms := by simp [erase, hm]
      rw [this, lookup_cons, lookup_cons, ih]

end Value
end BindLint
