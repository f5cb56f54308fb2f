import BindLint.Number.Binary

/-!
# How numbers are written

The digits of a number are rounded from its exact value.  They are laid out with a
fixed number of places, with one digit before the point and an exponent, or in the
shorter of the two ways; and the shortest text of a number is the one with the
fewest digits that still stand for it.

## Main definitions

* `Binary.fixed`, `Binary.scientific`, `Binary.general` — a set number of digits.
* `Binary.shortest?` — the fewest digits that stand for a number.
* `Number.text` — the shortest text of a number.
-/

namespace BindLint

/-! ### Digits -/

/-- Decimal digits of a whole number, with noughts in front up to a width. -/
def paddedDigits (width n : Nat) : List Char :=
  let ds := Nat.toDigits 10 n
  List.replicate (width - ds.length) '0' ++ ds

/-- Digits without the noughts at the end; the first digit stays. -/
def withoutNoughts : List Char → List Char
  | [] => []
  | d :: ds => d :: (ds.reverse.dropWhile (· = '0')).reverse

/-- Digits with the power of ten of the first one. -/
structure Digits where
  /-- The digits. -/
  digits : List Char
  /-- The power of the first one. -/
  power : Int
  deriving DecidableEq, Repr, Inhabited

namespace Binary

/-- The first digits of a binary number, rounded. -/
def leading (x : Binary) (count : Nat) : Digits :=
  if x.significand = 0 then ⟨List.replicate count '0', 0⟩
  else
    let power := x.leadingPower
    let n := x.scaled ((count : Int) - 1 - power)
    -- rounding up may carry into a digit more
    if n = Nat.pow 10 count then ⟨paddedDigits count (Nat.pow 10 (count - 1)), power + 1⟩
    else ⟨paddedDigits count n, power⟩

/-- Whether a whole number divided by a power of ten stands for a binary number. -/
def readsBack (x : Binary) (power : Int) (n : Nat) : Bool :=
  decide (nearest? (n * Nat.pow 10 (-power).toNat) (Nat.pow 10 power.toNat) = some x)

/-- The nearest number of some digits that stands for a binary number, if one of the
two around it does. -/
def shortestAt? (x : Binary) (count : Nat) : Option Digits :=
  let power := (count : Int) - 1 - x.leadingPower
  let low := x.floorScaled power
  let (num, den) := x.ratio power
  let found : Option Nat :=
    match x.readsBack power low, x.readsBack power (low + 1) with
    | true, true =>
        -- the nearer one, and the even one from half-way
        if 2 * num < (2 * low + 1) * den then some low
        else if (2 * low + 1) * den < 2 * num then some (low + 1)
        else some (if low % 2 = 0 then low else low + 1)
    | true, false => some low
    | false, true => some (low + 1)
    | false, false => none
  found.map fun n =>
    let ds := Nat.toDigits 10 n
    ⟨withoutNoughts ds, (ds.length : Int) - 1 - power⟩

/-- The fewest digits that stand for a binary number.  Seventeen are enough for each
that a machine word holds. -/
def shortest? (x : Binary) : Option Digits :=
  if x.significand = 0 then some ⟨['0'], 0⟩
  else (List.range 17).findSome? fun i => x.shortestAt? (i + 1)

end Binary

/-! ### Layout -/

/-- Digits before and after a point; a point that nothing follows is left out unless
it is asked for. -/
def pointed (whole fraction : List Char) (point : Bool) : List Char :=
  whole ++ (if fraction.isEmpty && !point then [] else '.' :: fraction)

/-- An exponent: its sign, and two digits at least. -/
def exponentText (power : Int) : List Char :=
  'e' :: (if power < 0 then '-' else '+') :: paddedDigits 2 power.natAbs

/-- Digits with one before the point and an exponent. -/
def Digits.scientific (d : Digits) (point : Bool) : List Char :=
  pointed (d.digits.take 1) (d.digits.drop 1) point ++ exponentText d.power

/-- The digits before the point, and those after it. -/
def Digits.places (d : Digits) : List Char × List Char :=
  if d.power < 0 then
    (['0'], List.replicate (-d.power - 1).toNat '0' ++ d.digits)
  else
    let width := d.power.toNat + 1
    (d.digits.take width ++ List.replicate (width - d.digits.length) '0', d.digits.drop width)

/-- Digits without an exponent. -/
def Digits.positional (d : Digits) (point : Bool) : List Char :=
  pointed d.places.1 d.places.2 point

namespace Binary

/-- A binary number with a set number of places. -/
def fixed (x : Binary) (places : Nat) (point : Bool) : List Char :=
  let ds := paddedDigits (places + 1) (x.scaled places)
  pointed (ds.take (ds.length - places)) (ds.drop (ds.length - places)) point

/-- A binary number with one digit before the point, a set number of places and an
exponent. -/
def scientific (x : Binary) (places : Nat) (point : Bool) : List Char :=
  (x.leading (places + 1)).scientific point

/-- A binary number with a set number of digits.  It has an exponent if the first
digit stands more than four places behind the point, or if the digits do not reach
up to the point.  Unless all are asked for, noughts at the end are left out. -/
def general (x : Binary) (count : Nat) (all : Bool) : List Char :=
  let count := max count 1
  let d := x.leading count
  let d := if all then d else { d with digits := withoutNoughts d.digits }
  if d.power < -4 || (count : Int) ≤ d.power then d.scientific all else d.positional all

/-- A binary number with the fewest digits that stand for it.  It has an exponent if
the first digit stands more than four places behind the point or more than sixteen
before it, and else a digit on both sides of the point. -/
def text (x : Binary) : List Char :=
  let d := x.shortest?.getD (x.leading 17)
  if d.power < -4 || 16 ≤ d.power then d.scientific false
  else
    match d.places with
    | (whole, []) => whole ++ ['.', '0']
    | (whole, fraction) => pointed whole fraction false

end Binary

/-- The text of a number that is not finite. -/
def infinityText : List Char := ['i', 'n', 'f']

/-- The text of what is no number. -/
def undefinedText : List Char := ['n', 'a', 'n']

/-- The shortest text of a number. -/
def Number.text (x : Number) : String :=
  let magnitude :=
    match x with
    | .finite _ b => b.text
    | .infinite _ => infinityText
    | .undefined => undefinedText
  String.ofList (if x.isNegative then '-' :: magnitude else magnitude)

end BindLint
