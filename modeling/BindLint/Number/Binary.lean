import BindLint.Value.Json

/-!
# Binary numbers

A number that was written with a point or an exponent stands for the nearest of the
numbers that a machine word of 64 bits holds: a whole number below `2 ^ 53` times a
power of two, from `2 ^ (-1074)` on.  All arithmetic here is exact.

## Main definitions

* `roundDiv` — a quotient to the nearest whole number.
* `Binary` — a whole number times a power of two.
* `Binary.nearest?` — the binary number nearest to a fraction.
* `Number.ofLiteral` — the number that a literal stands for.

## Main results

* `roundDiv_near` — a rounded quotient is off by half a unit at most.
* `roundDiv_even` — a quotient that lies half-way goes to an even number.
-/

namespace BindLint

/-! ### Rounding -/

/-- A quotient to the nearest whole number; from half-way it goes to the even one. -/
def roundDiv (num den : Nat) : Nat :=
  let q := num / den
  let r := num % den
  if 2 * r < den then q
  else if den < 2 * r then q + 1
  else if q % 2 = 0 then q
  else q + 1

/-- A rounded quotient is off by half a unit at most. -/
theorem roundDiv_near (num : Nat) {den : Nat} (h : 0 < den) :
    2 * (roundDiv num den * den) ≤ 2 * num + den ∧
      2 * num ≤ 2 * (roundDiv num den * den) + den := by
  have split_num : den * (num / den) + num % den = num := Nat.div_add_mod num den
  have small : num % den < den := Nat.mod_lt _ h
  unfold roundDiv
  generalize num / den = q at *
  generalize num % den = r at *
  have next : (q + 1) * den = den * q + den := by rw [Nat.add_mul, Nat.mul_comm, Nat.one_mul]
  have this_one : q * den = den * q := Nat.mul_comm ..
  generalize den * q = p at *
  dsimp only
  split
  · omega
  · split
    · omega
    · split <;> omega

/-- A quotient that lies half-way between two whole numbers goes to an even one. -/
theorem roundDiv_even {num den : Nat} (h : 2 * (num % den) = den) :
    roundDiv num den % 2 = 0 := by
  unfold roundDiv
  simp only [h, Nat.lt_irrefl, if_false]
  split <;> omega

/-! ### Binary numbers -/

/-- A whole number times a power of two. -/
structure Binary where
  /-- The whole number. -/
  significand : Nat
  /-- The power. -/
  exponent : Int
  deriving DecidableEq, Repr, Inhabited

namespace Binary

/-- The least power that a machine word holds. -/
def leastExponent : Int := -1074

/-- The binary number nearest to a fraction that is not nought, none if it is too
large for a machine word. -/
def nearestPositive? (num den : Nat) : Option Binary :=
  -- on this scale the fraction lies between `2 ^ 52` and `2 ^ 54`
  let guess : Int := (num.log2 : Int) - (den.log2 : Int) - 53
  let wide :=
    decide (Nat.pow 2 53 * (den * Nat.pow 2 guess.toNat) ≤ num * Nat.pow 2 (-guess).toNat)
  let q := max (if wide then guess + 1 else guess) leastExponent
  let m := roundDiv (num * Nat.pow 2 (-q).toNat) (den * Nat.pow 2 q.toNat)
  let x : Binary := if m = Nat.pow 2 53 then ⟨Nat.pow 2 52, q + 1⟩ else ⟨m, q⟩
  if 1024 ≤ (x.significand.log2 : Int) + x.exponent then none else some x

/-- The binary number nearest to a fraction, none if it is too large for a machine
word. -/
def nearest? (num den : Nat) : Option Binary :=
  if num = 0 then some ⟨0, leastExponent⟩ else nearestPositive? num den

/-- A binary number times a power of ten, as a fraction. -/
def ratio (x : Binary) (power : Int) : Nat × Nat :=
  (x.significand * Nat.pow 2 x.exponent.toNat * Nat.pow 10 power.toNat,
    Nat.pow 2 (-x.exponent).toNat * Nat.pow 10 (-power).toNat)

/-- A binary number times a power of ten, to the nearest whole number. -/
def scaled (x : Binary) (power : Int) : Nat :=
  let (num, den) := x.ratio power
  roundDiv num den

/-- A binary number times a power of ten, without its fraction. -/
def floorScaled (x : Binary) (power : Int) : Nat :=
  let (num, den) := x.ratio power
  num / den

/-- Whether a binary number is at least a power of ten. -/
def reaches (x : Binary) (power : Int) : Bool :=
  let (num, den) := x.ratio (-power)
  decide (den ≤ num)

/-- The power of ten of the first digit of a binary number that is not nought. -/
def leadingPower (x : Binary) : Int :=
  -- a bit is worth about 0.30103 digits, so this is off by one at most
  let guess := Int.fdiv (((x.significand.log2 : Int) + x.exponent) * 30103) 100000
  if !x.reaches guess then guess - 1
  else if x.reaches (guess + 1) then guess + 1
  else guess

end Binary

/-! ### Numbers -/

/-- A number with a sign; nought has two, and there are two numbers beyond all
others, and one that is no number. -/
inductive Number where
  /-- A binary number. -/
  | finite (negative : Bool) (magnitude : Binary) : Number
  /-- Beyond all binary numbers. -/
  | infinite (negative : Bool) : Number
  /-- No number. -/
  | undefined : Number
  deriving DecidableEq, Repr, Inhabited

namespace Number

/-- The number with a sign nearest to a fraction. -/
def ofRatio (negative : Bool) (num den : Nat) : Number :=
  match Binary.nearest? num den with
  | some x => .finite negative x
  | none => .infinite negative

/-- The number of some digits times a power of ten.  Powers far out of reach are not
computed. -/
def ofDecimal (negative : Bool) (digits : List Char) (power : Int) : Number :=
  let n := Json.ofDigits digits
  let size := (digits.length : Int) + power
  if n = 0 || size < -400 then .finite negative ⟨0, Binary.leastExponent⟩
  else if 400 < size - (digits.takeWhile (· = '0')).length then .infinite negative
  else ofRatio negative (n * Nat.pow 10 power.toNat) (Nat.pow 10 (-power).toNat)

/-- The number that an exponent states. -/
def exponentOf (cs : List Char) : Int :=
  match Json.sign (cs.drop 1) with
  | (['-'], ds) => -(Json.ofDigits ds : Int)
  | (_, ds) => Json.ofDigits ds

/-- The number that a literal without a sign stands for. -/
def ofUnsigned (negative : Bool) (cs : List Char) : Number :=
  let (whole, rest) := Json.digits cs
  let (fraction, rest') := Json.fraction rest
  let (exponent, _) := Json.exponent rest'
  let places := fraction.drop 1
  ofDecimal negative (whole ++ places) (exponentOf exponent - (places.length : Int))

/-- The number that a literal stands for. -/
def ofLiteral (literal : String) : Number :=
  if literal = "NaN" then .undefined
  else if literal = "Infinity" then .infinite false
  else if literal = "-Infinity" then .infinite true
  else
    match literal.toList with
    | '-' :: cs => ofUnsigned true cs
    | cs => ofUnsigned false cs

/-- The number nearest to a whole number. -/
def ofInt (n : Int) : Number := ofRatio (decide (n < 0)) n.natAbs 1

/-- A number without its fraction, if it is finite. -/
def truncate? : Number → Option Int
  | .finite negative x =>
      some (if negative then -(x.floorScaled 0 : Int) else x.floorScaled 0)
  | _ => none

/-- Whether a number has the sign of the numbers below nought. -/
def isNegative : Number → Bool
  | .finite negative _ => negative
  | .infinite negative => negative
  | .undefined => false

end Number
end BindLint
