/-!
# Dates and times

A moment is written as a date, as a time of day, or as both with `T` or a blank
between them; in the last case the distance from universal time may follow.  Which
digits may stand where is a matter of reading; whether there is such a day is asked
afterwards.

## Main definitions

* `Date`, `DayTime`, `Moment` — the days, the times of day, and both.
* `Moment.read?` — the moment at the start of a text.
* `Moment.isReal` — whether its day exists.
* `Moment.text` — how a moment is written.
-/

namespace BindLint

/-- A day. -/
structure Date where
  /-- The year. -/
  year : Nat
  /-- The month, from one on. -/
  month : Nat
  /-- The day of the month, from one on. -/
  day : Nat
  deriving DecidableEq, Repr, Inhabited

/-- A time of day. -/
structure DayTime where
  /-- The hour. -/
  hour : Nat
  /-- The minute of the hour. -/
  minute : Nat
  /-- The second of the minute. -/
  second : Nat
  /-- The millionth of the second. -/
  microsecond : Nat := 0
  deriving DecidableEq, Repr, Inhabited

/-- A day, a time of day, or both. -/
inductive Moment where
  /-- A day. -/
  | date (d : Date) : Moment
  /-- A time of day. -/
  | time (t : DayTime) : Moment
  /-- A time on a day, with the minutes by which it is ahead of universal time, if
  these are known. -/
  | dateTime (d : Date) (t : DayTime) (offset : Option Int) : Moment
  deriving DecidableEq, Repr, Inhabited

namespace Moment

/-! ### Reading -/

/-- The number that decimal digits spell. -/
def ofDigits (ds : List Char) : Nat := Nat.ofDigitChars 10 ds 0

/-- The number of so many digits at the start, if it lies in a range, and what
follows. -/
def field? (width lo hi : Nat) (cs : List Char) : Option (Nat × List Char) :=
  let ds := cs.take width
  if ds.length = width && ds.all Char.isDigit && lo ≤ ofDigits ds && ofDigits ds ≤ hi then
    some (ofDigits ds, cs.drop width)
  else none

/-- What follows a character at the start. -/
def after? (c : Char) : List Char → Option (List Char)
  | [] => none
  | d :: cs => if d = c then some cs else none

/-- The day at the start. -/
def readDate? (cs : List Char) : Option (Date × List Char) := do
  let (year, cs) ← field? 4 0 9999 cs
  let (month, cs) ← (after? '-' cs).bind (field? 2 1 12)
  let (day, cs) ← (after? '-' cs).bind (field? 2 1 31)
  some (⟨year, month, day⟩, cs)

/-- The millionths that a fraction at the start states, none if there is none.  Digits
beyond the sixth do not count. -/
def readFraction (cs : List Char) : Nat × List Char :=
  match cs with
  | '.' :: rest =>
      let ds := rest.takeWhile Char.isDigit
      if ds.isEmpty then (0, cs)
      else (ofDigits ((ds ++ List.replicate 6 '0').take 6), rest.drop ds.length)
  | _ => (0, cs)

/-- The time of day at the start. -/
def readTime? (cs : List Char) : Option (DayTime × List Char) := do
  let (hour, cs) ← field? 2 0 23 cs
  let (minute, cs) ← (after? ':' cs).bind (field? 2 0 59)
  let (second, cs) ← (after? ':' cs).bind (field? 2 0 59)
  let (microsecond, cs) := readFraction cs
  some (⟨hour, minute, second, microsecond⟩, cs)

/-- The minutes of an offset behind its sign. -/
def readMinutes? (cs : List Char) : Option (Nat × List Char) := do
  let (hours, cs) ← field? 2 0 23 cs
  let (minutes, cs) ← (after? ':' cs).bind (field? 2 0 59)
  some (60 * hours + minutes, cs)

/-- The offset at the start, if there is one. -/
def readOffset (cs : List Char) : Option Int × List Char :=
  match cs with
  | [] => (none, [])
  | c :: rest =>
      if c = 'Z' || c = 'z' then (some 0, rest)
      else if c = '+' || c = '-' then
        match readMinutes? rest with
        | some (n, after) => (some (if c = '-' then -(n : Int) else n), after)
        | none => (none, cs)
      else (none, cs)

/-- Whether a character may stand between a day and a time. -/
def isSeparator (c : Char) : Bool := c = 'T' || c = 't' || c = ' '

/-- The moment at the start, and what follows it. -/
def read? (cs : List Char) : Option (Moment × List Char) :=
  match readDate? cs with
  | none => (readTime? cs).map fun r => (.time r.1, r.2)
  | some (d, rest) =>
      match if rest.head?.any isSeparator then readTime? (rest.drop 1) else none with
      | none => some (.date d, rest)
      | some (t, after) =>
          let (offset, after') := readOffset after
          some (.dateTime d t offset, after')

/-! ### The calendar -/

/-- Whether a year has a leap day. -/
def isLeap (year : Nat) : Bool := (year % 4 = 0 && year % 100 ≠ 0) || year % 400 = 0

/-- The number of days of a month. -/
def daysIn (year month : Nat) : Nat :=
  if month = 2 then (if isLeap year then 29 else 28)
  else if month = 4 || month = 6 || month = 9 || month = 11 then 30
  else 31

/-- Whether there is such a day; the first year is the year one. -/
def isDay (d : Date) : Bool := 1 ≤ d.year && d.day ≤ daysIn d.year d.month

/-- Whether the day of a moment exists. -/
def isReal : Moment → Bool
  | .date d => isDay d
  | .time _ => true
  | .dateTime d _ _ => isDay d

/-! ### Writing -/

/-- A number with noughts before it, up to a width. -/
def padded (width n : Nat) : String :=
  let ds := Nat.toDigits 10 n
  String.ofList (List.replicate (width - ds.length) '0' ++ ds)

/-- How a day is written. -/
def dateText (d : Date) : String :=
  padded 4 d.year ++ "-" ++ padded 2 d.month ++ "-" ++ padded 2 d.day

/-- How a time of day is written; millionths only if there are any. -/
def timeText (t : DayTime) : String :=
  padded 2 t.hour ++ ":" ++ padded 2 t.minute ++ ":" ++ padded 2 t.second ++
    (if t.microsecond = 0 then "" else "." ++ padded 6 t.microsecond)

/-- How an offset is written. -/
def offsetText : Option Int → String
  | none => ""
  | some n =>
      (if n < 0 then "-" else "+") ++ padded 2 (n.natAbs / 60) ++ ":" ++ padded 2 (n.natAbs % 60)

/-- How a moment is written. -/
def text : Moment → String
  | .date d => dateText d
  | .time t => timeText t
  | .dateTime d t offset => dateText d ++ " " ++ timeText t ++ offsetText offset

/-- What a moment is called in messages. -/
def typeName : Moment → String
  | .date _ => "date"
  | .time _ => "time"
  | .dateTime _ _ _ => "datetime"

/-! ### Laws -/

/-- A number that was read lies in its range. -/
theorem field?_bounds {width lo hi n : Nat} {cs rest : List Char}
    (h : field? width lo hi cs = some (n, rest)) : lo ≤ n ∧ n ≤ hi := by
  unfold field? at h
  dsimp only at h
  split at h
  · rename_i cond
    simp only [Bool.and_eq_true, decide_eq_true_eq] at cond
    obtain ⟨rfl, -⟩ := Prod.mk.inj (Option.some.inj h)
    exact ⟨cond.1.2, cond.2⟩
  · simp at h

end Moment
end BindLint
