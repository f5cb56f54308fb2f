import BindLint.Value.Json

/-!
# Marks in wordings

A wording may hold marks that stand for values.  A mark is a percent sign, the name
of a value in brackets, flags, a least width, a precision after a point, and a
letter for the way in which the value is shown; all but the percent sign and the
letter may be left out.  A width or a precision may be a star, and is then itself
one of the values.  A letter `h`, `l` or `L` before the last one says nothing.  Two
percent signs in a row are no mark.

## Main definitions

* `Log.Conversion` — the ways in which a value is shown.
* `Log.Directive` — a mark.
* `Log.Part`, `Log.parts?` — the text and the marks of a wording.
-/

namespace BindLint
namespace Log

/-- The ways in which a value is shown. -/
inductive Conversion where
  /-- As a text. -/
  | text : Conversion
  /-- In quotes, if it is a text. -/
  | quoted : Conversion
  /-- In quotes, with characters beyond ASCII written by number. -/
  | ascii : Conversion
  /-- As one character. -/
  | character : Conversion
  /-- As a whole number. -/
  | whole : Conversion
  /-- As a whole number to the base eight. -/
  | octal : Conversion
  /-- As a whole number to the base sixteen. -/
  | hexadecimal (capital : Bool) : Conversion
  /-- With a set number of places. -/
  | fixed (capital : Bool) : Conversion
  /-- With one digit before the point and an exponent. -/
  | scientific (capital : Bool) : Conversion
  /-- With a set number of digits. -/
  | general (capital : Bool) : Conversion
  deriving DecidableEq, Repr, Inhabited

/-- The way that a letter stands for. -/
def Conversion.ofChar? : Char → Option Conversion
  | 's' => some .text
  | 'r' => some .quoted
  | 'a' => some .ascii
  | 'c' => some .character
  | 'd' => some .whole
  | 'i' => some .whole
  | 'u' => some .whole
  | 'o' => some .octal
  | 'x' => some (.hexadecimal false)
  | 'X' => some (.hexadecimal true)
  | 'f' => some (.fixed false)
  | 'F' => some (.fixed true)
  | 'e' => some (.scientific false)
  | 'E' => some (.scientific true)
  | 'g' => some (.general false)
  | 'G' => some (.general true)
  | _ => none

/-- A width or a precision. -/
inductive Size where
  /-- None is set. -/
  | absent : Size
  /-- It is set. -/
  | given (n : Nat) : Size
  /-- It is the next value. -/
  | taken : Size
  deriving DecidableEq, Repr, Inhabited

/-- A mark. -/
structure Directive where
  /-- The name of the value, if the mark names one. -/
  key : Option String
  /-- The flags. -/
  flags : List Char
  /-- The least width. -/
  width : Size
  /-- The precision. -/
  precision : Size
  /-- The way in which the value is shown. -/
  conversion : Conversion
  deriving DecidableEq, Repr, Inhabited

/-! ### Reading marks -/

/-- The name up to the bracket that closes it, and what follows; brackets in the name
come in pairs. -/
def keyName? : Nat → List Char → Option (List Char × List Char)
  | _, [] => none
  | depth, c :: cs =>
      if c = ')' then
        match depth with
        | 0 => some ([], cs)
        | outer + 1 => (keyName? outer cs).map fun r => (c :: r.1, r.2)
      else if c = '(' then (keyName? (depth + 1) cs).map fun r => (c :: r.1, r.2)
      else (keyName? depth cs).map fun r => (c :: r.1, r.2)

/-- The name at the start of a mark, if there is one, and what follows. -/
def key? : List Char → Option (Option String × List Char)
  | '(' :: cs => (keyName? 0 cs).map fun r => (some (String.ofList r.1), r.2)
  | cs => some (none, cs)

/-- Whether a character is a flag. -/
def isFlag (c : Char) : Bool := ['-', '+', ' ', '#', '0'].contains c

/-- A size at the start, and what follows. -/
def sizeAt : List Char → Size × List Char
  | '*' :: cs => (.taken, cs)
  | cs =>
      if (Json.digits cs).1.isEmpty then (.absent, cs)
      else (.given (Json.ofDigits (Json.digits cs).1), (Json.digits cs).2)

/-- A precision at the start, and what follows; a point alone means nought. -/
def precisionAt : List Char → Size × List Char
  | '.' :: cs =>
      match sizeAt cs with
      | (.absent, rest) => (.given 0, rest)
      | found => found
  | cs => (.absent, cs)

/-- What follows a letter that says nothing. -/
def afterLength : List Char → List Char
  | [] => []
  | c :: cs => if c = 'h' ∨ c = 'l' ∨ c = 'L' then cs else c :: cs

/-- The mark that follows a percent sign, and what follows it. -/
def Directive.read? (cs : List Char) : Option (Directive × List Char) :=
  match key? cs with
  | none => none
  | some (key, afterKey) =>
      let (width, afterWidth) := sizeAt (afterKey.dropWhile isFlag)
      let (precision, afterPrecision) := precisionAt afterWidth
      match afterLength afterPrecision with
      | [] => none
      | c :: rest =>
          (Conversion.ofChar? c).map fun conversion =>
            (⟨key, afterKey.takeWhile isFlag, width, precision, conversion⟩, rest)

/-! ### A mark takes up characters -/

theorem length_keyName? {depth : Nat} {cs : List Char} {r : List Char × List Char}
    (h : keyName? depth cs = some r) : r.2.length ≤ cs.length := by
  induction cs generalizing depth r with
  | nil => simp [keyName?] at h
  | cons c cs ih =>
    have step {d : Nat} (h : (keyName? d cs).map (fun r => (c :: r.1, r.2)) = some r) :
        r.2.length ≤ (c :: cs).length := by
      obtain ⟨s, hs, rfl⟩ := Option.map_eq_some_iff.1 h
      have shorter := ih hs
      exact Nat.le_succ_of_le shorter
    unfold keyName? at h
    split at h
    · split at h
      · obtain rfl : ([], cs) = r := by simpa using h
        simp
      · exact step h
    · split at h
      · exact step h
      · exact step h

theorem length_key? {cs : List Char} {r : Option String × List Char} (h : key? cs = some r) :
    r.2.length ≤ cs.length := by
  unfold key? at h
  split at h
  · rename_i cs
    obtain ⟨s, hs, rfl⟩ := Option.map_eq_some_iff.1 h
    exact Nat.le_succ_of_le (length_keyName? hs)
  · obtain rfl : (none, cs) = r := by simpa using h
    simp

theorem length_sizeAt (cs : List Char) : (sizeAt cs).2.length ≤ cs.length := by
  unfold sizeAt
  split
  · simp
  · split
    · simp
    · exact (List.dropWhile_sublist Char.isDigit).length_le

theorem length_precisionAt (cs : List Char) : (precisionAt cs).2.length ≤ cs.length := by
  unfold precisionAt
  split
  · rename_i cs
    have := length_sizeAt cs
    split
    · rename_i rest found
      rw [found] at this
      simp only [List.length_cons] at this ⊢
      omega
    · simp only [List.length_cons]
      omega
  · simp

theorem length_afterLength (cs : List Char) : (afterLength cs).length ≤ cs.length := by
  unfold afterLength
  split
  · simp
  · split <;> simp

/-- What follows a mark is shorter than what it was read from. -/
theorem Directive.length_read? {cs : List Char} {r : Directive × List Char}
    (h : Directive.read? cs = some r) : r.2.length < cs.length := by
  unfold Directive.read? at h
  split at h
  · simp at h
  · rename_i key afterKey found
    have h₁ := length_key? found
    have h₂ := (List.dropWhile_sublist isFlag (l := afterKey)).length_le
    have h₃ := length_sizeAt (afterKey.dropWhile isFlag)
    have h₄ := length_precisionAt (sizeAt (afterKey.dropWhile isFlag)).2
    have h₅ := length_afterLength (precisionAt (sizeAt (afterKey.dropWhile isFlag)).2).2
    dsimp only at h h₁
    split at h
    · simp at h
    · rename_i c rest last
      obtain ⟨conversion, _, rfl⟩ := Option.map_eq_some_iff.1 h
      rw [last] at h₅
      simp only [List.length_cons] at h₅ ⊢
      omega

/-! ### Wordings -/

/-- A part of a wording. -/
inductive Part where
  /-- A character that stands for itself. -/
  | character (c : Char) : Part
  /-- A mark. -/
  | mark (d : Directive) : Part
  deriving DecidableEq, Repr, Inhabited

/-- The parts of a wording, if each percent sign starts a mark.  Two percent signs
stand for one. -/
def parts? (cs : List Char) : Option (List Part) :=
  match cs with
  | [] => some []
  | '%' :: '%' :: rest => (parts? rest).map (.character '%' :: ·)
  | c :: rest =>
      if c = '%' then
        match h : Directive.read? rest with
        | none => none
        | some (d, after) =>
            have := Directive.length_read? h
            (parts? after).map (.mark d :: ·)
      else (parts? rest).map (.character c :: ·)
termination_by cs.length
decreasing_by
  all_goals simp_all only [List.length_cons]
  all_goals omega

end Log
end BindLint
