/-!
# Plain text

Text for a reader that is no terminal goes out without control sequences.  A
control sequence is an escape character, an opening bracket, any number of
digits, semicolons and question marks, and a letter.  Sequences are taken out from
left to right, and what is left is not looked at again: characters that come to
stand together when a sequence between them goes do not make a new one.

## Main definitions

* `Text.afterControl?` — what follows a control sequence.
* `Text.plain` — a text without control sequences.
-/

namespace BindLint
namespace Text

/-- Whether a character may stand between the bracket and the letter. -/
def isParameter (c : Char) : Bool := c.isDigit || c = ';' || c = '?'

/-- What follows the control sequence that some characters start with, if they start
with one. -/
def afterControl? : List Char → Option (List Char)
  | '\x1b' :: '[' :: cs =>
      match cs.dropWhile isParameter with
      | [] => none
      | c :: rest => if c.isAlpha then some rest else none
  | _ => none

/-- A control sequence takes up characters. -/
theorem length_lt_of_afterControl? {cs rest : List Char} (h : afterControl? cs = some rest) :
    rest.length < cs.length := by
  unfold afterControl? at h
  split at h
  · rename_i cs
    have shorter := (List.dropWhile_sublist isParameter (l := cs)).length_le
    split at h
    · simp at h
    · rename_i c rest' found
      rw [found] at shorter
      split at h
      · obtain rfl : rest' = rest := by simpa using h
        simp only [List.length_cons] at shorter ⊢
        omega
      · simp at h
  · simp at h

/-- Characters without control sequences. -/
def plainChars (cs : List Char) : List Char :=
  match cs with
  | [] => []
  | c :: rest =>
      match h : afterControl? (c :: rest) with
      | some after =>
          have := length_lt_of_afterControl? h
          plainChars after
      | none => c :: plainChars rest
termination_by cs.length
decreasing_by
  · exact this
  · simp

/-- A text without control sequences. -/
def plain (s : String) : String := String.ofList (plainChars s.toList)

/-- A text that holds no escape character stays as it is. -/
theorem plainChars_eq_self {cs : List Char} (h : '\x1b' ∉ cs) : plainChars cs = cs := by
  induction cs with
  | nil => simp [plainChars]
  | cons c rest ih =>
    have hc : c ≠ '\x1b' := fun e => h (by simp [e])
    have none' : afterControl? (c :: rest) = none := by
      unfold afterControl?
      split
      · rename_i heq
        exact absurd (List.cons.inj heq).1 hc
      · rfl
    rw [plainChars]
    split
    · rename_i after found
      rw [none'] at found
      simp at found
    · rw [ih fun m => h (by simp [m])]

end Text
end BindLint
