import BindLint.Finding

/-!
# Applying suggestions

Suggestions are applied to a text in one sweep from left to right.  A cursor
marks the end of the last range that was replaced; a suggestion that starts
before it overlaps what was replaced and is skipped.  Ranges may reach beyond the
text or run backwards: an offset below nought counts from the end, and one beyond
an end is moved to it.

## Main definitions

* `Splice.slice` — the bytes between two such offsets.
* `Splice.sweep` — the sweep over suggestions in order.
* `applySuggestions` — all first suggestions of some findings applied to a text.

## Main results

* `Splice.slice_natCast` — between offsets in the text, `slice` is the list slice.
* `Splice.applied_add_skipped` — every suggestion is either applied or skipped.
-/

namespace BindLint
namespace Splice

/-! ### Offsets -/

/-- The offset in a text of some length that a number stands for. -/
def clip (length : Nat) (i : Int) : Nat :=
  if i < 0 then (i + length).toNat else min i.toNat length

/-- The bytes between two offsets, none if they run backwards. -/
def slice (bytes : List UInt8) (start stop : Int) : List UInt8 :=
  (bytes.drop (clip bytes.length start)).take
    (clip bytes.length stop - clip bytes.length start)

/-- The bytes from an offset on. -/
def sliceFrom (bytes : List UInt8) (start : Int) : List UInt8 :=
  bytes.drop (clip bytes.length start)

@[simp] theorem clip_natCast (length i : Nat) : clip length (i : Int) = min i length := by
  have h : ¬((i : Int) < 0) := by omega
  rw [clip, if_neg h, Int.toNat_natCast]

/-- Between offsets that are not below nought, the bytes are those of the list slice. -/
theorem slice_natCast (bytes : List UInt8) (start stop : Nat) :
    slice bytes start stop = (bytes.drop start).take (stop - start) := by
  rw [slice, clip_natCast, clip_natCast]
  by_cases h : start ≤ bytes.length
  · rw [Nat.min_eq_left h]
    rcases Nat.le_total stop bytes.length with hs | hs
    · rw [Nat.min_eq_left hs]
    · rw [Nat.min_eq_right hs, List.take_of_length_le (by simp),
        List.take_of_length_le (by simp; omega)]
  · have hle : bytes.length ≤ start := by omega
    rw [Nat.min_eq_right hle, List.drop_length, List.drop_eq_nil_of_le hle]
    simp

/-- From an offset that is not below nought, the bytes are those of the list. -/
theorem sliceFrom_natCast (bytes : List UInt8) (start : Nat) :
    sliceFrom bytes start = bytes.drop start := by
  rw [sliceFrom, clip_natCast]
  by_cases h : start ≤ bytes.length
  · rw [Nat.min_eq_left h]
  · have hle : bytes.length ≤ start := by omega
    rw [Nat.min_eq_right hle, List.drop_length, List.drop_eq_nil_of_le hle]

/-! ### The sweep -/

/-- What a sweep over suggestions gives. -/
structure Swept where
  /-- The new bytes. -/
  bytes : List UInt8
  /-- How many suggestions were applied. -/
  applied : Nat
  /-- How many were skipped. -/
  skipped : Nat
  deriving DecidableEq, Repr, Inhabited

/-- The sweep over suggestions in order, from a cursor on. -/
def sweep (bytes : List UInt8) : Int → List Suggestion → Swept
  | cursor, [] => ⟨sliceFrom bytes cursor, 0, 0⟩
  | cursor, s :: ss =>
      if s.start < cursor then
        -- it starts inside what was already replaced
        let rest := sweep bytes cursor ss
        { rest with skipped := rest.skipped + 1 }
      else
        let rest := sweep bytes s.stop ss
        { rest with
          bytes := slice bytes cursor s.start ++ Utf8.encode s.text ++ rest.bytes
          applied := rest.applied + 1 }

/-- Every suggestion is either applied or skipped. -/
theorem applied_add_skipped (bytes : List UInt8) (cursor : Int) (ss : List Suggestion) :
    (sweep bytes cursor ss).applied + (sweep bytes cursor ss).skipped = ss.length := by
  induction ss generalizing cursor with
  | nil => rfl
  | cons s ss ih =>
    rw [sweep]
    split
    · have := ih cursor
      simp only [List.length_cons]
      omega
    · have := ih s.stop
      simp only [List.length_cons]
      omega

/-- Whether a suggestion stands before another: by start, then by end. -/
def before (a b : Suggestion) : Bool :=
  decide (a.start < b.start ∨ a.start = b.start ∧ a.stop ≤ b.stop)

/-- The suggestions that count: the first one of each finding. -/
def offered (fs : List Finding) : List Suggestion := fs.filterMap fun f => f.suggestions.head?

end Splice

/-- What applying suggestions gives. -/
structure Applied where
  /-- The new text. -/
  text : String
  /-- How many suggestions were applied. -/
  applied : Nat
  /-- How many were skipped. -/
  skipped : Nat
  deriving DecidableEq, Repr, Inhabited

/-- The first suggestions of some findings applied to a text.  Suggestions for the
same range keep their order. -/
def applySuggestions (text : String) (fs : List Finding) : Except Utf8.Fault Applied :=
  let swept := Splice.sweep (Utf8.encode text) 0 ((Splice.offered fs).mergeSort Splice.before)
  (Utf8.decode swept.bytes).map fun new => ⟨new, swept.applied, swept.skipped⟩

end BindLint
