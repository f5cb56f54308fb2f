import BindLint.Syntax.Node
import BindLint.Text.Utf8

/-!
# Sources

A source is the text a tree was parsed from, held as bytes because spans are
byte ranges.  A span may cut a character in two; reading such a span fails with
the fault of the bytes that were cut.

## Main definitions

* `Source.read` — the text under a span.
* `Source.point` — row and byte column of an offset.

## Main results

* `Source.point_succ` — one byte further on is one column further on, or the start of the next row.
-/

namespace BindLint

/-- A place in a text: the row, and the byte column in that row, both from zero. -/
structure Point where
  /-- The row. -/
  row : Nat
  /-- The byte column. -/
  column : Nat
  deriving DecidableEq, Repr, Inhabited

/-- The byte that ends a row. -/
def lineFeed : UInt8 := 0x0A

/-- The place after one more byte. -/
def Point.advance (p : Point) (byte : UInt8) : Point :=
  if byte = lineFeed then ⟨p.row + 1, 0⟩ else ⟨p.row, p.column + 1⟩

/-- The text a tree was parsed from, as bytes. -/
structure Source where
  /-- The bytes of the text. -/
  bytes : List UInt8
  deriving DecidableEq, Repr, Inhabited

namespace Source

/-- The source that holds a text. -/
def ofText (text : String) : Source := ⟨Utf8.encode text⟩

/-- The bytes under a span; what lies beyond the end of the source is left out. -/
def slice (src : Source) (span : Span) : List UInt8 :=
  (src.bytes.drop span.start).take (span.stop - span.start)

/-- The text under a span. -/
def read (src : Source) (span : Span) : Except Utf8.Fault String :=
  Utf8.decode (src.slice span)

/-- Row and column of an offset.  An offset beyond the end lies on the last row. -/
def point (src : Source) (offset : Nat) : Point :=
  let p := (src.bytes.take offset).foldl Point.advance ⟨0, 0⟩
  { p with column := p.column + (offset - src.bytes.length) }

@[simp] theorem point_zero (src : Source) : src.point 0 = ⟨0, 0⟩ := by
  simp [point]

/-- One byte further on is one column further on, or the start of the next row if the byte is a
line feed. -/
theorem point_succ (src : Source) (offset : Nat) :
    src.point (offset + 1) =
      if src.bytes[offset]? = some lineFeed then ⟨(src.point offset).row + 1, 0⟩
      else ⟨(src.point offset).row, (src.point offset).column + 1⟩ := by
  rcases Nat.lt_or_ge offset src.bytes.length with hin | hout
  · have htake : src.bytes.take (offset + 1) = src.bytes.take offset ++ [src.bytes[offset]] :=
      List.take_succ_eq_append_getElem hin
    have hexcess : offset + 1 - src.bytes.length = 0 ∧ offset - src.bytes.length = 0 := by omega
    simp only [point, htake, List.foldl_append, List.foldl_cons, List.foldl_nil, Point.advance,
      List.getElem?_eq_getElem hin, Option.some.injEq, hexcess, Nat.add_zero]
  · have hnone : src.bytes[offset]? = none := List.getElem?_eq_none hout
    have hexcess : offset + 1 - src.bytes.length = offset - src.bytes.length + 1 := by omega
    rw [if_neg (by simp [hnone])]
    simp only [point, List.take_of_length_le hout, List.take_of_length_le (Nat.le_succ_of_le hout),
      hexcess, Nat.add_assoc]

end Source

/-- The text of a node, word for word. -/
def Node.text (n : Node) (src : Source) : Except Utf8.Fault String := src.read n.span

end BindLint
