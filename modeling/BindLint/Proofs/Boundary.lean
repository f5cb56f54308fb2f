import BindLint.Syntax.Source

/-!
# Cutting a text between its characters

Spans and suggestions are byte ranges of a text, and a text is a list of
characters of one to four bytes each.  An offset is a *boundary* when it does not
fall inside a character: the bytes before it are then the encoding of a text, and
so are the bytes after it.  Between two boundaries there is again a text, so that
reading a span with boundaries for ends never fails.

## Main definitions

* `Utf8.IsBoundary` — an offset that stands between two characters.

## Main results

* `Utf8.IsBoundary.exists_cut` — a boundary cuts the bytes into two encodings.
* `Utf8.exists_encode_between` — the bytes between two boundaries are an encoding.
* `Source.exists_read` — a span between two boundaries can be read.
-/

namespace BindLint
namespace Utf8

/-- An offset stands between two characters of a text. -/
def IsBoundary (text : String) (offset : Nat) : Prop :=
  ∃ before after : String, before ++ after = text ∧ (encode before).length = offset

@[simp] theorem encode_empty : encode "" = [] := rfl

theorem isBoundary_iff {text : String} {offset : Nat} :
    IsBoundary text offset ↔
      ∃ k ∈ List.range (text.toList.length + 1),
        ((text.toList.take k).flatMap String.utf8EncodeChar).length = offset := by
  constructor
  · rintro ⟨before, after, rfl, rfl⟩
    refine ⟨before.toList.length, ?_, ?_⟩
    · rw [List.mem_range, String.toList_append, List.length_append]
      omega
    · rw [String.toList_append, List.take_left, encode]
  · rintro ⟨k, -, h⟩
    refine ⟨String.ofList (text.toList.take k), String.ofList (text.toList.drop k), ?_, ?_⟩
    · rw [← String.ofList_append, List.take_append_drop, String.ofList_toList]
    · rw [encode, String.toList_ofList, h]

/-- Whether an offset is a boundary is seen from the starts of the text. -/
instance (text : String) (offset : Nat) : Decidable (IsBoundary text offset) :=
  decidable_of_iff _ isBoundary_iff.symm

theorem isBoundary_zero (text : String) : IsBoundary text 0 :=
  ⟨"", text, String.empty_append, rfl⟩

/-- A boundary cuts the bytes of a text into two encodings. -/
theorem IsBoundary.exists_cut {text : String} {offset : Nat} (h : IsBoundary text offset) :
    ∃ before after : String, (encode text).take offset = encode before ∧
      (encode text).drop offset = encode after := by
  obtain ⟨before, after, rfl, rfl⟩ := h
  refine ⟨before, after, ?_, ?_⟩
  · rw [encode_append, List.take_left]
  · rw [encode_append, List.drop_left]

/-- The encoding of a text that another text starts with is a start of its encoding. -/
theorem exists_encode_append {x y : String} (h : x.toList <+: y.toList) :
    ∃ rest : String, encode y = encode x ++ encode rest := by
  obtain ⟨cs, hcs⟩ := h
  have hy : y = x ++ String.ofList cs := by
    apply String.toList_injective
    rw [String.toList_append, String.toList_ofList, hcs]
  exact ⟨String.ofList cs, by rw [hy, encode_append]⟩

/-- The bytes between two boundaries of a text are an encoding. -/
theorem exists_encode_between {text : String} {a b : Nat} (ha : IsBoundary text a)
    (hb : IsBoundary text b) :
    ∃ middle : String, ((encode text).drop a).take (b - a) = encode middle := by
  obtain ⟨x, y, hxy, rfl⟩ := ha
  obtain ⟨x', y', hxy', rfl⟩ := hb
  -- both texts start the whole text, so one of them starts the other
  have hx : x.toList <+: text.toList := ⟨y.toList, by rw [← String.toList_append, hxy]⟩
  have hx' : x'.toList <+: text.toList := ⟨y'.toList, by rw [← String.toList_append, hxy']⟩
  rcases List.prefix_or_prefix_of_prefix hx hx' with h | h
  · obtain ⟨middle, hm⟩ := exists_encode_append h
    refine ⟨middle, ?_⟩
    rw [← hxy', encode_append, hm, List.append_assoc, List.drop_left, List.length_append,
      Nat.add_sub_cancel_left, List.take_left]
  · obtain ⟨rest, hrest⟩ := exists_encode_append h
    have hle : (encode x').length ≤ (encode x).length := by
      rw [hrest, List.length_append]
      omega
    exact ⟨"", by rw [Nat.sub_eq_zero_of_le hle, List.take_zero, encode_empty]⟩

end Utf8

/-- A span between two boundaries of a text can be read. -/
theorem Source.exists_read {text : String} {span : Span} (hstart : Utf8.IsBoundary text span.start)
    (hstop : Utf8.IsBoundary text span.stop) :
    ∃ t, (Source.ofText text).read span = .ok t := by
  obtain ⟨t, ht⟩ := Utf8.exists_encode_between hstart hstop
  exact ⟨t, Utf8.decode_eq_ok_iff.2 ht⟩

end BindLint
