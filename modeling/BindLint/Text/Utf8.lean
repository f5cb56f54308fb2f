/-!
# UTF-8 text and its bytes

Sources are edited by byte offsets while everything reported is text, so the
two views meet here: `encode` gives the bytes of a text and `decode` reads bytes
back, naming the first place at which they stop being UTF-8.

## Main definitions

* `Utf8.encode`, `Utf8.decode` — text to bytes and back.
* `Utf8.Fault` — the first sequence of bytes that is not UTF-8, and why.

## Main results

* `Utf8.decode_eq_ok_iff` — decoding accepts exactly the encodings, and gives
  back the text that was encoded.
-/

namespace BindLint
namespace Utf8

/-- The UTF-8 bytes of a text. -/
def encode (text : String) : List UInt8 :=
  text.toList.flatMap String.utf8EncodeChar

/-! ### Faults -/

/-- Why a sequence of bytes is not UTF-8. -/
inductive Reason where
  /-- No character starts with this byte. -/
  | startByte : Reason
  /-- A byte that should continue a character does not. -/
  | continuation : Reason
  /-- The bytes end inside a character. -/
  | endOfData : Reason
  deriving DecidableEq, Repr, Inhabited

/-- How a reason is worded. -/
def Reason.message : Reason → String
  | .startByte => "invalid start byte"
  | .continuation => "invalid continuation byte"
  | .endOfData => "unexpected end of data"

/-- A sequence of bytes that is not UTF-8. -/
structure Fault where
  /-- The first byte of the sequence. -/
  byte : UInt8
  /-- Where the sequence starts. -/
  offset : Nat
  /-- How many bytes were read as the start of one character. -/
  width : Nat
  /-- What is wrong with it. -/
  reason : Reason
  deriving DecidableEq, Repr, Inhabited

/-- A byte as two lower-case hexadecimal digits. -/
def hexByte (byte : UInt8) : String :=
  String.ofList [Nat.digitChar (byte.toNat / 16), Nat.digitChar (byte.toNat % 16)]

/-- A fault in words: one byte is named by its value, several by their range. -/
def Fault.message (fault : Fault) : String :=
  let place :=
    if fault.width ≤ 1 then
      "byte 0x" ++ hexByte fault.byte ++ " in position " ++ toString fault.offset
    else
      "bytes in position " ++ toString fault.offset ++ "-" ++
        toString (fault.offset + fault.width - 1)
  "'utf-8' codec can't decode " ++ place ++ ": " ++ fault.reason.message

/-! ### Locating a fault -/

/-- What a lead byte asks for: how many continuation bytes, and the range of the
first of them. -/
structure Lead where
  /-- The number of continuation bytes. -/
  owed : Nat
  /-- The least first continuation byte. -/
  low : UInt8
  /-- The greatest first continuation byte. -/
  high : UInt8

/-- What a byte asks for as the first of a character; `none` if none starts with it. -/
def lead? (byte : UInt8) : Option Lead :=
  if byte < 0x80 then some ⟨0, 0x80, 0xBF⟩
  else if byte < 0xC2 then none
  else if byte < 0xE0 then some ⟨1, 0x80, 0xBF⟩
  else if byte = 0xE0 then some ⟨2, 0xA0, 0xBF⟩
  else if byte = 0xED then some ⟨2, 0x80, 0x9F⟩
  else if byte < 0xF0 then some ⟨2, 0x80, 0xBF⟩
  else if byte = 0xF0 then some ⟨3, 0x90, 0xBF⟩
  else if byte < 0xF4 then some ⟨3, 0x80, 0xBF⟩
  else if byte = 0xF4 then some ⟨3, 0x80, 0x8F⟩
  else none

/-- A character of which some bytes are still to come. -/
structure Pending where
  /-- Its lead byte. -/
  byte : UInt8
  /-- Where it starts. -/
  offset : Nat
  /-- How many of its bytes were read. -/
  seen : Nat
  /-- What the bytes still to come must be. -/
  next : Lead

/-- The first fault of bytes that start at an offset, inside a pending character or
between two. -/
def locate (offset : Nat) : Option Pending → List UInt8 → Option Fault
  | none, [] => none
  | some p, [] => some ⟨p.byte, p.offset, p.seen, .endOfData⟩
  | none, b :: rest =>
      match lead? b with
      | none => some ⟨b, offset, 1, .startByte⟩
      | some l =>
          locate (offset + 1) (if l.owed = 0 then none else some ⟨b, offset, 1, l⟩) rest
  | some p, b :: rest =>
      if p.next.low ≤ b ∧ b ≤ p.next.high then
        -- only the first continuation byte has a range of its own
        locate (offset + 1)
          (if p.next.owed ≤ 1 then none
            else some { p with seen := p.seen + 1, next := ⟨p.next.owed - 1, 0x80, 0xBF⟩ })
          rest
      else some ⟨p.byte, p.offset, p.seen, .continuation⟩

/-! ### Decoding -/

/-- The text that bytes encode, or their first fault. -/
def decode (bytes : List UInt8) : Except Fault String :=
  match String.fromUTF8? bytes.toByteArray with
  | some text => .ok text
  | none => .error ((locate 0 none bytes).getD default)

theorem toByteArray_encode (text : String) : (encode text).toByteArray = text.toByteArray := by
  rw [← String.utf8Encode_toList]
  rfl

theorem fromUTF8?_eq_some_iff {bytes : ByteArray} {text : String} :
    String.fromUTF8? bytes = some text ↔ bytes = text.toByteArray := by
  unfold String.fromUTF8?
  split
  · constructor
    · intro h
      cases h
      rfl
    · rintro rfl
      rfl
  · next h =>
    constructor
    · intro h'
      cases h'
    · rintro rfl
      exact absurd text.isValidUTF8 h

theorem toByteArray_inj {a b : List UInt8} : a.toByteArray = b.toByteArray ↔ a = b := by
  constructor
  · intro h
    have := congrArg (fun x => x.data.toList) h
    simpa using this
  · rintro rfl
    rfl

/-- Decoding accepts exactly the encodings. -/
theorem decode_eq_ok_iff {bytes : List UInt8} {text : String} :
    decode bytes = .ok text ↔ bytes = encode text := by
  unfold decode
  rw [← toByteArray_inj, toByteArray_encode, ← fromUTF8?_eq_some_iff]
  cases String.fromUTF8? bytes.toByteArray <;> simp

/-- Decoding undoes encoding. -/
@[simp] theorem decode_encode (text : String) : decode (encode text) = .ok text :=
  decode_eq_ok_iff.2 rfl

theorem encode_append (a b : String) : encode (a ++ b) = encode a ++ encode b := by
  simp [encode]

theorem encode_injective {a b : String} (h : encode a = encode b) : a = b := by
  have := decode_encode a
  rw [h, decode_encode] at this
  exact (Except.ok.inj this).symm

end Utf8
end BindLint
