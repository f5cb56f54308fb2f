import BindLint.Text.Printable

/-!
# Quoted names

Messages quote names in single quotes, or in double quotes if the name holds a
single quote and no double one.  Characters that cannot be seen are written by
number.

## Main definitions

* `Text.quoted`, `Text.quotedPoints` — a name in quotes.
* `Text.ascii` — a text whose characters beyond ASCII are written by number.
-/

namespace BindLint
namespace Text

/-- The last `width` hexadecimal digits of a number. -/
def hexDigits : Nat → Nat → List Char
  | 0, _ => []
  | width + 1, n => hexDigits width (n / 16) ++ [Nat.digitChar (n % 16)]

/-- A code point written by number. -/
def numberedPoint (n : Nat) : List Char :=
  if n < 0x100 then '\\' :: 'x' :: hexDigits 2 n
  else if n < 0x10000 then '\\' :: 'u' :: hexDigits 4 n
  else '\\' :: 'U' :: hexDigits 8 n

/-- A character written by number. -/
def numbered (c : Char) : List Char := numberedPoint c.toNat

/-- The quote that stands around a name. -/
def quoteFor (s : String) : Char :=
  if s.toList.contains '\'' && !s.toList.contains '"' then '"' else '\''

/-- A character between quotes. -/
def quotedChar (quote : Char) (c : Char) : List Char :=
  if c = quote ∨ c = '\\' then ['\\', c]
  else if c = '\n' then ['\\', 'n']
  else if c = '\r' then ['\\', 'r']
  else if c = '\t' then ['\\', 't']
  else if isPrintable c then [c]
  else numbered c

/-- A name in quotes. -/
def quoted (s : String) : String :=
  let quote := quoteFor s
  String.ofList (quote :: s.toList.flatMap (quotedChar quote) ++ [quote])

/-- Code points in quotes; half of a surrogate pair is written by number. -/
def quotedPoints (points : List Nat) : String :=
  let quote := if points.contains 0x27 && !points.contains 0x22 then '"' else '\''
  String.ofList (quote :: points.flatMap (fun n =>
    if n.isValidChar then quotedChar quote (Char.ofNat n) else numberedPoint n) ++ [quote])

/-- A text whose characters beyond ASCII are written by number. -/
def ascii (s : String) : String :=
  String.ofList (s.toList.flatMap fun c => if c.toNat < 0x80 then [c] else numbered c)

end Text
end BindLint
