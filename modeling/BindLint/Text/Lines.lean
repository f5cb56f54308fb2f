/-!
# Lines

A text is cut after every line break.  Besides the line feed and the carriage
return, alone or together, the vertical tab, the form feed, the three separators
of information, the next-line control and the two Unicode separators break lines.
Every line keeps its break, so the lines of a text put together are the text.

Where only what stands on the lines counts, a text is cut at the breaks instead, and
whoever cuts says which characters break.

## Main definitions

* `Text.lines` — the lines of a text.
* `Text.partsAt` — what stands between the breaks of a text.

## Main results

* `Text.join_lines` — the lines of a text put together are the text.
* `Text.flatten_partsAt` — the parts of a text are the text without its breaks.
-/

namespace BindLint
namespace Text

/-- Whether a character ends a line. -/
def isLineBreak (c : Char) : Bool :=
  c = '\n' || c = '\r' || c = '\x0b' || c = '\x0c' || c = '\x1c' || c = '\x1d' || c = '\x1e' ||
    c = '\u0085' || c = '\u2028' || c = '\u2029'

/-- Puts a character in front of the first of some lines. -/
def pushFront (c : Char) : List (List Char) → List (List Char)
  | [] => [[c]]
  | l :: ls => (c :: l) :: ls

/-- Cuts characters after every line break. -/
def cutLines : List Char → List (List Char)
  | [] => []
  | '\r' :: '\n' :: rest => ['\r', '\n'] :: cutLines rest
  | c :: rest => if isLineBreak c then [c] :: cutLines rest else pushFront c (cutLines rest)

/-- The lines of a text, each with its break. -/
def lines (s : String) : List String := (cutLines s.toList).map String.ofList

/-- Whether a character is the line feed, the one break that log streams know. -/
def isFeed (c : Char) : Bool := c = '\n'

/-- What stands between the characters that break a text; empty parts are left out,
those of blanks are not. -/
def partsAt (isBreak : Char → Bool) (s : String) : List String :=
  ((s.toList.splitOnP isBreak).filter fun l => !l.isEmpty).map String.ofList

@[simp] theorem flatten_pushFront (c : Char) (ls : List (List Char)) :
    (pushFront c ls).flatten = c :: ls.flatten := by
  cases ls <;> rfl

@[simp] theorem flatten_cutLines (cs : List Char) : (cutLines cs).flatten = cs := by
  fun_induction cutLines cs with
  | case1 => rfl
  | case2 rest ih => simp [ih]
  | case3 c rest _ hc ih => simp [ih]
  | case4 c rest _ hc ih => simp [ih]

/-- The lines of a text put together are the text. -/
theorem join_lines (s : String) : String.join (lines s) = s := by
  have h : ∀ (ls : List (List Char)) (acc : String),
      (ls.map String.ofList).foldl (· ++ ·) acc = acc ++ String.ofList ls.flatten := by
    intro ls
    induction ls with
    | nil => simp
    | cons l ls ih =>
      intro acc
      rw [List.map_cons, List.foldl_cons, ih, List.flatten_cons, String.ofList_append,
        String.append_assoc]
  rw [String.join, lines, h, flatten_cutLines]
  simp

theorem flatten_splitOnP (p : Char → Bool) (cs : List Char) :
    (cs.splitOnP p).flatten = cs.filter fun c => !p c := by
  induction cs with
  | nil => simp
  | cons c cs ih =>
    rw [List.splitOnP_cons_eq_if_modifyHead]
    split
    · next h => simp [h, ih]
    · next h =>
      -- the first part takes the character up
      have hne : cs.splitOnP p ≠ [] := List.splitOnP_ne_nil p cs
      cases hs : cs.splitOnP p with
      | nil => exact absurd hs hne
      | cons l ls => rw [hs] at ih; simp_all

/-- The parts of a text are the text without its breaks: nothing else is lost. -/
theorem flatten_partsAt (isBreak : Char → Bool) (s : String) :
    ((partsAt isBreak s).map String.toList).flatten = s.toList.filter fun c => !isBreak c := by
  have h : ∀ ls : List (List Char), (ls.filter fun l => !l.isEmpty).flatten = ls.flatten := by
    intro ls
    induction ls with
    | nil => rfl
    | cons l ls ih => cases l <;> simp [ih]
  have hid : (String.toList ∘ String.ofList) = id := by
    funext cs; exact String.toList_ofList
  rw [partsAt, List.map_map, hid, List.map_id, h, flatten_splitOnP]

end Text
end BindLint
