import BindLint.Text.Blank

/-!
# Files of variables

A file of variables binds names to values, one binding a line.  A name may stand in
single quotes and have the word `export` before it.  A value goes to the end of its
line or to a comment, or stands in quotes and may then go over several lines.  A name
without a value is bound to nothing.  A line that is no binding is left out, and
reading goes on at the next line.  Reading a part of a line gives the part and what
follows it, or else the place where it stopped.

A value may refer to variables by name; those bound earlier in the file come before
those of the environment.

## Main definitions

* `VariableFile.Binding` — a name with the value that it is bound to.
* `VariableFile.readBindings` — the bindings of a text.
* `VariableFile.Atom`, `VariableFile.atoms` — the characters and references of a value.
* `VariableFile.bindAll` — what bindings bind in the end.
-/

namespace BindLint

/-- The variables of an environment: names with values. -/
abbrev Variables := List (String × String)

namespace VariableFile

/-- A name with the value that it is bound to, if it has one. -/
structure Binding where
  /-- The name. -/
  name : String
  /-- The value. -/
  value : Option String
  deriving DecidableEq, Repr, Inhabited

/-! ### Names -/

/-- Whether a character is a blank within a line. -/
def isInlineBlank (c : Char) : Bool := Text.isSpacing c && c ≠ '\n'

/-- What follows a number of blanks within a line. -/
def skipInline (cs : List Char) : List Char := cs.dropWhile isInlineBlank

/-- The word that may stand before a name. -/
def exportWord : List Char := "export".toList

/-- What follows the word before a name, which a blank must set apart. -/
def afterExport (cs : List Char) : List Char :=
  let rest := cs.drop exportWord.length
  if exportWord.isPrefixOf cs && rest.head?.any isInlineBlank then skipInline rest else cs

/-- Whether a character may stand in a name without quotes. -/
def isNameChar (c : Char) : Bool := !(c = '=' || c = '#' || Text.isSpacing c)

/-- The name at the start; a comment has none. -/
def readName (cs : List Char) : Except (List Char) (Option String × List Char) :=
  match cs with
  | '#' :: _ => .ok (none, cs)
  | '\x27' :: rest =>
      let name := rest.takeWhile (· ≠ '\x27')
      match rest.drop name.length with
      | _ :: after => if name.isEmpty then .error cs else .ok (some (String.ofList name), after)
      | [] => .error cs
  | _ =>
      let name := cs.takeWhile isNameChar
      if name.isEmpty then .error cs
      else .ok (some (String.ofList name), cs.drop name.length)

/-! ### Values -/

/-- A text up to the quote that closes it, and what follows.  A character behind a
backslash closes nothing. -/
def quotedText? (quote : Char) : List Char → Option (List Char × List Char)
  | [] => none
  | '\\' :: c :: cs => (quotedText? quote cs).map fun r => ('\\' :: c :: r.1, r.2)
  | c :: cs =>
      if c = quote then some ([], cs) else (quotedText? quote cs).map fun r => (c :: r.1, r.2)

/-- What a character behind a backslash stands for in single quotes. -/
def singleEscape? : Char → Option Char
  | '\\' => some '\\'
  | '\x27' => some '\x27'
  | _ => none

/-- What a character behind a backslash stands for in double quotes. -/
def doubleEscape? : Char → Option Char
  | '\\' => some '\\'
  | '\x27' => some '\x27'
  | '"' => some '"'
  | 'a' => some '\x07'
  | 'b' => some '\x08'
  | 'f' => some '\x0c'
  | 'n' => some '\n'
  | 'r' => some '\r'
  | 't' => some '\t'
  | 'v' => some '\x0b'
  | _ => none

/-- Characters whose escapes stand for others; a backslash that starts none stays. -/
def unescape (escape? : Char → Option Char) : List Char → List Char
  | [] => []
  | '\\' :: c :: cs =>
      match escape? c with
      | some d => d :: unescape escape? cs
      | none => '\\' :: unescape escape? (c :: cs)
  | c :: cs => c :: unescape escape? cs

/-- What stands before a blank and a number sign. -/
def uncommented : List Char → List Char
  | [] => []
  | c :: '#' :: rest => if Text.isSpacing c then [] else c :: uncommented ('#' :: rest)
  | c :: rest => c :: uncommented rest

/-- The value in quotes at the start. -/
def readQuoted (quote : Char) (escape? : Char → Option Char) (cs : List Char) :
    Except (List Char) (String × List Char) :=
  match quotedText? quote (cs.drop 1) with
  | some (text, rest) => .ok (String.ofList (unescape escape? text), rest)
  | none => .error cs

/-- The value behind an equals sign.  Blanks do not count, but a comment may follow
them. -/
def readValue (cs : List Char) : Except (List Char) (String × List Char) :=
  let start := skipInline cs
  match start with
  | '\x27' :: _ => readQuoted '\x27' singleEscape? start
  | '"' :: _ => readQuoted '"' doubleEscape? start
  | _ =>
      let line := cs.takeWhile (· ≠ '\n')
      .ok (String.ofList (Text.trim Text.isSpacing (uncommented line)), cs.drop line.length)

/-! ### Bindings -/

/-- What follows the end of a line, before which a comment may stand. -/
def afterEnd (cs : List Char) : Except (List Char) (List Char) :=
  let rest :=
    match skipInline cs with
    | '#' :: comment => comment.dropWhile (· ≠ '\n')
    | rest => rest
  match rest with
  | [] => .ok []
  | c :: next => if c = '\n' then .ok next else .error cs

/-- The binding at the start; a comment is none. -/
def readBinding (cs : List Char) : Except (List Char) (Option Binding × List Char) := do
  let (name, rest) ← readName (afterExport cs)
  let (value, rest) ←
    match skipInline rest with
    | '=' :: more => (readValue more).map fun r => (some r.1, r.2)
    | rest => .ok (none, rest)
  let next ← afterEnd rest
  .ok (name.map fun n => ⟨n, value⟩, next)

/-- The bindings of some characters.  Each binding, and each line left out, takes up a
character at least, so their number bounds the steps. -/
def bindingsFrom : Nat → List Char → List Binding
  | 0, _ => []
  | steps + 1, cs =>
      match cs.dropWhile Text.isSpacing with
      | [] => []
      | start =>
          match readBinding start with
          | .ok (some b, rest) => b :: bindingsFrom steps rest
          | .ok (none, rest) => bindingsFrom steps rest
          | .error stop => bindingsFrom steps ((stop.dropWhile (· ≠ '\n')).drop 1)

/-- Characters whose lines all end with a line feed alone. -/
def withLineFeeds : List Char → List Char
  | [] => []
  | '\r' :: '\n' :: cs => '\n' :: withLineFeeds cs
  | c :: cs => (if c = '\r' then '\n' else c) :: withLineFeeds cs

/-- Characters without the mark of the byte order at the start. -/
def withoutOrderMark : List Char → List Char
  | [] => []
  | c :: cs => if c.toNat = 0xFEFF then cs else c :: cs

/-- The bindings of a text. -/
def readBindings (text : String) : List Binding :=
  let cs := withLineFeeds (withoutOrderMark text.toList)
  bindingsFrom cs.length cs

/-! ### References -/

/-- A part of a value. -/
inductive Atom where
  /-- A character that stands for itself. -/
  | character (c : Char) : Atom
  /-- The value of a variable, or a text if there is no such variable. -/
  | reference (name fallback : String) : Atom
  deriving DecidableEq, Repr, Inhabited

/-- Whether a character goes on the name of a reference. -/
def isReferenceChar (c : Char) : Bool := !(c = '\x7d' || c = ':')

/-- The reference behind a dollar sign and a brace, and what follows it. -/
def reference? (cs : List Char) : Option (Atom × List Char) :=
  let name := String.ofList (cs.takeWhile isReferenceChar)
  match cs.dropWhile isReferenceChar with
  | '\x7d' :: rest => some (.reference name "", rest)
  | ':' :: '-' :: more =>
      match more.dropWhile (· ≠ '\x7d') with
      | _ :: rest => some (.reference name (String.ofList (more.takeWhile (· ≠ '\x7d'))), rest)
      | [] => none
  | _ => none

/-- A reference takes up characters. -/
theorem length_reference? {cs : List Char} {r : Atom × List Char}
    (h : reference? cs = some r) : r.2.length < cs.length := by
  have h₁ := (List.dropWhile_sublist isReferenceChar (l := cs)).length_le
  unfold reference? at h
  dsimp only at h
  split at h
  · rename_i rest found
    obtain rfl := Option.some.inj h
    rw [found] at h₁
    exact h₁
  · rename_i more found
    have h₂ := (List.dropWhile_sublist (fun c : Char => decide (c ≠ '\x7d')) (l := more)).length_le
    rw [found] at h₁
    split at h
    · rename_i c rest last
      obtain rfl := Option.some.inj h
      rw [last] at h₂
      simp only [List.length_cons] at h₁ h₂ ⊢
      omega
    · simp at h
  · simp at h

/-- The parts of a value. -/
def atoms (cs : List Char) : List Atom :=
  match cs with
  | [] => []
  | '$' :: '\x7b' :: rest =>
      match h : reference? rest with
      | some (atom, after) =>
          have := length_reference? h
          atom :: atoms after
      | none => .character '$' :: atoms ('\x7b' :: rest)
  | c :: rest => .character c :: atoms rest
termination_by cs.length
decreasing_by
  all_goals simp_all only [List.length_cons]
  all_goals omega

/-- The names that a text's values refer to. -/
def referredNames (text : String) : List String :=
  (readBindings text).flatMap fun b =>
    (atoms (b.value.getD "").toList).filterMap fun a =>
      match a with
      | .reference name _ => some name
      | .character _ => none

/-! ### What is bound in the end -/

/-- What names are bound to, in the order in which they were first bound. -/
abbrev Bound := List (String × Option String)

/-- A name bound to something: in its old place if it was bound before, else at the
end. -/
def Bound.assign (name : String) (value : Option String) : Bound → Bound
  | [] => [(name, value)]
  | b :: bs => if b.1 = name then (name, value) :: bs else b :: Bound.assign name value bs

/-- The value of something with a name. -/
def valueOf? {α : Type} (vs : List (String × α)) (name : String) : Option α :=
  (vs.find? fun v => v.1 = name).map Prod.snd

/-- What a part of a value stands for.  A name that is bound to nothing stands for
nothing, whatever its fallback. -/
def Atom.text (environment : Variables) (bound : Bound) : Atom → String
  | .character c => c.toString
  | .reference name fallback =>
      match valueOf? bound name with
      | some value => value.getD ""
      | none => (valueOf? environment name).getD fallback

/-- What bindings bind in the end. -/
def bindAll (environment : Variables) (bs : List Binding) : Bound :=
  bs.foldl
    (fun bound b =>
      bound.assign b.name (b.value.map fun v =>
        String.join ((atoms v.toList).map (Atom.text environment bound))))
    []

end VariableFile
end BindLint
