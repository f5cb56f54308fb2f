import BindLint.Lint

/-!
# Trees supplied from outside

The grammars are not part of the program: another program parses, and hands over
for every file the trees of the texts that come up while it is linted and fixed,
in the order in which they come up.  Which texts these are is known only once the
ones before have been linted.  So a run is repeated: each time with one more text
known to have been parsed, until the run parses no text that is not known.

## Main definitions

* `Path.normalized` — a path with `..` resolved by name.
* `Supply`, `Supply.parser` — the trees of files, and the parser they make up.
* `Supply.settle` — a run in which every text has its own tree.
-/

namespace BindLint

/-- One more name on a path that is already normal, latest first. -/
def Path.normalStep (names : List String) (name : String) : List String :=
  match names with
  | last :: rest => if name = ".." && last ≠ ".." then rest else name :: last :: rest
  | [] => [name]

/-- A path in which `..` takes away the name before it. -/
def Path.normalized (p : Path) : Path :=
  { p with parts := (p.parts.foldl Path.normalStep []).reverse }

/-- The texts that were parsed, in order, with their files. -/
abbrev Parsed := List (Path × String)

/-- The trees of files: for each file one for each text, in the order in which the
texts are first parsed. -/
structure Supply where
  /-- The files with their trees. -/
  trees : List (Path × List Node)
  deriving Repr, Inhabited

namespace Supply

/-- The trees of a file. -/
def find (s : Supply) (path : Path) : List Node :=
  ((s.trees.find? fun t => t.1 = path.normalized).map Prod.snd).getD []

/-- A tree without anything in it. -/
def emptyTree : Node := .mk { kind := ⟨"program"⟩, span := ⟨0, 0⟩ } []

/-- The parser that gives each known text its tree, and any other text of a file the
first tree that is left. -/
def parser (s : Supply) (known : Parsed) : Parser := fun path text =>
  let texts := (known.filter fun k => k.1 = path.normalized).map Prod.snd
  ((s.find path)[texts.idxOf text]?).getD emptyTree

/-- The first text that is not known, with its file. -/
def firstNew (known parsed : Parsed) : Option (Path × String) :=
  (parsed.map fun k => (k.1.normalized, k.2)).find? fun k => !known.contains k

/-- A run repeated with one more known text each time, until it parses no other or
the given number of repetitions is used up.  Gives the texts known at the end
too. -/
def settleIn {α : Type} (s : Supply) (run : Parser → α) (parsed : α → Parsed) :
    Nat → Parsed → α × Parsed
  | 0, known => (run (s.parser known), known)
  | n + 1, known =>
      let result := run (s.parser known)
      match firstNew known (parsed result) with
      | none => (result, known)
      | some k => settleIn s run parsed n (known ++ [k])

/-- A run in which every text has its own tree: one repetition for each tree is
enough. -/
def settle {α : Type} (s : Supply) (run : Parser → α) (parsed : α → Parsed) (known : Parsed) :
    α × Parsed :=
  settleIn s run parsed (s.trees.foldr (fun t n => t.2.length + n) 0 + 1) known

end Supply
end BindLint
