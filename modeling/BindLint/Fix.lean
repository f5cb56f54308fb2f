import BindLint.Lint
import BindLint.LineDiff.Hunk
import BindLint.Splice

/-!
# Fixing a text

Fixing lints a text and applies the suggestions, again and again, until a pass
finds nothing or the given number of rounds is used up: a suggestion that
overlapped another is picked up by a later round.

A run keeps the list of its rounds and how it ended; what is reported about it
(suggestions applied in all, suggestions left over, log, patch) is read off that
list.

## Main definitions

* `Round`, `Ending`, `Fixing` — a run of fixing.
* `fixRounds` — a run of at most some number of rounds.
* `Patch`, `fix` — what a run changed.

## Main results

* `length_rounds_fixRounds_le` — a run has no more rounds than it was given.
-/

namespace BindLint

/-- The number of rounds that a file is given. -/
def maxPasses : Nat := 10

/-! ### Runs -/

/-- One round: a pass over a text, and what applying its suggestions gave. -/
structure Round where
  /-- The text that was linted. -/
  source : String
  /-- The pass over it. -/
  pass : Pass
  /-- What applying the suggestions gave, if that was done. -/
  outcome : Option Applied
  deriving DecidableEq, Repr, Inhabited

/-- Why fixing failed. -/
inductive FixError where
  /-- A pass did not come to its end. -/
  | stopped (e : LintError) : FixError
  /-- The new bytes are no UTF-8. -/
  | undecodable (fault : Utf8.Fault) : FixError
  deriving DecidableEq, Repr

/-- How an error is worded. -/
def FixError.message : FixError → String
  | .stopped e => e.message
  | .undecodable fault => fault.message

/-- How a run ended. -/
inductive Ending where
  /-- A pass found nothing. -/
  | clean : Ending
  /-- A pass found something and no suggestion could be applied. -/
  | stuck : Ending
  /-- The number of rounds was used up. -/
  | exhausted : Ending
  /-- A round failed. -/
  | failed (e : FixError) : Ending
  deriving DecidableEq, Repr

/-- A run of fixing. -/
structure Fixing where
  /-- The rounds in order. -/
  rounds : List Round
  /-- The text at the end. -/
  source : String
  /-- How it ended. -/
  ending : Ending
  deriving DecidableEq, Repr

/-- A run with one more round in front. -/
def Fixing.cons (r : Round) (f : Fixing) : Fixing := { f with rounds := r :: f.rounds }

/-- A run of at most `n` rounds over a text. -/
def fixRounds (pass : String → Pass) : Nat → String → Fixing
  | 0, text => ⟨[], text, .exhausted⟩
  | n + 1, text =>
      let p := pass text
      match p.findings with
      | .error e => ⟨[⟨text, p, none⟩], text, .failed (.stopped e)⟩
      | .ok [] => ⟨[⟨text, p, none⟩], text, .clean⟩
      | .ok fs =>
          match applySuggestions text fs with
          | .error fault => ⟨[⟨text, p, none⟩], text, .failed (.undecodable fault)⟩
          | .ok out =>
              if out.applied = 0 then ⟨[⟨text, p, some out⟩], out.text, .stuck⟩
              -- what was skipped is left to a later round
              else (fixRounds pass n out.text).cons ⟨text, p, some out⟩

/-- A run has no more rounds than it was given. -/
theorem length_rounds_fixRounds_le (pass : String → Pass) (n : Nat) (text : String) :
    (fixRounds pass n text).rounds.length ≤ n := by
  induction n generalizing text with
  | zero => exact Nat.le_refl 0
  | succ n ih =>
    rw [fixRounds]
    split
    · simp
    · simp
    · split
      · simp
      · next out _ =>
        split
        · simp
        · have := ih out.text
          simp only [Fixing.cons, List.length_cons]
          omega

namespace Fixing

/-- What applying suggestions gave, round by round. -/
def outcomes (f : Fixing) : List Applied := f.rounds.filterMap Round.outcome

/-- The number of suggestions applied in all rounds. -/
def applied (f : Fixing) : Nat := f.outcomes.foldr (fun out n => out.applied + n) 0

/-- The number of suggestions left over: none if the text is clean, else those that
the last round skipped. -/
def skipped (f : Fixing) : Nat :=
  match f.ending with
  | .clean => 0
  | _ => (f.outcomes.getLast?.map Applied.skipped).getD 0

/-! ### What the log says -/

/-- The part of the program that speaks about fixing. -/
def logger : String := "prefer_bind.patchgen.generator"

/-- What the log says about the rounds, the first of which has a number. -/
def roundRecords (path : Path) : Nat → List Round → List Log.Record
  | _, [] => []
  | k, r :: rs =>
      r.pass.records ++
        (r.outcome.toList.map fun out =>
          ⟨.debug, logger, "Pass " ++ toString k ++ " on " ++ path.text ++ ": applied " ++
            toString out.applied ++ ", skipped " ++ toString out.skipped⟩) ++
        roundRecords path (k + 1) rs

/-- What the log says about a run that was given a number of rounds. -/
def records (path : Path) (passes : Int) (f : Fixing) : List Log.Record :=
  roundRecords path 1 f.rounds ++
    match f.ending with
    | .exhausted =>
        [⟨.warning, logger,
          "Stopped fixing " ++ path.text ++ " after " ++ toString passes ++ " passes"⟩]
    | _ => []

end Fixing

/-! ### Patches -/

/-- What fixing changed in a file. -/
structure Patch where
  /-- The file. -/
  path : Path
  /-- The new text. -/
  source : String
  /-- The diff from the old text to the new. -/
  diff : String
  /-- The number of suggestions applied. -/
  applied : Nat
  /-- The number of suggestions left over. -/
  skipped : Nat
  deriving DecidableEq, Repr, Inhabited

/-- The patch of a run over a text: none if the text is as before. -/
def Fixing.patch (f : Fixing) (path : Path) (text : String) : Except FixError (Option Patch) :=
  match f.ending with
  | .failed e => .error e
  | _ =>
      if f.source = text then .ok none
      else
        .ok (some ⟨path, f.source, unifiedDiff text f.source path.text, f.applied, f.skipped⟩)

/-- The run of fixing a file in a number of rounds; a number below nought is none. -/
def fix (parse : Parser) (o : Options) (path : Path) (passes : Int) (text : String) : Fixing :=
  fixRounds (lint parse o path) passes.toNat text

end BindLint
