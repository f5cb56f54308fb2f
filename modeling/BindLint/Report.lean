import BindLint.Fix
import BindLint.Scan
import BindLint.Text.Plain

/-!
# Reports

What a scan and its fixes are reported as: objects for other programs, lines for a
reader, and an exit code for scripts.  Lines go out without control sequences.

## Main definitions

* `Finding.toValue`, `ScanResult.toValue`, `Patch.toValue` — reports as objects.
* `ScanResult.text` — the report as lines.
* `exitCode` — how a run ends.
-/

namespace BindLint

/-! ### Objects -/

/-- A suggestion as an object. -/
def Suggestion.toValue (s : Suggestion) : Value :=
  .obj
    [ ("message_id", .str Message.suggestion.id),
      ("desc", .str suggestionText),
      ("range", .arr [.int s.start, .int s.stop]),
      ("text", .str s.text) ]

/-- A finding as an object. -/
def Finding.toValue (f : Finding) : Value :=
  .obj
    [ ("rule_id", .str ruleId),
      ("message_id", .str Message.preferBind.id),
      ("message", .str f.message),
      ("replacement", .str f.replacement),
      ("line", .int f.line),
      ("column", .int f.column),
      ("end_line", .int f.endLine),
      ("end_column", .int f.endColumn),
      ("fix", .null),
      ("suggestions", .arr (f.suggestions.map Suggestion.toValue)) ]

/-- A text that may be absent. -/
def optionalText : Option String → Value
  | none => .null
  | some s => .str s

/-- The report on a file as an object. -/
def FileReport.toValue (r : FileReport) : Value :=
  .obj
    [ ("path", .str r.path.text),
      ("findings", .arr (r.findings.map Finding.toValue)),
      ("parse_error", optionalText r.parseError) ]

/-- Whether there is something to say about a file. -/
def FileReport.isWorthy (r : FileReport) : Bool := !r.findings.isEmpty || r.isBroken

/-- The members of the report on a scan; files about which there is nothing to say
are left out. -/
def ScanResult.members (r : ScanResult) : List (String × Value) :=
  [ ("reports", .arr ((r.reports.filter FileReport.isWorthy).map FileReport.toValue)),
    ("finding_count", .int r.findingCount),
    ("files_scanned", .int r.filesScanned),
    ("scan_duration_seconds", .float "0.0") ]

/-- The report on a scan as an object. -/
def ScanResult.toValue (r : ScanResult) : Value := .obj r.members

/-- A patch as an object. -/
def Patch.toValue (p : Patch) : Value :=
  .obj
    [ ("diff", .str p.diff),
      ("touched_files", .texts [p.path.text]),
      ("applied", .int p.applied),
      ("skipped", .int p.skipped) ]

/-! ### Lines -/

/-- The line on a finding in a file. -/
def Finding.text (path : Path) (f : Finding) : String :=
  Text.plain (path.text ++ ":" ++ toString f.line ++ ":" ++ toString (f.column + 1) ++
    "  warning  " ++ f.message ++ "  " ++ ruleId ++ "\n")

/-- The line on a file that does not parse. -/
def FileReport.errorText (r : FileReport) : String :=
  if r.isBroken then Text.plain (r.path.text ++ ": error  " ++ r.parseError.getD "" ++ "\n")
  else ""

/-- The lines on a file. -/
def FileReport.text (r : FileReport) : String :=
  r.errorText ++ String.join (r.findings.map (Finding.text r.path))

/-- The differences that a patch makes, as they are printed. -/
def Patch.text (p : Patch) : String := Text.plain p.diff

/-- The number of things to be put right: findings, and files that do not parse. -/
def ScanResult.problems (r : ScanResult) : Nat :=
  r.findingCount + (r.reports.filter FileReport.isBroken).length

/-- The closing line, if there is something to be put right. -/
def ScanResult.summary (r : ScanResult) : String :=
  if r.problems = 0 then ""
  else
    "\n" ++ toString r.problems ++ (if r.problems = 1 then " problem" else " problems") ++ " in " ++
      toString r.filesScanned ++ " files\n"

/-- The report on a scan as lines. -/
def ScanResult.text (r : ScanResult) : String :=
  String.join (r.reports.map FileReport.text) ++ r.summary

/-! ### Exit codes -/

/-- All is well. -/
def exitOk : Nat := 0

/-- There is something to be put right. -/
def exitFindings : Nat := 1

/-- The options cannot be used. -/
def exitConfigError : Nat := 2

/-- How many suggestions a patch applied, and how many were left over. -/
structure Tally where
  /-- The suggestions applied. -/
  applied : Int
  /-- The suggestions left over. -/
  skipped : Int
  deriving DecidableEq, Repr, Inhabited

/-- The tally of a patch. -/
def Patch.tally (p : Patch) : Tally := ⟨p.applied, p.skipped⟩

/-- How a run ends that found this, and fixed some of it.  A file that does not
parse is always to be put right; if files were written, so is a suggestion left
over, or fewer suggestions applied than findings found. -/
def exitCode (r : ScanResult) (tallies : List Tally) (written : Bool) : Nat :=
  if r.reports.any FileReport.isBroken then exitFindings
  else if written then
    if tallies.any (fun t => t.skipped ≠ 0) ||
        decide (tallies.foldr (fun t n => t.applied + n) 0 < (r.findingCount : Int)) then
      exitFindings
    else exitOk
  else if r.findingCount = 0 then exitOk
  else exitFindings

end BindLint
