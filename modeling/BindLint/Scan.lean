import BindLint.Files.Collect
import BindLint.Text.Quoted

/-!
# Scanning files

A scan collects files, lints each on its own, and puts the reports together.  A
file that cannot be read is logged and left out; one that does not parse is
reported as such.

## Main definitions

* `FileReport`, `ScanResult` — what a scan reports.
* `scanFile` — the report on one file.
* `scan` — the scan of some paths.
-/

namespace BindLint

/-- What is reported on a file. -/
structure FileReport where
  /-- The file. -/
  path : Path
  /-- Its findings. -/
  findings : List Finding := []
  /-- Why it does not parse, if it does not. -/
  parseError : Option String := none
  deriving DecidableEq, Repr, Inhabited

/-- What a scan reports. -/
structure ScanResult where
  /-- One report for each file. -/
  reports : List FileReport
  /-- The number of files. -/
  filesScanned : Int
  deriving DecidableEq, Repr, Inhabited

/-- The findings of all files. -/
def ScanResult.findings (r : ScanResult) : List Finding := r.reports.flatMap FileReport.findings

/-- The number of findings. -/
def ScanResult.findingCount (r : ScanResult) : Nat :=
  r.reports.foldr (fun f n => f.findings.length + n) 0

/-- Whether a file is reported not to parse; an empty reason is none. -/
def FileReport.isBroken (f : FileReport) : Bool :=
  match f.parseError with
  | none => false
  | some e => e ≠ ""

/-! ### One file -/

/-- What the log says about a file that is left out. -/
def skipRecord (message : String) : Log.Record := ⟨.warning, scanLogger, message⟩

/-- Why a file has no text. -/
inductive SourceError where
  /-- It cannot be read. -/
  | unreadable (path : Path) (e : ReadError) : SourceError
  /-- It is no UTF-8. -/
  | undecodable (fault : Utf8.Fault) : SourceError
  deriving DecidableEq, Repr

/-- How an error is worded. -/
def SourceError.message : SourceError → String
  | .unreadable path e => e.message ++ ": " ++ Text.quoted path.text
  | .undecodable fault => fault.message

/-- The text of a file. -/
def readSource (t : FileTree) (path : Path) : Except SourceError String :=
  match t.read path with
  | .error e => .error (.unreadable path e)
  | .ok bytes =>
      match Utf8.decode bytes with
      | .error fault => .error (.undecodable fault)
      | .ok text => .ok text

/-- Reports with what is logged. -/
structure Reported where
  /-- The reports. -/
  reports : List FileReport
  /-- What is logged. -/
  records : List Log.Record
  deriving DecidableEq, Repr, Inhabited

/-- The report on the text of a file.  Only a closure that cannot be checked ends
the scan. -/
def reportText (parse : Parser) (o : Options) (path : Path) (text : String) :
    Except CheckError Reported :=
  let pass := lint parse o path text
  match pass.stopped with
  | some (.unchecked e) => .error e
  | some (.unparsable e) =>
      .ok ⟨[{ path, parseError := some e.message }],
        pass.records ++ [skipRecord ("Skipping " ++ path.text ++ ": " ++ e.message)]⟩
  | none => .ok ⟨[{ path, findings := pass.hits.map Hit.finding }], pass.records⟩

/-- The report on a file: none if it cannot be read. -/
def scanFile (t : FileTree) (parse : Parser) (o : Options) (path : Path) :
    Except CheckError Reported :=
  match readSource t path with
  | .error e => .ok ⟨[], [skipRecord ("Failed to read " ++ path.text ++ ": " ++ e.message)]⟩
  | .ok text => reportText parse o path text

/-- The reports on some files, in order. -/
def scanFiles (t : FileTree) (parse : Parser) (o : Options) :
    List Path → Except CheckError Reported
  | [] => .ok ⟨[], []⟩
  | p :: ps => do
      let first ← scanFile t parse o p
      let rest ← scanFiles t parse o ps
      return ⟨first.reports ++ rest.reports, first.records ++ rest.records⟩

/-! ### Whole scans -/

/-- Why a scan gives no reports. -/
inductive ScanError where
  /-- A path cannot be looked up. -/
  | unreachable (error : ReadError) : ScanError
  /-- A closure could not be checked. -/
  | unchecked (error : CheckError) : ScanError
  deriving DecidableEq, Repr

/-- How an error is worded. -/
def ScanError.message : ScanError → String
  | .unreachable e => e.message
  | .unchecked e => e.message

/-- The text of a count of seconds while the clock stands still. -/
def noTime : String := "0.00s"

/-- The scan of some paths, with what is logged. -/
def scan (t : FileTree) (parse : Parser) (o : Options) (limit : Int) (paths : List Path) :
    Except ScanError (ScanResult × List Log.Record) := do
  let collected ← (collect t limit paths).mapError ScanError.unreachable
  let reported ← (scanFiles t parse o collected.files).mapError ScanError.unchecked
  let result : ScanResult := ⟨reported.reports, reported.reports.length⟩
  let started : Log.Record :=
    ⟨.info, scanLogger,
      "Collected " ++ toString collected.files.length ++ " scannable files"⟩
  let finished : Log.Record :=
    ⟨.info, scanLogger,
      "Scan complete: " ++ toString result.findingCount ++ " findings from " ++
        toString result.filesScanned ++ " files in " ++ noTime⟩
  return (result, collected.records ++ started :: reported.records ++ [finished])

end BindLint
