import BindLint.Command.Arguments
import BindLint.Options.File
import BindLint.Report
import BindLint.Settings

/-!
# Running commands

A run of the program is a function of its command, the environment, the file tree
and the parser: it gives what is printed, what is logged, the file tree
afterwards and the exit code.

Linting goes in this order: settings, options, scan, fixes, report.  Bad settings
and option files that are broken in a way not foreseen end the program at once;
bad options are told to the user, if they can be.  A file whose fix fails is logged and left as it
is, and the others are fixed all the same.

## Main definitions

* `World` — everything a run depends on besides its command.
* `Outcome` — what a run gives.
* `fixReports` — fixing the files of a scan.
* `runCheck`, `Command.run` — running a command.
-/

namespace BindLint

/-- The name of the program. -/
def programName : String := "prefer-bind"

/-- The version of the program. -/
def programVersion : String := "0.1.0"

/-- Everything a run depends on besides its command. -/
structure World where
  /-- The environment. -/
  environment : Variables
  /-- The files. -/
  tree : FileTree
  /-- The parser. -/
  parse : Parser

/-- Why the program ended without an answer. -/
inductive Crash where
  /-- The settings are bad. -/
  | settings (failure : SettingsFailure) : Crash
  /-- The option file is broken in a way not foreseen. -/
  | optionFile (error : OptionFileError) : Crash
  /-- The options are bad in a way that cannot be told. -/
  | options (error : OptionsError) : Crash
  /-- The scan or the fixing ended early. -/
  | scan (error : ScanError) : Crash
  deriving DecidableEq, Repr

/-- A line of the error output. -/
inductive ErrorLine where
  /-- A line of the log. -/
  | log (line : Log.Line) : ErrorLine
  /-- A text for the user. -/
  | text (s : String) : ErrorLine

/-- What a run gives. -/
structure Outcome where
  /-- The exit code. -/
  exit : Nat
  /-- What is printed. -/
  output : String
  /-- The lines of the error output. -/
  errors : List ErrorLine
  /-- The files afterwards. -/
  tree : FileTree
  /-- The texts that were parsed, in order. -/
  parsed : List (Path × String) := []

/-! ### Fixing the files of a scan -/

/-- What fixing files gives. -/
structure Fixed where
  /-- The patches in order. -/
  patches : List Patch := []
  /-- What is logged. -/
  entries : List Log.Entry := []
  /-- The files afterwards. -/
  tree : FileTree
  /-- The texts that were parsed, in order. -/
  parsed : List (Path × String) := []

/-- What is logged about a file that could not be fixed. -/
def failedEvent (path : Path) (message : String) : Log.Entry :=
  .event ⟨.warning, "fix.failed", [("path", .str path.text), ("error", .str message)]⟩

/-- What is logged about a file that was written. -/
def writtenEvent (p : Patch) : Log.Entry :=
  .event ⟨.info, "fix.written", [("path", .str p.path.text), ("applied", .int p.applied)]⟩

/-- Fixing one file.  Only a closure that was to be reported and cannot be
replaced ends the run. -/
def fixFile (parse : Parser) (o : Options) (write : Bool) (t : FileTree) (path : Path) :
    Except CheckError Fixed :=
  match readSource t path with
  | .error e => .ok { entries := [failedEvent path e.message], tree := t }
  | .ok text =>
      let run := fix parse o path maxPasses text
      let entries := (run.records path maxPasses).map Log.Entry.record
      let parsed := run.rounds.map fun r => (path, r.source)
      match run.patch path text with
      | .error (.stopped (.unchecked (.irreplaceable e))) => .error (.irreplaceable e)
      | .error e => .ok { entries := entries ++ [failedEvent path e.message], tree := t, parsed }
      | .ok none => .ok { entries, tree := t, parsed }
      | .ok (some patch) =>
          if write then
            .ok
              { patches := [patch]
                entries := entries ++ [writtenEvent patch]
                tree := t.write path (Utf8.encode patch.source)
                parsed }
          else .ok { patches := [patch], entries, tree := t, parsed }

/-- Fixing some files in order, each on the files as the ones before left them. -/
def fixFiles (parse : Parser) (o : Options) (write : Bool) :
    FileTree → List Path → Except CheckError Fixed
  | t, [] => .ok { tree := t }
  | t, p :: ps => do
      let first ← fixFile parse o write t p
      let rest ← fixFiles parse o write first.tree ps
      .ok
        { patches := first.patches ++ rest.patches
          entries := first.entries ++ rest.entries
          tree := rest.tree
          parsed := first.parsed ++ rest.parsed }

/-- Fixing the files of a scan that have findings. -/
def fixReports (parse : Parser) (o : Options) (write : Bool) (t : FileTree) (r : ScanResult) :
    Except CheckError Fixed :=
  fixFiles parse o write t
    ((r.reports.filter fun f => !f.findings.isEmpty).map FileReport.path)

/-! ### Linting -/

/-- The options object for a run, with the file it was read from. -/
def findOptions (t : FileTree) (config : Option Path) :
    Except OptionFileError (Value × List Log.Record) :=
  match config with
  | some p => (readOptionFile t p).map fun object => (object, [optionsRecord p object])
  | none =>
      (discoverOptions t).map fun object =>
        (object, if t.isFile ⟨0, [projectFile]⟩ then
          [optionsRecord (t.base.child projectFile) object] else [])

/-- What is printed about a scan and its patches. -/
def checkOutput (args : CheckArguments) (r : ScanResult) (patches : List Patch) : String :=
  match args.format with
  | .json =>
      let more : List (String × Value) :=
        if patches.isEmpty then [] else [("patches", .arr (patches.map Patch.toValue))]
      Json.indented (.obj (r.members ++ more)) ++ "\n"
  | .text => r.text ++ (if args.diff then String.join (patches.map Patch.text) else "")

/-- What is logged when linting starts. -/
def startEvent (args : CheckArguments) (o : Options) : Log.Entry :=
  .event ⟨.info, "check.start",
    [("paths", .texts (args.paths.map Path.text)), ("options", o.toValue)]⟩

/-- What is logged when linting is done. -/
def doneEvent (r : ScanResult) : Log.Entry :=
  .event ⟨.info, "check.done",
    [("findings", .int r.findingCount), ("files", .int r.filesScanned)]⟩

/-- How the log is shown. -/
def logConfig (args : CheckArguments) (s : Settings) : Log.Config :=
  let debug := args.debug || s.debug
  .make debug (if args.verbose && !debug then some (.least .info) else none)

/-- Log entries as lines of the error output. -/
def logLines (c : Log.Config) (es : List Log.Entry) : List ErrorLine :=
  (c.lines es).map ErrorLine.log

/-- The outcome of a run whose options cannot be used. -/
def rejected (w : World) (c : Log.Config) (records : List Log.Record) (message : String) :
    Outcome where
  exit := exitConfigError
  output := ""
  errors :=
    logLines c (records.map Log.Entry.record) ++
      [.text (Text.plain ("Configuration error: " ++ message))]
  tree := w.tree

/-- The texts that a scan parsed. -/
def scannedTexts (t : FileTree) (r : ScanResult) : List (Path × String) :=
  r.reports.filterMap fun f =>
    match readSource t f.path with
    | .ok text => some (f.path, text)
    | .error _ => none

/-- Linting with options that were resolved. -/
def runResolved (w : World) (args : CheckArguments) (s : Settings) (o : Options)
    (before : List Log.Record) : Except ScanError Outcome := do
  let (result, records) ← scan w.tree w.parse o s.maxFileSize args.paths
  let fixed ←
    if args.diff || args.write then
      (fixReports w.parse o args.write w.tree result).mapError ScanError.unchecked
    else .ok { tree := w.tree }
  let entries :=
    before.map Log.Entry.record ++ startEvent args o :: records.map Log.Entry.record ++
      fixed.entries ++ [doneEvent result]
  .ok
    { exit := exitCode result (fixed.patches.map Patch.tally) args.write
      output := checkOutput args result fixed.patches
      errors := logLines (logConfig args s) entries
      tree := fixed.tree
      parsed := scannedTexts w.tree result ++ fixed.parsed }

/-- Linting. -/
def runCheck (w : World) (args : CheckArguments) : Except Crash Outcome :=
  match Settings.read w.environment w.tree with
  | .error failure => .error (.settings failure)
  | .ok s =>
      let c := logConfig args s
      match findOptions w.tree args.config with
      | .error e =>
          if e.isConfiguration then .ok (rejected w c [] e.message) else .error (.optionFile e)
      | .ok (object, records) =>
          match Options.resolve (args.overrides.applyTo object) with
          | .error e =>
              match e.message with
              | some text => .ok (rejected w c records text)
              | none => .error (.options e)
          | .ok o =>
              match runResolved w args s o records with
              | .error e => .error (.scan e)
              | .ok outcome => .ok outcome

/-! ### All commands -/

/-- An outcome that only prints. -/
def printed (w : World) (output : String) : Outcome := ⟨exitOk, output, [], w.tree, []⟩

/-- How the program is called. -/
def usage : String :=
  "Usage: " ++ programName ++ " [--version] check PATH... | schema\n"

/-- Running a command. -/
def Command.run (w : World) : Command → Except Crash Outcome
  | .version => .ok (printed w (programName ++ " " ++ programVersion ++ "\n"))
  | .help => .ok (printed w usage)
  | .schema => .ok (printed w (Json.indented optionsSchema ++ "\n"))
  | .check args => runCheck w args

end BindLint
