import BindLint.Files.Path
import BindLint.Options.Resolve

/-!
# The command line

A command line names a command and its arguments.  Options and paths may come in
any order.  An option of one letter may be written together with others or with
its value; `--` ends the options.  Where an option is given twice the last one
counts, except that names of contexts add up.

## Main definitions

* `CheckArguments` — the arguments of the command that lints.
* `Command` — what a command line asks for.
* `Command.parse` — the command that words ask for.
-/

namespace BindLint

/-- How findings are printed. -/
inductive OutputFormat where
  /-- As lines for a reader. -/
  | text : OutputFormat
  /-- As an object. -/
  | json : OutputFormat
  deriving DecidableEq, Repr, Inhabited

/-- The format of a name. -/
def OutputFormat.ofName? (name : String) : Option OutputFormat :=
  if name = "text" then some .text else if name = "json" then some .json else none

/-- The arguments of the command that lints. -/
structure CheckArguments where
  /-- The files and directories to lint. -/
  paths : List Path
  /-- The file with options. -/
  config : Option Path := none
  /-- The options given on the command line. -/
  overrides : Overrides := {}
  /-- How findings are printed. -/
  format : OutputFormat := .text
  /-- Print what fixing would change. -/
  diff : Bool := false
  /-- Fix files in place. -/
  write : Bool := false
  /-- Log progress. -/
  verbose : Bool := false
  /-- Log details for a person at a console. -/
  debug : Bool := false
  deriving DecidableEq, Repr, Inhabited

/-- What a command line asks for. -/
inductive Command where
  /-- The version of the program. -/
  | version : Command
  /-- A description of the command line. -/
  | help : Command
  /-- The schema of the options. -/
  | schema : Command
  /-- Linting. -/
  | check (args : CheckArguments) : Command
  deriving DecidableEq, Repr

/-! ### Words read so far -/

/-- The arguments of the command that lints while its words are read. -/
structure Collecting where
  /-- The paths, latest first. -/
  paths : List String := []
  /-- The file with options. -/
  config : Option String := none
  /-- The names of contexts, latest first. -/
  contexts : List String := []
  /-- The name of the format. -/
  format : String := "text"
  /-- Report in all calls or not. -/
  allContexts : Option Bool := none
  /-- Report async closures or not. -/
  includeAsync : Option Bool := none
  /-- Print what fixing would change. -/
  diff : Bool := false
  /-- Fix files in place. -/
  write : Bool := false
  /-- Log progress. -/
  verbose : Bool := false
  /-- Log details. -/
  debug : Bool := false
  /-- Describe the command line instead. -/
  help : Bool := false

/-- An option: one that stands alone, or one that takes a value. -/
inductive Switch where
  /-- It stands alone. -/
  | flag (set : Collecting → Collecting) : Switch
  /-- It takes a value. -/
  | valued (set : String → Collecting → Collecting) : Switch

/-- Give the file with options. -/
def Switch.config : Switch := .valued fun v c => { c with config := some v }

/-- Give the format. -/
def Switch.format : Switch := .valued fun v c => { c with format := v }

/-- Log progress. -/
def Switch.verbose : Switch := .flag fun c => { c with verbose := true }

/-- The options with long names. -/
def Switch.ofLong? (name : String) : Option Switch :=
  match name with
  | "--config" => some .config
  | "--format" => some .format
  | "--context" => some (.valued fun v c => { c with contexts := v :: c.contexts })
  | "--all-contexts" => some (.flag fun c => { c with allContexts := some true })
  | "--only-long-lived" => some (.flag fun c => { c with allContexts := some false })
  | "--include-async" => some (.flag fun c => { c with includeAsync := some true })
  | "--no-include-async" => some (.flag fun c => { c with includeAsync := some false })
  | "--diff" => some (.flag fun c => { c with diff := true })
  | "--write" => some (.flag fun c => { c with write := true })
  | "--verbose" => some .verbose
  | "--debug" => some (.flag fun c => { c with debug := true })
  | "--help" => some (.flag fun c => { c with help := true })
  | _ => none

/-- The options of one letter. -/
def Switch.ofLetter? (letter : Char) : Option Switch :=
  if letter = 'c' then some .config
  else if letter = 'f' then some .format
  else if letter = 'v' then some .verbose
  else none

/-- What reading a word gives: the arguments so far, and an option that still waits
for its value. -/
structure Step where
  /-- The arguments so far. -/
  read : Collecting
  /-- What to do with the next word. -/
  waiting : Option (String → Collecting → Collecting) := none

/-- Letters after a single dash: an option that takes a value takes the rest of the
word, or else the next word. -/
def readLetters (c : Collecting) : List Char → Option Step
  | [] => some { read := c }
  | l :: ls =>
      match Switch.ofLetter? l with
      | none => none
      | some (.flag set) => readLetters (set c) ls
      | some (.valued set) =>
          if ls.isEmpty then some { read := c, waiting := some set }
          else some { read := set (String.ofList ls) c }

/-- A word that starts with a dash.  A value may follow a long name after `=`. -/
def readOptionWord (c : Collecting) (word : List Char) : Option Step :=
  let name := word.takeWhile (· ≠ '=')
  match Switch.ofLong? (String.ofList name), word.drop name.length with
  | some (.flag set), [] => some { read := set c }
  -- an option that stands alone takes no value
  | some (.flag _), _ => none
  | some (.valued set), [] => some { read := c, waiting := some set }
  | some (.valued set), _ :: value => some { read := set (String.ofList value) c }
  | none, _ => if "--".toList.isPrefixOf word then none else readLetters c (word.drop 1)

/-- The words after the name of the command that lints. -/
def readWords : Step → List String → Option Collecting
  | ⟨c, none⟩, [] => some c
  -- an option was left without its value
  | ⟨_, some _⟩, [] => none
  | ⟨c, some set⟩, w :: ws => readWords { read := set w c } ws
  | ⟨c, none⟩, w :: ws =>
      if w = "--" then some { c with paths := ws.reverse ++ c.paths }
      else
        match w.toList with
        | '-' :: _ :: _ =>
            match readOptionWord c w.toList with
            | some step => readWords step ws
            | none => none
        | _ => readWords { read := { c with paths := w :: c.paths } } ws

/-- The arguments that were read; there must be a path, no path may hold a null
character, and the format must be known. -/
def Collecting.finish (c : Collecting) : Option Command :=
  if c.help then some .help
  else
    match OutputFormat.ofName? c.format with
    | none => none
    | some format =>
        let paths := c.paths.reverse.map Path.ofString
        let config := c.config.map Path.ofString
        if paths.isEmpty || (paths ++ config.toList).any Path.hasNull then none
        else
          some (.check
            { paths, config
              overrides := ⟨c.allContexts, c.contexts.reverse, c.includeAsync⟩
              format, diff := c.diff, write := c.write, verbose := c.verbose, debug := c.debug })

namespace Command

/-- The command that the words after its name ask for. -/
def ofName (name : String) (args : List String) : Option Command :=
  if name = "check" then (readWords { read := {} } args).bind Collecting.finish
  else if name = "schema" then
    match args with
    | [] => some .schema
    | ["--"] => some .schema
    | ["--help"] => some .help
    | _ => none
  else none

/-- The command that words ask for; `none` if they cannot be understood.  What is
asked for before the name of a command comes first, even behind the end of the
options. -/
def parse : List String → Option Command
  | [] => none
  | "--version" :: rest => (skipOptions rest).map fun _ => .version
  | "--help" :: rest => (skipOptions rest).map fun _ => .help
  | "--" :: "--version" :: rest => (skipOptions rest).map fun _ => .version
  | "--" :: "--help" :: rest => (skipOptions rest).map fun _ => .help
  | "--" :: name :: args => ofName name args
  | name :: args => ofName name args
where
  /-- The words after the options that stand before the name of a command. -/
  skipOptions : List String → Option (List String)
    | [] => some []
    | "--version" :: rest => skipOptions rest
    | "--help" :: rest => skipOptions rest
    | "--" :: rest => some rest
    | w :: rest =>
        match w.toList with
        | '-' :: _ :: _ => none
        | _ => some (w :: rest)

end Command
end BindLint
