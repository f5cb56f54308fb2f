import BindLint.Files.Tree
import BindLint.Log
import BindLint.Options.Resolve
import BindLint.Text.Quoted
import BindLint.Text.Utf8
import BindLint.Value.Toml

/-!
# Option files

Options are read from a TOML or a JSON file, by the ending of its name.  A project
file holds them in a table of their own, any other file at its top.  What the
options say is not looked at here.

## Main definitions

* `OptionFileError` — why a file gives no options.
* `readOptionFile` — the options object of a file.
* `discoverOptions` — the options object of the project file, empty if there is
  no such file.
-/

namespace BindLint

/-- The formats of option files. -/
inductive OptionFormat where
  /-- TOML. -/
  | toml : OptionFormat
  /-- JSON. -/
  | json : OptionFormat
  deriving DecidableEq, Repr, Inhabited

/-- Why a file gives no options. -/
inductive OptionFileError where
  /-- The ending of its name stands for no format. -/
  | unsupported (name : String) : OptionFileError
  /-- It cannot be read. -/
  | unreadable (label : Path) (error : ReadError) : OptionFileError
  /-- Its text is not of its format. -/
  | malformed (label : Path) (format : OptionFormat) : OptionFileError
  /-- It holds no object where the options should be. -/
  | notObject (label : Path) : OptionFileError
  /-- It is no UTF-8. -/
  | undecodable (fault : Utf8.Fault) : OptionFileError
  /-- What should hold the table of options is no table but of this type. -/
  | notTable (typeName : String) : OptionFileError
  /-- It holds a whole number of so many digits, which are too many. -/
  | longNumber (digits : Nat) : OptionFileError
  /-- Its lists and objects are nested too deep. -/
  | nesting : OptionFileError
  /-- Its path holds a null character. -/
  | unnameable : OptionFileError
  deriving DecidableEq, Repr

/-- How an error is worded. -/
def OptionFileError.message : OptionFileError → String
  | .unsupported name => "Unsupported config file type: " ++ name
  | .unreadable label error =>
      "Failed to read " ++ label.text ++ ": " ++ error.message ++ ": " ++ Text.quoted label.text
  | .malformed label _ => "Failed to read " ++ label.text
  | .notObject label => label.text ++ " must contain an options object"
  | .undecodable fault => fault.message
  | .notTable typeName => "'" ++ typeName ++ "' object has no attribute 'get'"
  | .longNumber digits =>
      "Exceeds the limit (" ++ toString digitLimit ++
        " digits) for integer string conversion: value has " ++ toString digits ++
        " digits; use sys.set_int_max_str_digits() to increase the limit"
  | .nesting => "maximum recursion depth exceeded"
  | .unnameable => "embedded null byte"

/-- Whether an error is one of the configuration, to be told to the user.  The others
are not foreseen. -/
def OptionFileError.isConfiguration : OptionFileError → Bool
  | .unsupported _ => true
  | .unreadable _ _ => true
  | .malformed _ _ => true
  | .notObject _ => true
  | _ => false

/-- The error of a file of a format whose text holds no value. -/
def OptionFileError.ofDocument (label : Path) (format : OptionFormat) :
    DocumentError → OptionFileError
  | .malformed => .malformed label format
  | .longNumber digits => .longNumber digits
  | .nesting => .nesting

/-- The name of the project file. -/
def projectFile : String := "pyproject.toml"

/-- The name of the table of options in the project file. -/
def projectTable : String := "prefer-bind"

/-- The format of a file, by the ending of its name. -/
def OptionFormat.ofPath? (p : Path) : Option OptionFormat :=
  if p.suffix = ".toml" then some .toml else if p.suffix = ".json" then some .json else none

/-- The value in a project file that should be the options object. -/
def projectOptions (ms : List (String × Value)) : Except OptionFileError Value :=
  match Value.lookup "tool" ms with
  | none => .ok (.obj [])
  | some (.obj tools) => .ok ((Value.lookup projectTable tools).getD (.obj []))
  | some v => .error (.notTable v.fullTypeName)

/-- The value in a text that should be the options object. -/
def optionValue (label : Path) (format : OptionFormat) (text : String) :
    Except OptionFileError Value :=
  match format with
  | .toml =>
      match Toml.parse text with
      | .error e => .error (.ofDocument label .toml e)
      | .ok ms => if label.name = projectFile then projectOptions ms else .ok (.obj ms)
  | .json => (Json.parse text).mapError (.ofDocument label .json)

/-- A value, if it is an object. -/
def asObject (label : Path) : Value → Except OptionFileError Value
  | .obj ms => .ok (.obj ms)
  | .misnamed ms strays => .ok (.misnamed ms strays)
  | _ => .error (.notObject label)

/-- The options object of a file.  Messages name the file by its label. -/
def readLabelled (t : FileTree) (p label : Path) : Except OptionFileError Value :=
  match OptionFormat.ofPath? p with
  | none => .error (.unsupported label.name)
  | some format =>
      if p.hasNull then .error .unnameable
      else
        match t.read p with
        | .error e => .error (.unreadable label e)
        | .ok bytes =>
            match Utf8.decode bytes with
            | .error fault => .error (.undecodable fault)
            | .ok text => (optionValue label format text).bind (asObject label)

/-- The options object of a file. -/
def readOptionFile (t : FileTree) (p : Path) : Except OptionFileError Value :=
  readLabelled t p p

/-- The options object of the project file in the working directory, empty if there is
no such file. -/
def discoverOptions (t : FileTree) : Except OptionFileError Value :=
  let p : Path := ⟨0, [projectFile]⟩
  if t.isFile p || t.isDirectory p then readLabelled t p (t.base.child projectFile)
  else .ok (.obj [])

/-- The names of the members of an object, in quotes. -/
def quotedNames : Value → List String
  | .obj ms => (sortNames (ms.map Prod.fst)).map Text.quoted
  | .misnamed ms strays =>
      (sortNames (ms.map Prod.fst)).map Text.quoted ++
        strays.map fun m => Text.quotedPoints m.1
  | _ => []

/-- What the log says about options that were read. -/
def optionsRecord (label : Path) (object : Value) : Log.Record where
  level := .debug
  logger := "prefer_bind.core.config"
  message :=
    "Loaded options from " ++ label.text ++ ": [" ++
      String.intercalate ", " (quotedNames object) ++ "]"

end BindLint
