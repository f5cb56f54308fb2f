import BindLint.Files.Tree
import BindLint.Settings.VariableFile
import BindLint.Text.Blank
import BindLint.Text.Utf8
import BindLint.Value.Json

/-!
# Settings

Two settings come from the environment: whether to log for a person at a console,
and how large a file may be to be looked at in a directory.  A variable that the
environment does not have is looked up in the file `.env`.  The case of names does
not matter.

## Main definitions

* `Settings` — the two settings.
* `readBoolean`, `readInteger` — the value that a variable states.
* `Settings.read` — the settings in an environment, or why there are none.
-/

namespace BindLint

/-- The settings. -/
structure Settings where
  /-- Log for a person at a console. -/
  debug : Bool := false
  /-- The greatest size in bytes of a file in a directory that is looked at. -/
  maxFileSize : Int := 256 * 1024
  deriving DecidableEq, Repr, Inhabited

/-- What is wrong with a setting. -/
inductive SettingsError where
  /-- A truth value was expected. -/
  | notBoolean : SettingsError
  /-- A whole number was expected. -/
  | notInteger : SettingsError
  /-- The whole number has too many digits. -/
  | longInteger : SettingsError
  deriving DecidableEq, Repr, Inhabited

namespace SettingsError

/-- The class of an error. -/
def code : SettingsError → String
  | .notBoolean => "bool_parsing"
  | .notInteger => "int_parsing"
  | .longInteger => "int_parsing_size"

/-- The setting that is wrong. -/
def key : SettingsError → String
  | .notBoolean => "debug"
  | .notInteger => "max_file_size"
  | .longInteger => "max_file_size"

/-- How an error is worded. -/
def message : SettingsError → String
  | .notBoolean => "Input should be a valid boolean, unable to interpret input"
  | .notInteger => "Input should be a valid integer, unable to parse string as an integer"
  | .longInteger => "Unable to parse input string as an integer, exceeded maximum size"

end SettingsError

/-- Why there are no settings. -/
inductive SettingsFailure where
  /-- Some settings are wrong. -/
  | invalid (errors : List SettingsError) : SettingsFailure
  /-- The file of variables is no UTF-8. -/
  | undecodable (fault : Utf8.Fault) : SettingsFailure
  deriving DecidableEq, Repr

/-! ### Truth values -/

/-- The words for true. -/
def trueWords : List String := ["1", "true", "t", "yes", "y", "on"]

/-- The words for false. -/
def falseWords : List String := ["0", "false", "f", "no", "n", "off"]

/-- The truth value that a text states; the case of letters does not matter. -/
def readBoolean (s : String) : Except SettingsError Bool :=
  if trueWords.contains s.toLower then .ok true
  else if falseWords.contains s.toLower then .ok false
  else .error .notBoolean

/-! ### Whole numbers

A text whose plain digits are too many is refused before anything else.  Otherwise it
is cleaned in steps: blanks around it go, then the sign, then noughts at the start,
then a fraction of noughts, then underscores between other characters.  What is left
must be a number without any of these.  Behind noughts a minus sign may still stand.
-/

/-- The sign of a number, and what follows it.  Behind a plus sign no minus sign may
stand. -/
def splitSign? : List Char → Option (List Char × List Char)
  | '+' :: cs => if cs.head? = some '-' then none else some ([], cs)
  | '-' :: cs => some (['-'], cs)
  | cs => some ([], cs)

/-- What follows noughts and underscores, by the last one of them: from a digit or a
minus sign on, or with the last one if a point follows or nothing does. -/
def afterNoughts? (last : Char) : List Char → Option (List Char)
  | [] => some [last]
  | c :: cs =>
      if c = '0' || c = '_' then afterNoughts? c cs
      else if c.isDigit || c = '-' then some (c :: cs)
      else if c = '.' then some (last :: c :: cs)
      else none

/-- A number without the noughts at its start. -/
def withoutLeadingNoughts? : List Char → Option (List Char)
  | [] => none
  | c :: cs =>
      if c = '0' then afterNoughts? c cs
      else if c.isDigit || c = '-' then some (c :: cs)
      else none

/-- A number without a fraction of noughts; a point without noughts is no fraction. -/
def withoutFraction (cs : List Char) : List Char :=
  match cs.dropWhile (· ≠ '.') with
  | _ :: '0' :: noughts => if noughts.all (· = '0') then cs.takeWhile (· ≠ '.') else cs
  | _ => cs

/-- Whether two underscores stand together. -/
def hasDoubleUnderscore : List Char → Bool
  | '_' :: '_' :: _ => true
  | _ :: cs => hasDoubleUnderscore cs
  | [] => false

/-- A number without underscores, if each stands alone and between others. -/
def ungrouped (cs : List Char) : List Char :=
  if cs.head? = some '_' || cs.getLast? = some '_' || hasDoubleUnderscore cs then cs
  else cs.filter (· ≠ '_')

/-- The text of a number, cleaned. -/
def cleaned? (cs : List Char) : Option (List Char) := do
  let (sign, unsigned) ← splitSign? (Text.trim Text.isBlank cs)
  let number ← withoutLeadingNoughts? unsigned
  some (sign ++ ungrouped (withoutFraction number))

/-- The digits at the start of a text, behind a minus sign if there is one; none if they
start with a nought. -/
def leadingDigits (cs : List Char) : List Char :=
  let unsigned := match cs with
    | '-' :: rest => rest
    | _ => cs
  if unsigned.head? = some '0' then [] else unsigned.takeWhile Char.isDigit

/-- The whole number of digits that do not start with a nought, unless they are one, and
are not too many. -/
def plainNatural? : List Char → Option Nat
  | ['0'] => some 0
  | c :: cs =>
      if c ≠ '0' && (c :: cs).all Char.isDigit && cs.length < digitLimit then
        some (Json.ofDigits (c :: cs))
      else none
  | [] => none

/-- The whole number of a cleaned text. -/
def plainInteger? : List Char → Option Int
  | '-' :: cs => (plainNatural? cs).map fun n => -(n : Int)
  | cs => (plainNatural? cs).map fun n => (n : Int)

/-- The whole number that a text states. -/
def readInteger (s : String) : Except SettingsError Int :=
  if digitLimit < (leadingDigits s.toList).length then .error .longInteger
  else
    match (cleaned? s.toList).bind plainInteger? with
    | some n => .ok n
    | none => .error .notInteger

/-! ### Settings -/

/-- The file in which variables are looked up that the environment does not have. -/
def variableFile : Path := ⟨0, [".env"]⟩

/-- The value of a name, whatever the case; the latest counts. -/
def latest? {α : Type} (vs : List (String × α)) (name : String) : Option α :=
  (vs.reverse.find? fun v => v.1.toLower = name.toLower).map Prod.snd

/-- A setting: its default if it is absent, else what its variable states. -/
def readSetting {α : Type} (v : Option String) (fallback : α)
    (read : String → Except SettingsError α) : Except SettingsError α :=
  match v with
  | none => .ok fallback
  | some s => read s

/-- The error of a setting, if it has one. -/
def settingError {α : Type} : Except SettingsError α → List SettingsError
  | .ok _ => []
  | .error e => [e]

/-- The settings that variables state; those of the environment win over those bound
in the file. -/
def Settings.ofVariables (environment : Variables) (bound : VariableFile.Bound) :
    Except (List SettingsError) Settings :=
  let find (name : String) : Option String :=
    (latest? environment name).or (latest? bound name).join
  let debug := readSetting (find "PREFER_BIND_DEBUG") false readBoolean
  let size := readSetting (find "PREFER_BIND_MAX_FILE_SIZE") (256 * 1024) readInteger
  match debug, size with
  | .ok d, .ok s => .ok ⟨d, s⟩
  | _, _ => .error (settingError debug ++ settingError size)

/-- The text of the file of variables in a file tree, empty if there is no such file. -/
def FileTree.variableText (t : FileTree) : Except Utf8.Fault String :=
  match t.read variableFile with
  | .error _ => .ok ""
  | .ok bytes => Utf8.decode bytes

/-- The settings in an environment and a file tree. -/
def Settings.read (environment : Variables) (t : FileTree) : Except SettingsFailure Settings :=
  match t.variableText with
  | .error fault => .error (.undecodable fault)
  | .ok text =>
      let bound := VariableFile.bindAll environment (VariableFile.readBindings text)
      match Settings.ofVariables environment bound with
      | .error es => .error (.invalid es)
      | .ok s => .ok s

end BindLint
