import BindLint.Options
import BindLint.Value

/-!
# Resolving options

Options arrive as a plain object.  Each of the three has a name in camel case and
one in snake case; the former counts if both are there, and then the latter is an
unknown name like any other.  All faults are collected: first those of the three
options in their order, then one for each unknown name in the order of the
object.

A text with half of a surrogate pair is no name of a call, and as the wording of this
fault would have to quote it, there is none: an error that lists it cannot be told, and is
not reported as one of the configuration.  An object with a member that is named by such a
text is refused as a whole.

## Main definitions

* `OptionFault`, `OptionError` — what can be wrong with a member.
* `Options.resolve` — the options that a value states, or everything wrong with it.
* `Overrides` — options given on the command line, which win over a file.
-/

namespace BindLint

/-! ### Faults -/

/-- What is wrong with a member of an options object. -/
inductive OptionFault where
  /-- A truth value was expected. -/
  | notBoolean : OptionFault
  /-- A list was expected. -/
  | notArray : OptionFault
  /-- The list is empty. -/
  | emptyArray : OptionFault
  /-- An element of the list is no text but of this type. -/
  | notString (typeName : String) : OptionFault
  /-- An element of the list is no name. -/
  | notIdentifier (name : String) : OptionFault
  /-- An element of the list holds half of a surrogate pair. -/
  | unpairedName (points : List Nat) : OptionFault
  /-- There is no option of this name. -/
  | unknown : OptionFault
  deriving DecidableEq, Repr, Inhabited

namespace OptionFault

/-- The class of a fault. -/
def code : OptionFault → String
  | .notBoolean => "bool_type"
  | .unknown => "extra_forbidden"
  | _ => "value_error"

/-- How a fault is worded, unless it would have to quote half of a surrogate pair. -/
def message : OptionFault → Option String
  | .notBoolean => some "Input should be a valid boolean"
  | .notArray => some "Value error, must be an array of strings"
  | .emptyArray => some "Value error, must contain at least one name"
  | .notString typeName => some ("Value error, expected a string, got " ++ typeName)
  | .notIdentifier name => some ("Value error, '" ++ name ++ "' is not a bare identifier name")
  | .unpairedName _ => none
  | .unknown => some "Extra inputs are not permitted"

end OptionFault

/-- A fault and the name of the member that has it. -/
structure OptionError where
  /-- The name of the member. -/
  key : String
  /-- What is wrong with it. -/
  fault : OptionFault
  deriving DecidableEq, Repr, Inhabited

/-- How the error of a member is worded, if its fault is. -/
def OptionError.message (e : OptionError) : Option String :=
  e.fault.message.map fun text => (if e.key = "" then "options" else e.key) ++ ": " ++ text

/-- Why a value states no options. -/
inductive OptionsError where
  /-- It is no object but of this type. -/
  | notObject (typeName : String) : OptionsError
  /-- Its members have faults. -/
  | invalid (errors : List OptionError) : OptionsError
  /-- It has a member whose name holds half of a surrogate pair. -/
  | misnamed : OptionsError
  deriving DecidableEq, Repr, Inhabited

namespace OptionsError

/-- How it is worded that the name of a member is no text. -/
def misnamedText : String :=
  "Input should be a valid string, unable to parse raw data as a unicode string"

/-- How an error is worded, if everything that it lists is. -/
def message : OptionsError → Option String
  | .notObject typeName => some ("Rule options must be an object, got " ++ typeName)
  | .invalid errors =>
      (errors.mapM OptionError.message).map fun texts =>
        "Invalid prefer-bind options: " ++ String.intercalate "; " texts
  | .misnamed => some ("Invalid prefer-bind options: options: " ++ misnamedText)

/-- The faults of members. -/
def errors : OptionsError → List OptionError
  | .notObject _ => []
  | .invalid es => es
  | .misnamed => []

end OptionsError

/-! ### Names of options -/

/-- The two names of an option. -/
structure OptionKey where
  /-- The name in camel case. -/
  camel : String
  /-- The name in snake case. -/
  snake : String
  deriving DecidableEq, Repr

namespace OptionKey

/-- Report only in calls that hold on to their callbacks. -/
def onlyLongLived : OptionKey := ⟨"onlyInLongLivedContexts", "only_in_long_lived_contexts"⟩

/-- The names of these calls. -/
def contexts : OptionKey := ⟨"longLivedContexts", "long_lived_contexts"⟩

/-- Report async closures too. -/
def includeAsync : OptionKey := ⟨"includeAsync", "include_async"⟩

/-- All options in order. -/
def all : List OptionKey := [onlyLongLived, contexts, includeAsync]

/-- The member that states an option, with the name that was used. -/
def find? (k : OptionKey) (ms : List (String × Value)) : Option (String × Value) :=
  match Value.lookup k.camel ms with
  | some v => some (k.camel, v)
  | none => (Value.lookup k.snake ms).map fun v => (k.snake, v)

/-- Whether a name states this option in an object. -/
def uses (k : OptionKey) (ms : List (String × Value)) (name : String) : Bool :=
  name = k.camel || (name = k.snake && (Value.lookup k.camel ms).isNone)

end OptionKey

/-! ### Single options -/

/-- Whether a character can start a name. -/
def isNameStart (c : Char) : Bool := c.isAlpha || c = '_' || c = '$'

/-- Whether a character can stand in a name. -/
def isNameChar (c : Char) : Bool := c.isAlphanum || c = '_' || c = '$'

/-- Whether characters make up a name. -/
def isBareName : List Char → Bool
  | [] => false
  | c :: cs => isNameStart c && cs.all isNameChar

/-- Whether a text is taken for a name: it is one, or one with a line feed after it. -/
def acceptsName (name : String) : Bool :=
  isBareName name.toList ||
    (name.toList.getLast? = some '\n' && isBareName name.toList.dropLast)

/-- The name that an element of a list states. -/
def readName : Value → Except OptionFault String
  | .str name => if acceptsName name then .ok name else .error (.notIdentifier name)
  | .unpaired points => .error (.unpairedName points)
  | v => .error (.notString v.typeName)

/-- The names that a value states, in order; the first bad element decides. -/
def readNames : Value → Except OptionFault (List String)
  | .arr [] => .error .emptyArray
  | .arr vs => vs.mapM readName
  | _ => .error .notArray

/-- The truth value that a value states. -/
def readFlag : Value → Except OptionFault Bool
  | .bool b => .ok b
  | _ => .error .notBoolean

/-- An option of an object: its default if it is absent, else what its member
states. -/
def readOption {α : Type} (ms : List (String × Value)) (k : OptionKey) (fallback : α)
    (read : Value → Except OptionFault α) : Except OptionError α :=
  match k.find? ms with
  | none => .ok fallback
  | some (key, v) =>
      match read v with
      | .ok a => .ok a
      | .error fault => .error ⟨key, fault⟩

/-- The error of a result, if it is one. -/
def errorOf {α : Type} : Except OptionError α → List OptionError
  | .ok _ => []
  | .error e => [e]

/-! ### Whole objects -/

/-- The unknown names of an object, in order. -/
def unknownKeys (ms : List (String × Value)) : List String :=
  (ms.map Prod.fst).filter fun name => !OptionKey.all.any fun k => k.uses ms name

namespace Options

/-- Reading the policy. -/
def readPolicy (ms : List (String × Value)) : Except OptionError Bool :=
  readOption ms .onlyLongLived true readFlag

/-- Reading the contexts. -/
def readContexts (ms : List (String × Value)) : Except OptionError (List String) :=
  readOption ms .contexts (sortNames defaultContexts) fun v => (readNames v).map sortNames

/-- Reading whether async closures count. -/
def readAsync (ms : List (String × Value)) : Except OptionError Bool :=
  readOption ms .includeAsync false readFlag

/-- The options that the members of an object state. -/
def ofMembers (ms : List (String × Value)) : Except OptionsError Options :=
  match readPolicy ms, readContexts ms, readAsync ms, unknownKeys ms with
  | .ok onlyLongLived, .ok contexts, .ok includeAsync, [] =>
      .ok ⟨onlyLongLived, contexts, includeAsync⟩
  | only, names, async, unknown =>
      .error (.invalid (errorOf only ++ errorOf names ++ errorOf async ++
        unknown.map fun key => ⟨key, .unknown⟩))

/-- The options that an object with misnamed members states: none.  What cannot be told
of its other members comes first. -/
def ofMisnamed (ms : List (String × Value)) : Except OptionsError Options :=
  match ofMembers ms with
  | .ok _ => .error .misnamed
  | .error e => .error (if e.message.isSome then .misnamed else e)

/-- The options that a value states; the absent value states the defaults. -/
def resolve : Value → Except OptionsError Options
  | .null => .ok {}
  | .obj ms => ofMembers ms
  | .misnamed ms _ => ofMisnamed ms
  | v => .error (.notObject v.typeName)

/-- Options as an object. -/
def toValue (o : Options) : Value :=
  .obj
    [ ("only_in_long_lived_contexts", .bool o.onlyLongLived),
      ("long_lived_contexts", .texts o.contexts),
      ("include_async", .bool o.includeAsync) ]

end Options

/-! ### Overrides -/

/-- Options given on the command line. -/
structure Overrides where
  /-- Report in all calls, or only in those that hold on to their callbacks. -/
  allContexts : Option Bool := none
  /-- The names of the latter; none given if empty. -/
  contexts : List String := []
  /-- Report async closures too. -/
  includeAsync : Option Bool := none
  deriving DecidableEq, Repr, Inhabited

/-- An object in which an option has a value, under its name in camel case only. -/
def OptionKey.set (k : OptionKey) (v : Value) (ms : List (String × Value)) :
    List (String × Value) :=
  Value.insert k.camel v (Value.erase k.snake ms)

/-- An object with a setting, if there is one. -/
def OptionKey.setIf (k : OptionKey) (v : Option Value) (ms : List (String × Value)) :
    List (String × Value) :=
  match v with
  | none => ms
  | some v => k.set v ms

/-- An options object with the overrides put over it. -/
def Overrides.apply (o : Overrides) (ms : List (String × Value)) : List (String × Value) :=
  OptionKey.includeAsync.setIf (o.includeAsync.map .bool)
    (OptionKey.contexts.setIf (if o.contexts.isEmpty then none else some (.texts o.contexts))
      (OptionKey.onlyLongLived.setIf (o.allContexts.map fun b => .bool (!b)) ms))

/-- An options object, which may have misnamed members, with the overrides put over
it. -/
def Overrides.applyTo (o : Overrides) : Value → Value
  | .obj ms => .obj (o.apply ms)
  | .misnamed ms strays => .misnamed (o.apply ms) strays
  | v => v

/-! ### The schema -/

/-- The schema of the options, under their names in camel case. -/
def optionsSchema : Value :=
  let flag (key title description : String) (byDefault : Bool) : String × Value :=
    (key, .obj [("default", .bool byDefault), ("description", .str description),
      ("title", .str title), ("type", .str "boolean")])
  .obj
    [ ("additionalProperties", .bool false),
      ("description", .str "Resolved, immutable rule options."),
      ("properties", .obj
        [ flag "onlyInLongLivedContexts" "Onlyinlonglivedcontexts"
            "Only report closures passed to a known long-lived context" true,
          ("longLivedContexts", .obj
            [ ("default", .texts (sortNames defaultContexts)),
              ("description", .str "Callee names known to hold on to callbacks"),
              ("items", .obj [("type", .str "string")]),
              ("title", .str "Longlivedcontexts"),
              ("type", .str "array"),
              ("uniqueItems", .bool true) ]),
          flag "includeAsync" "Includeasync" "Also report async closures" false ]),
      ("title", .str "RuleOptions"),
      ("type", .str "object") ]

end BindLint
