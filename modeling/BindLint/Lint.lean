import BindLint.Files.Path
import BindLint.Rule

/-!
# Linting one text

One pass over a text parses it, refuses it if the tree has an error, and
otherwise hands every closure to the rule in the order of the tree.  The parser
is a parameter: any function from a path and a text to a tree.

## Main definitions

* `Language.ofPath?` — the language of a file, by the ending of its name.
* `Node.firstFault` — the node at which a syntax error is reported.
* `lint` — one pass over a text.
-/

namespace BindLint

/-! ### Languages -/

/-- The languages that can be linted. -/
inductive Language where
  /-- JavaScript. -/
  | javascript : Language
  /-- TypeScript. -/
  | typescript : Language
  /-- TypeScript with markup. -/
  | tsx : Language
  deriving DecidableEq, Repr, Inhabited

/-- The name of a language. -/
def Language.name : Language → String
  | .javascript => "javascript"
  | .typescript => "typescript"
  | .tsx => "tsx"

/-- The endings of file names, with the language each stands for. -/
def languageSuffixes : List (String × Language) :=
  [(".cjs", .javascript), (".cts", .typescript), (".js", .javascript), (".jsx", .javascript),
    (".mjs", .javascript), (".mts", .typescript), (".ts", .typescript), (".tsx", .tsx)]

/-- The language of a file, by the ending of its name. -/
def Language.ofPath? (p : Path) : Option Language :=
  (languageSuffixes.find? fun s => s.1 = p.suffix).map Prod.snd

/-- Whether a file can be linted. -/
def Path.isScannable (p : Path) : Bool := (Language.ofPath? p).isSome

/-- A parser: the tree of a text in the language of a path. -/
abbrev Parser := Path → String → Node

/-! ### Syntax errors -/

/-- A text that does not parse. -/
structure SyntaxError where
  /-- The file. -/
  path : Path
  /-- The line, from one. -/
  line : Nat
  /-- The byte column, from zero. -/
  column : Nat
  deriving DecidableEq, Repr, Inhabited

/-- How a syntax error is worded. -/
def SyntaxError.message (e : SyntaxError) : String :=
  "Syntax error in " ++ e.path.text ++ " at " ++ toString e.line ++ ":" ++ toString e.column

namespace Node

mutual

/-- The node at which a syntax error is reported: the node itself if it is at
fault, else what is found in the first child with a recorded error. -/
def firstFault : Node → Node
  | mk l cs => if l.isError || l.isMissing then mk l cs else (firstFaultIn? cs).getD (mk l cs)

/-- What is found in the first node with a recorded error. -/
def firstFaultIn? : List Node → Option Node
  | [] => none
  | c :: cs => if c.hasError || c.label.isMissing then some c.firstFault else firstFaultIn? cs

end

end Node

/-- The syntax error of a tree with an error. -/
def SyntaxError.ofTree (path : Path) (src : Source) (tree : Node) : SyntaxError :=
  let p := src.point tree.firstFault.span.start
  ⟨path, p.row + 1, p.column⟩

/-! ### Passes -/

/-- Why a pass stopped before its end. -/
inductive LintError where
  /-- The text does not parse. -/
  | unparsable (e : SyntaxError) : LintError
  /-- A closure could not be checked. -/
  | unchecked (e : CheckError) : LintError
  deriving DecidableEq, Repr

/-- How an error is worded. -/
def LintError.message : LintError → String
  | .unparsable e => e.message
  | .unchecked e => e.message

/-- One pass over a text. -/
structure Pass where
  /-- The hits in order, up to where the pass stopped. -/
  hits : List Hit
  /-- Why it stopped before its end, if it did. -/
  stopped : Option LintError
  deriving DecidableEq, Repr, Inhabited

namespace Pass

/-- A pass with one more hit in front. -/
def cons (h : Hit) (p : Pass) : Pass := { p with hits := h :: p.hits }

/-- The findings of a pass, if it came to its end. -/
def findings (p : Pass) : Except LintError (List Finding) :=
  match p.stopped with
  | some e => .error e
  | none => .ok (p.hits.map Hit.finding)

/-- What the log says about a pass. -/
def records (p : Pass) : List Log.Record := p.hits.map Hit.record

end Pass

/-- Whether a node is handed to the rule. -/
def Node.isClosure (n : Node) : Bool := n.named && closureKinds.contains n.kind

/-- The pass over some places. -/
def checkPlaces (o : Options) (src : Source) : List Place → Pass
  | [] => ⟨[], none⟩
  | p :: ps =>
      if p.node.isClosure then
        match check o src p with
        | .error e => ⟨[], some (.unchecked e)⟩
        | .ok none => checkPlaces o src ps
        | .ok (some h) => (checkPlaces o src ps).cons h
      else checkPlaces o src ps

/-- The pass over a tree. -/
def lintTree (o : Options) (path : Path) (src : Source) (tree : Node) : Pass :=
  if tree.hasError then ⟨[], some (.unparsable (.ofTree path src tree))⟩
  else checkPlaces o src tree.places

/-- One pass over a text.  A file that cannot be linted has no findings. -/
def lint (parse : Parser) (o : Options) (path : Path) (text : String) : Pass :=
  if path.isScannable then lintTree o path (.ofText text) (parse path text) else ⟨[], none⟩

end BindLint
