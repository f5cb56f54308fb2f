import BindLint.Syntax.Node
import BindLint.Value

/-!
# Trees as values

A parser outside the program hands its trees over as plain values.  A node is an
object with these members:

* `t`, `s`, `e` — kind, first offset, and first offset after it;
* `a` — whether it is a token, which the grammar does not name;
* `f` — the field it hangs under;
* `c` — its children in order;
* `err`, `miss` — whether it is an error, or was made up by the parser;
* `he` — whether an error is recorded at it or below it, where that is not
  already said by `err`, `miss` and the children.

## Main definitions

* `Node.ofValue?` — the tree that a value describes.
-/

namespace BindLint

/-- What is known about a node while its members are read. -/
structure Draft where
  /-- The kind. -/
  kind : Option String := none
  /-- The first offset. -/
  start : Option Nat := none
  /-- The first offset after it. -/
  stop : Option Nat := none
  /-- Whether it is a token. -/
  token : Bool := false
  /-- The field it hangs under. -/
  field : Option String := none
  /-- Whether it is an error. -/
  isError : Bool := false
  /-- Whether it was made up. -/
  isMissing : Bool := false
  /-- Whether an error is recorded, if that is said. -/
  hasError : Option Bool := none
  /-- The children. -/
  children : List Node := []

/-- An offset that a value states. -/
def Value.offset? (v : Value) : Option Nat := v.int?.map Int.toNat

/-- A draft with one more member read, the children apart. -/
def Draft.set (d : Draft) (name : String) (v : Value) : Draft :=
  if name = "t" then { d with kind := v.str? }
  else if name = "s" then { d with start := v.offset? }
  else if name = "e" then { d with stop := v.offset? }
  else if name = "a" then { d with token := v.bool?.getD false }
  else if name = "f" then { d with field := v.str? }
  else if name = "err" then { d with isError := v.bool?.getD false }
  else if name = "miss" then { d with isMissing := v.bool?.getD false }
  else if name = "he" then { d with hasError := v.bool? }
  else d

/-- The node of a draft that says what a node must say. -/
def Draft.finish (d : Draft) : Option Node :=
  match d.kind, d.start, d.stop with
  | some kind, some start, some stop =>
      let l : Label :=
        { kind := ⟨kind⟩, span := ⟨start, stop⟩, named := !d.token
          field := d.field.map Field.mk, isError := d.isError, isMissing := d.isMissing }
      match d.hasError with
      | none => some (.ofLabel l d.children)
      | some b => some (.mk { l with hasError := b } d.children)
  | _, _, _ => none

namespace Node

mutual

/-- The tree that a value describes. -/
def ofValue? : Value → Option Node
  | .obj ms => (draft? {} ms).bind Draft.finish
  | _ => none

/-- A draft with the members of an object read. -/
def draft? (d : Draft) : List (String × Value) → Option Draft
  | [] => some d
  | (name, v) :: rest =>
      if name = "c" then
        match childrenOf? v with
        | some ns => draft? { d with children := ns } rest
        | none => none
      else draft? (d.set name v) rest

/-- The trees that the elements of a list describe. -/
def childrenOf? : Value → Option (List Node)
  | .arr vs => ofValues? vs
  | _ => none

/-- The trees that some values describe. -/
def ofValues? : List Value → Option (List Node)
  | [] => some []
  | v :: vs =>
      match ofValue? v, ofValues? vs with
      | some n, some ns => some (n :: ns)
      | _, _ => none

end

end Node
end BindLint
