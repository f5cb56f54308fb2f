import BindLint.Proofs.Names
import BindLint.Proofs.Steps

/-!
# The options that an object states

An option has two names, and an object states it under the one in camel case, or else under the one
in snake case.  The value that it is stated with is accepted or refused: a flag has to be a truth
value, and the contexts have to be a list of names that is not empty.  In such a list the first
element that is no name decides what is said.

Reading an option of an object therefore gives the value that is stated, the default if none is, or
the error at the name that is used.

All that can be wrong is put into words, with one exception: an element of the contexts that holds
half of a surrogate pair cannot be quoted.  The error of an object with such contexts cannot be
told.

## Main definitions

* `OptionKey.StatedBy` — the member of an object that states an option.
* `OptionKey.Accepts`, `OptionKey.Refuses` — which values an option can have, and what is wrong with
  the others.
* `OptionKey.Settles` — what an option is in an object.
* `Reports` — the errors of options, in order.
* `UnpairedContexts` — the contexts of an object cannot be quoted.

## Main results

* `OptionKey.find?_eq_some_iff` — the search for a member finds the one that states the option.
* `readNames_eq_ok_iff`, `readNames_eq_error_iff` — what a list of names gives.
* `OptionKey.readOption_eq_ok_iff`, `OptionKey.readOption_eq_error_iff` — **reading an option gives
  what is stated, the default, or what is wrong.**
-/

namespace BindLint

/-! ### The member that states an option -/

theorem Value.lookup_eq_none_iff {name : String} {ms : List (String × Value)} :
    lookup name ms = none ↔ name ∉ ms.map Prod.fst := by
  rw [lookup, Option.map_eq_none_iff, List.find?_eq_none]
  constructor
  · intro h hmem
    obtain ⟨m, hm, rfl⟩ := List.mem_map.1 hmem
    exact h m hm (decide_eq_true rfl)
  · intro h m hm hname
    exact h (of_decide_eq_true hname ▸ List.mem_map_of_mem hm)

theorem Value.texts_inj {names names' : List String} :
    texts names = texts names' ↔ names = names' := by
  rw [texts, texts, Value.arr.injEq, List.map_inj_right fun _ _ => Value.str.inj]

namespace OptionKey

variable {k : OptionKey} {ms : List (String × Value)}

/-- The name and the value of the member that states an option: the one with the name in camel
case, and only if there is none the one with the name in snake case. -/
inductive StatedBy (k : OptionKey) (ms : List (String × Value)) : String → Value → Prop where
  /-- Under the name in camel case. -/
  | camel {v : Value} (h : Value.lookup k.camel ms = some v) : StatedBy k ms k.camel v
  /-- Under the name in snake case. -/
  | snake {v : Value} (hcamel : Value.lookup k.camel ms = none)
      (h : Value.lookup k.snake ms = some v) : StatedBy k ms k.snake v

theorem find?_eq_some_iff {key : String} {v : Value} :
    k.find? ms = some (key, v) ↔ k.StatedBy ms key v := by
  unfold find?
  cases hcamel : Value.lookup k.camel ms with
  | some w =>
    constructor
    · rintro ⟨⟩
      exact .camel hcamel
    · rintro (h | ⟨hnone, -⟩)
      · cases hcamel.symm.trans h
        rfl
      · cases hcamel.symm.trans hnone
  | none =>
    constructor
    · intro h
      obtain ⟨w, hw, heq⟩ := Option.map_eq_some_iff.1 h
      cases heq
      exact .snake hcamel hw
    · rintro (h | ⟨-, h⟩)
      · cases hcamel.symm.trans h
      · rw [h]
        rfl

theorem find?_eq_none_iff : k.find? ms = none ↔ ∀ key v, ¬k.StatedBy ms key v := by
  rw [Option.eq_none_iff_forall_ne_some, Prod.forall]
  exact forall₂_congr fun key v => not_congr find?_eq_some_iff

/-- An option is stated by one member at most. -/
theorem StatedBy.unique {key key' : String} {v v' : Value} (h : k.StatedBy ms key v)
    (h' : k.StatedBy ms key' v') : key = key' ∧ v = v' := by
  have hsame := (find?_eq_some_iff.2 h).symm.trans (find?_eq_some_iff.2 h')
  exact Prod.mk.inj (Option.some.inj hsame)

end OptionKey

/-! ### The values of options -/

/-- What is wrong with an element of a list of names. -/
inductive NameFault : Value → OptionFault → Prop where
  /-- It is no text. -/
  | notString {v : Value} (hstr : ∀ s, v ≠ .str s) (hunpaired : ∀ points, v ≠ .unpaired points) :
      NameFault v (.notString v.typeName)
  /-- It is a text that is no name. -/
  | notIdentifier {name : String} (h : ¬MatchesName name) :
      NameFault (.str name) (.notIdentifier name)
  /-- It is a text with half of a surrogate pair. -/
  | unpaired {points : List Nat} : NameFault (.unpaired points) (.unpairedName points)

theorem readName_eq_ok_iff {v : Value} {name : String} :
    readName v = .ok name ↔ v = .str name ∧ MatchesName name := by
  cases v with
  | str s =>
    rw [readName, ← acceptsName_iff]
    split
    · next h =>
      rw [Except.ok.injEq, Value.str.injEq]
      exact ⟨fun heq => ⟨heq, heq ▸ h⟩, And.left⟩
    · next h =>
      refine iff_of_false nofun ?_
      rintro ⟨heq, haccepts⟩
      cases heq
      exact h haccepts
  | _ => exact iff_of_false nofun nofun

theorem readName_eq_error_iff {v : Value} {f : OptionFault} :
    readName v = .error f ↔ NameFault v f := by
  constructor
  · intro h
    cases v with
    | str s =>
      rw [readName] at h
      split at h
      · cases h
      · next hnot =>
        cases h
        exact .notIdentifier (mt acceptsName_iff.2 hnot)
    | unpaired points =>
      cases h
      exact .unpaired
    | _ =>
      cases h
      exact .notString nofun nofun
  · rintro (⟨hstr, hunpaired⟩ | hnot | _)
    · cases v with
      | str s => exact absurd rfl (hstr s)
      | unpaired points => exact absurd rfl (hunpaired points)
      | _ => rfl
    · rw [readName, if_neg (mt acceptsName_iff.1 hnot)]
    · rfl

theorem mapM_readName_eq_ok_iff {vs : List Value} {names : List String} :
    vs.mapM readName = .ok names ↔ vs = names.map .str ∧ ∀ name ∈ names, MatchesName name := by
  induction vs generalizing names with
  | nil =>
    rw [List.mapM_nil]
    constructor
    · intro h
      cases h
      exact ⟨rfl, List.forall_mem_nil _⟩
    · rintro ⟨h, -⟩
      rw [List.map_eq_nil_iff.1 h.symm]
      rfl
  | cons v vs ih =>
    rw [List.mapM_cons]
    constructor
    · intro h
      obtain ⟨name, hname, h⟩ := exists_of_bind_ok h
      obtain ⟨rest, hrest, h⟩ := exists_of_bind_ok h
      cases h
      obtain ⟨rfl, hmatch⟩ := readName_eq_ok_iff.1 hname
      obtain ⟨rfl, hall⟩ := ih.1 hrest
      exact ⟨rfl, List.forall_mem_cons.2 ⟨hmatch, hall⟩⟩
    · rintro ⟨h, hall⟩
      cases names with
      | nil => cases h
      | cons name names =>
        obtain ⟨rfl, rfl⟩ := List.cons.inj h
        obtain ⟨hmatch, hrest⟩ := List.forall_mem_cons.1 hall
        rw [bind_of_ok (readName_eq_ok_iff.2 ⟨rfl, hmatch⟩), bind_of_ok (ih.2 ⟨rfl, hrest⟩)]
        rfl

/-- The first element that is no name decides. -/
theorem mapM_readName_eq_error_iff {vs : List Value} {f : OptionFault} :
    vs.mapM readName = .error f ↔
      ∃ (names : List String) (v : Value) (rest : List Value),
        vs = names.map .str ++ v :: rest ∧ (∀ name ∈ names, MatchesName name) ∧ NameFault v f := by
  rw [mapM_eq_error_iff]
  constructor
  · rintro ⟨front, v, rest, rfl, ⟨names, hnames⟩, hv⟩
    obtain ⟨rfl, hall⟩ := mapM_readName_eq_ok_iff.1 hnames
    exact ⟨names, v, rest, rfl, hall, readName_eq_error_iff.1 hv⟩
  · rintro ⟨names, v, rest, rfl, hall, hv⟩
    exact ⟨_, v, rest, rfl, ⟨names, mapM_readName_eq_ok_iff.2 ⟨rfl, hall⟩⟩,
      readName_eq_error_iff.2 hv⟩

namespace OptionKey

/-- The values that an option can have. -/
inductive Accepts : OptionKey → Value → Prop where
  /-- A flag has a truth value. -/
  | flag {k : OptionKey} {b : Bool} (hk : k ≠ contexts) : Accepts k (.bool b)
  /-- The contexts are a list of names with at least one. -/
  | names {names : List String} (hne : names ≠ []) (h : ∀ name ∈ names, MatchesName name) :
      Accepts contexts (.texts names)

/-- What is wrong with a value that an option cannot have. -/
inductive Refuses : OptionKey → Value → OptionFault → Prop where
  /-- A flag is no truth value. -/
  | flag {k : OptionKey} {v : Value} (hk : k ≠ contexts) (h : ∀ b, v ≠ .bool b) :
      Refuses k v .notBoolean
  /-- The contexts are no list. -/
  | notArray {v : Value} (h : ∀ vs, v ≠ .arr vs) : Refuses contexts v .notArray
  /-- There are no contexts. -/
  | empty : Refuses contexts (.arr []) .emptyArray
  /-- Behind some names something is wrong with an element. -/
  | element {names : List String} {v : Value} {rest : List Value} {f : OptionFault}
      (h : ∀ name ∈ names, MatchesName name) (hv : NameFault v f) :
      Refuses contexts (.arr (names.map .str ++ v :: rest)) f

theorem accepts_texts_iff {names : List String} :
    contexts.Accepts (.texts names) ↔ names ≠ [] ∧ ∀ name ∈ names, MatchesName name := by
  constructor
  · intro h
    generalize hv : Value.texts names = v at h
    cases h with
    | flag hk => exact absurd rfl hk
    | names hne hall =>
      obtain rfl := Value.texts_inj.1 hv
      exact ⟨hne, hall⟩
  · rintro ⟨hne, hall⟩
    exact .names hne hall

end OptionKey

theorem readFlag_eq_ok_iff {v : Value} {b : Bool} : readFlag v = .ok b ↔ v = .bool b := by
  cases v with
  | bool c => rw [readFlag, Except.ok.injEq, Value.bool.injEq]
  | _ => exact iff_of_false nofun nofun

theorem readFlag_eq_error_iff {k : OptionKey} (hk : k ≠ .contexts) {v : Value} {f : OptionFault} :
    readFlag v = .error f ↔ k.Refuses v f := by
  constructor
  · intro h
    cases v with
    | bool b => cases h
    | _ =>
      cases h
      exact .flag hk nofun
  · intro h
    cases h with
    | flag _ hv =>
      cases v with
      | bool b => exact absurd rfl (hv b)
      | _ => rfl
    | _ => exact absurd rfl hk

theorem readNames_eq_ok_iff {v : Value} {names : List String} :
    readNames v = .ok names ↔
      v = .texts names ∧ names ≠ [] ∧ ∀ name ∈ names, MatchesName name := by
  cases v with
  | arr vs =>
    cases vs with
    | nil =>
      refine iff_of_false nofun ?_
      rintro ⟨h, hne, -⟩
      exact hne (List.map_eq_nil_iff.1 (Value.arr.inj h).symm)
    | cons v vs =>
      rw [readNames, mapM_readName_eq_ok_iff, Value.texts, Value.arr.injEq]
      · constructor
        · rintro ⟨h, hall⟩
          refine ⟨h, ?_, hall⟩
          rintro rfl
          cases h
        · rintro ⟨h, -, hall⟩
          exact ⟨h, hall⟩
      · exact nofun
  | _ => exact iff_of_false nofun nofun

theorem readNames_eq_error_iff {v : Value} {f : OptionFault} :
    readNames v = .error f ↔ OptionKey.contexts.Refuses v f := by
  constructor
  · intro h
    cases v with
    | arr vs =>
      cases vs with
      | nil =>
        cases h
        exact .empty
      | cons v vs =>
        change (v :: vs).mapM readName = .error f at h
        obtain ⟨names, w, rest, hvs, hall, hw⟩ := mapM_readName_eq_error_iff.1 h
        rw [hvs]
        exact .element hall hw
    | _ =>
      cases h
      exact .notArray nofun
  · intro h
    cases h with
    | flag hk => exact absurd rfl hk
    | notArray hv =>
      cases v with
      | arr vs => exact absurd rfl (hv vs)
      | _ => rfl
    | empty => rfl
    | @element names w rest _ hall hw =>
      have herror : (names.map Value.str ++ w :: rest).mapM readName = .error f :=
        mapM_readName_eq_error_iff.2 ⟨names, w, rest, rfl, hall, hw⟩
      cases hvs : names.map Value.str ++ w :: rest with
      | nil => simp at hvs
      | cons u us =>
        rw [hvs] at herror
        exact herror

/-- A way to read the values of an option: it gives a result for those that the option accepts, and
otherwise says what is wrong. -/
structure OptionKey.ReadBy {α : Type} (k : OptionKey) (read : Value → Except OptionFault α) :
    Prop where
  accepts : ∀ v, (∃ a, read v = .ok a) ↔ k.Accepts v
  refuses : ∀ v f, read v = .error f ↔ k.Refuses v f

theorem readBy_readFlag {k : OptionKey} (hk : k ≠ .contexts) : k.ReadBy readFlag where
  accepts v := by
    constructor
    · rintro ⟨b, h⟩
      rw [readFlag_eq_ok_iff.1 h]
      exact .flag hk
    · intro h
      cases h with
      | flag => exact ⟨_, rfl⟩
      | names => exact absurd rfl hk
  refuses _ _ := readFlag_eq_error_iff hk

theorem readBy_readNames :
    OptionKey.contexts.ReadBy fun v => (readNames v).map sortNames where
  accepts v := by
    constructor
    · rintro ⟨listing, h⟩
      obtain ⟨names, hnames, -⟩ := exists_of_map_ok h
      obtain ⟨rfl, hne, hall⟩ := readNames_eq_ok_iff.1 hnames
      exact .names hne hall
    · intro h
      cases h with
      | flag hk => exact absurd rfl hk
      | @names names hne hall =>
        refine ⟨sortNames names, ?_⟩
        rw [readNames_eq_ok_iff.2 ⟨rfl, hne, hall⟩]
        rfl
  refuses v f := by
    rw [← readNames_eq_error_iff]
    cases readNames v with
    | error g => exact ⟨fun h => h ▸ rfl, fun h => h ▸ rfl⟩
    | ok names => exact iff_of_false nofun nofun

/-! ### One option of an object -/

namespace OptionKey

variable {α : Type} {k : OptionKey} {ms : List (String × Value)} {fallback : α}
  {read : Value → Except OptionFault α}

/-- What an option is in an object: what its member states, and the default if there is none. -/
def Settles (k : OptionKey) (ms : List (String × Value)) (states : Value → α → Prop)
    (fallback a : α) : Prop :=
  (∃ key v, k.StatedBy ms key v ∧ states v a) ∨ (∀ key v, ¬k.StatedBy ms key v) ∧ a = fallback

/-- Nothing is wrong with an option of an object. -/
def SoundIn (k : OptionKey) (ms : List (String × Value)) : Prop :=
  ∀ key v, k.StatedBy ms key v → k.Accepts v

theorem readOption_of_statedBy {key : String} {v : Value} (h : k.StatedBy ms key v) :
    readOption ms k fallback read = (read v).mapError fun f => ⟨key, f⟩ := by
  rw [readOption, find?_eq_some_iff.2 h]
  dsimp only
  cases read v <;> rfl

theorem readOption_of_absent (h : ∀ key v, ¬k.StatedBy ms key v) :
    readOption ms k fallback read = .ok fallback := by
  rw [readOption, find?_eq_none_iff.2 h]

/-- An option is stated or absent. -/
theorem statedBy_or_absent (k : OptionKey) (ms : List (String × Value)) :
    (∃ key v, k.StatedBy ms key v) ∨ ∀ key v, ¬k.StatedBy ms key v := by
  by_cases h : ∃ key v, k.StatedBy ms key v
  · exact Or.inl h
  · exact Or.inr fun key v hv => h ⟨key, v, hv⟩

theorem readOption_eq_ok_iff {a : α} :
    readOption ms k fallback read = .ok a ↔
      k.Settles ms (fun v a => read v = .ok a) fallback a := by
  unfold Settles
  rcases statedBy_or_absent k ms with ⟨key, v, h⟩ | h
  · rw [readOption_of_statedBy h, mapError_eq_ok_iff]
    constructor
    · intro ha
      exact Or.inl ⟨key, v, h, ha⟩
    · rintro (⟨key', v', h', ha⟩ | ⟨hno, -⟩)
      · obtain ⟨-, rfl⟩ := h.unique h'
        exact ha
      · exact absurd h (hno key v)
  · rw [readOption_of_absent h, Except.ok.injEq]
    constructor
    · intro ha
      exact Or.inr ⟨h, ha.symm⟩
    · rintro (⟨key', v', h', -⟩ | ⟨-, ha⟩)
      · exact absurd h' (h key' v')
      · exact ha.symm

/-- Reading an option gives its error exactly if its value is refused, and at the name that is
used. -/
theorem readOption_eq_error_iff (hread : k.ReadBy read) {e : OptionError} :
    readOption ms k fallback read = .error e ↔
      ∃ v, k.StatedBy ms e.key v ∧ k.Refuses v e.fault := by
  rcases statedBy_or_absent k ms with ⟨key, v, h⟩ | h
  · rw [readOption_of_statedBy h]
    constructor
    · intro he
      cases hv : read v with
      | ok a =>
        rw [hv] at he
        cases he
      | error f =>
        rw [hv] at he
        cases he
        exact ⟨v, h, (hread.refuses v f).1 hv⟩
    · rintro ⟨v', h', hrefuses⟩
      obtain ⟨rfl, rfl⟩ := h.unique h'
      rw [(hread.refuses v e.fault).2 hrefuses]
      rfl
  · rw [readOption_of_absent h]
    refine iff_of_false nofun ?_
    rintro ⟨v, hv, -⟩
    exact h e.key v hv

theorem exists_readOption_iff (hread : k.ReadBy read) :
    (∃ a, readOption ms k fallback read = .ok a) ↔ k.SoundIn ms := by
  rcases statedBy_or_absent k ms with ⟨key, v, h⟩ | h
  · simp only [readOption_of_statedBy h, mapError_eq_ok_iff, hread.accepts]
    constructor
    · intro haccepts key' v' h'
      obtain ⟨-, rfl⟩ := h.unique h'
      exact haccepts
    · intro hsound
      exact hsound key v h
  · rw [readOption_of_absent h]
    exact iff_of_true ⟨fallback, rfl⟩ fun key v hv => absurd hv (h key v)

end OptionKey

/-- The errors of some options of an object, in the order of the options: one at the name that is
used for each option whose value is refused, and none for the others. -/
inductive Reports (ms : List (String × Value)) : List OptionKey → List OptionError → Prop where
  /-- No options have no errors. -/
  | nil : Reports ms [] []
  /-- The value of the first option is refused. -/
  | refused {k : OptionKey} {ks : List OptionKey} {v : Value} {e : OptionError}
      {es : List OptionError} (hk : k.StatedBy ms e.key v) (hv : k.Refuses v e.fault)
      (h : Reports ms ks es) : Reports ms (k :: ks) (e :: es)
  /-- Nothing is wrong with the first option. -/
  | sound {k : OptionKey} {ks : List OptionKey} {es : List OptionError} (hk : k.SoundIn ms)
      (h : Reports ms ks es) : Reports ms (k :: ks) es

/-- One more option is read. -/
theorem Reports.read {α : Type} {k : OptionKey} {ks : List OptionKey} {ms : List (String × Value)}
    {es : List OptionError} {fallback : α} {read : Value → Except OptionFault α}
    (hread : k.ReadBy read) (h : Reports ms ks es) :
    Reports ms (k :: ks) (errorOf (readOption ms k fallback read) ++ es) := by
  cases hk : readOption ms k fallback read with
  | ok a => exact .sound ((OptionKey.exists_readOption_iff hread).1 ⟨a, hk⟩) h
  | error e =>
    obtain ⟨v, hstated, hrefuses⟩ := (OptionKey.readOption_eq_error_iff hread).1 hk
    exact .refused hstated hrefuses h

/-! ### What can be told -/

/-- The contexts of an object have an element that holds half of a surrogate pair, and only names
in front of it. -/
def UnpairedContexts (ms : List (String × Value)) : Prop :=
  ∃ (key : String) (names : List String) (points : List Nat) (rest : List Value),
    OptionKey.contexts.StatedBy ms key (.arr (names.map .str ++ .unpaired points :: rest)) ∧
      ∀ name ∈ names, MatchesName name

theorem OptionError.message_eq_none_iff {e : OptionError} :
    e.message = none ↔ ∃ points, e.fault = .unpairedName points := by
  rw [message, Option.map_eq_none_iff]
  cases e.fault with
  | unpairedName points => exact iff_of_true rfl ⟨points, rfl⟩
  | _ => exact iff_of_false nofun nofun

/-- Only contexts are refused for half of a surrogate pair. -/
theorem OptionKey.refuses_unpairedName_iff {k : OptionKey} {v : Value} {points : List Nat} :
    k.Refuses v (.unpairedName points) ↔
      k = contexts ∧ ∃ (names : List String) (rest : List Value),
        v = .arr (names.map .str ++ .unpaired points :: rest) ∧
          ∀ name ∈ names, MatchesName name := by
  constructor
  · rintro ⟨⟩
    case element names w rest hall hw =>
      cases hw
      exact ⟨rfl, names, rest, rfl, hall⟩
  · rintro ⟨rfl, names, rest, rfl, hall⟩
    exact .element hall .unpaired

end BindLint
