import BindLint.Proofs.Stated

/-!
# Resolving accepts exactly the valid objects

All names of an object that state no option are unknown, and so is the name of an option in snake
case beside the one in camel case.  An object is valid if it has no unknown names and each option
accepts the value that it is stated with; then the options hold what is stated, and the default
where nothing is.

If an object is not valid, everything that is wrong with it is reported: the options whose values
are refused, one error for each and in their order, and behind them the unknown names in the order
of the object.  The report can be told unless the contexts hold half of a surrogate pair where the
first of them that is no name stands.

So of the two names of an option only the one that is used matters, and only for where an error is
reported: `Options.ofMembers_respell`.

## Main definitions

* `ValidMembers` — nothing is wrong with an object.
* `Options.StatedBy` — the options that an object states.
* `Options.memberErrors` — all that is wrong with an object.
* `OptionKey.respell` — an object with the names of an option exchanged.

## Main results

* `Options.ofMembers_eq_ok_iff`, `Options.ofMembers_eq_error_iff` — what an object gives.
* `Options.mem_memberErrors_iff` — what is among the errors of an object.
* `Options.message_eq_none_iff` — which objects have errors that cannot be told.
* `Options.ofMembers_respell` — the other name of an option.
* `resolve_exact` — **exactly the valid objects are accepted, and every fault is reported.**
-/

namespace BindLint

/-! ### Whole objects -/

/-- A name of an object that states no option: it is the name of none, or the one in snake case of
an option that is there under its name in camel case. -/
def IsOther (ms : List (String × Value)) (name : String) : Prop :=
  ∀ k ∈ OptionKey.all, name ≠ k.camel ∧ (name = k.snake → k.camel ∈ ms.map Prod.fst)

instance (ms : List (String × Value)) (name : String) : Decidable (IsOther ms name) :=
  inferInstanceAs (Decidable (∀ k ∈ OptionKey.all, _))

/-- The names of an object that state no option, in the order of the object. -/
def otherNames (ms : List (String × Value)) : List String :=
  (ms.map Prod.fst).filter fun name => decide (IsOther ms name)

theorem uses_eq_false_iff {k : OptionKey} {ms : List (String × Value)} {name : String} :
    k.uses ms name = false ↔
      name ≠ k.camel ∧ (name = k.snake → k.camel ∈ ms.map Prod.fst) := by
  have hnone : (Value.lookup k.camel ms).isNone = false ↔ k.camel ∈ ms.map Prod.fst := by
    rw [← not_iff_not, Bool.not_eq_false, Option.isNone_iff_eq_none, Value.lookup_eq_none_iff]
  rw [OptionKey.uses, Bool.or_eq_false_iff, decide_eq_false_iff_not, Bool.and_eq_false_iff,
    decide_eq_false_iff_not, hnone, ← imp_iff_not_or]

theorem unknownKeys_eq (ms : List (String × Value)) : unknownKeys ms = otherNames ms := by
  refine List.filter_congr fun name _ => ?_
  rw [Bool.eq_iff_iff, Bool.not_eq_true', List.any_eq_false, decide_eq_true_eq]
  exact forall₂_congr fun k _ => by rw [Bool.not_eq_true, uses_eq_false_iff]

/-- Nothing is wrong with an object: all its names state options, and the options accept their
values. -/
structure ValidMembers (ms : List (String × Value)) : Prop where
  known : ∀ name ∈ ms.map Prod.fst, ¬IsOther ms name
  values : ∀ k ∈ OptionKey.all, k.SoundIn ms

/-- The options that an object states.  The contexts are a set: neither the order nor the
repetition of names in the object matters. -/
structure Options.StatedBy (o : Options) (ms : List (String × Value)) : Prop where
  onlyLongLived : OptionKey.onlyLongLived.Settles ms (fun v b => v = .bool b)
    ({} : Options).onlyLongLived o.onlyLongLived
  contexts : OptionKey.contexts.Settles ms
    (fun v listing => ∃ names, v = .texts names ∧ IsListing listing names)
    ({} : Options).contexts o.contexts
  includeAsync : OptionKey.includeAsync.Settles ms (fun v b => v = .bool b)
    ({} : Options).includeAsync o.includeAsync

namespace Options

/-- The errors of the three options. -/
def valueErrors (ms : List (String × Value)) : List OptionError :=
  errorOf (readPolicy ms) ++ errorOf (readContexts ms) ++ errorOf (readAsync ms)

/-- All errors of an object. -/
def memberErrors (ms : List (String × Value)) : List OptionError :=
  valueErrors ms ++ (otherNames ms).map fun name => ⟨name, .unknown⟩

variable {ms : List (String × Value)} {o : Options} {e : OptionsError}

theorem reports_valueErrors (ms : List (String × Value)) :
    Reports ms OptionKey.all (valueErrors ms) := by
  have hasync : Reports ms [.includeAsync] (errorOf (readAsync ms) ++ []) :=
    .read (readBy_readFlag (by decide)) .nil
  have hcontexts : Reports ms [.contexts, .includeAsync]
      (errorOf (readContexts ms) ++ (errorOf (readAsync ms) ++ [])) :=
    .read readBy_readNames hasync
  have hpolicy : Reports ms OptionKey.all
      (errorOf (readPolicy ms) ++ (errorOf (readContexts ms) ++ (errorOf (readAsync ms) ++ []))) :=
    .read (readBy_readFlag (by decide)) hcontexts
  rwa [List.append_nil, ← List.append_assoc] at hpolicy

/-- An object without errors gives options, made of what is read; any other gives all its
errors. -/
theorem ofMembers_cases (ms : List (String × Value)) :
    (memberErrors ms = [] ∧ ∃ o, ofMembers ms = .ok o ∧ readPolicy ms = .ok o.onlyLongLived ∧
        readContexts ms = .ok o.contexts ∧ readAsync ms = .ok o.includeAsync) ∨
      memberErrors ms ≠ [] ∧ ofMembers ms = .error (.invalid (memberErrors ms)) := by
  unfold ofMembers
  rw [memberErrors, valueErrors, unknownKeys_eq]
  cases readPolicy ms with
  | error e => exact Or.inr ⟨by simp [errorOf], rfl⟩
  | ok policy =>
    cases readContexts ms with
    | error e => exact Or.inr ⟨by simp [errorOf], rfl⟩
    | ok contexts =>
      cases readAsync ms with
      | error e => exact Or.inr ⟨by simp [errorOf], rfl⟩
      | ok async =>
        cases otherNames ms with
        | nil => exact Or.inl ⟨rfl, ⟨policy, contexts, async⟩, rfl, rfl, rfl, rfl⟩
        | cons name names => exact Or.inr ⟨by simp [errorOf], rfl⟩

theorem errorOf_eq_nil_iff {α : Type} {x : Except OptionError α} :
    errorOf x = [] ↔ ∃ a, x = .ok a := by
  cases x with
  | ok a => exact iff_of_true rfl ⟨a, rfl⟩
  | error e => exact iff_of_false nofun nofun

theorem memberErrors_eq_nil_of_ok (h : ofMembers ms = .ok o) : memberErrors ms = [] := by
  rcases ofMembers_cases ms with ⟨hnil, -⟩ | ⟨-, herror⟩
  · exact hnil
  · rw [h] at herror
    cases herror

/-- Options are what is read of an object without unknown names. -/
theorem ofMembers_eq_ok_iff_read :
    ofMembers ms = .ok o ↔
      otherNames ms = [] ∧ readPolicy ms = .ok o.onlyLongLived ∧ readContexts ms = .ok o.contexts ∧
        readAsync ms = .ok o.includeAsync := by
  rcases ofMembers_cases ms with ⟨hnil, o', hok, hpolicy', hcontexts', hasync'⟩ | ⟨hne, herror⟩
  · have hothers : otherNames ms = [] := by
      rw [memberErrors, List.append_eq_nil_iff, List.map_eq_nil_iff] at hnil
      exact hnil.2
    constructor
    · intro h
      cases hok.symm.trans h
      exact ⟨hothers, hpolicy', hcontexts', hasync'⟩
    · rintro ⟨-, hpolicy, hcontexts, hasync⟩
      obtain ⟨policy, contexts, async⟩ := o
      obtain ⟨policy', contexts', async'⟩ := o'
      cases hpolicy.symm.trans hpolicy'
      cases hcontexts.symm.trans hcontexts'
      cases hasync.symm.trans hasync'
      exact hok
  · rw [herror]
    refine iff_of_false nofun ?_
    rintro ⟨hothers, hpolicy, hcontexts, hasync⟩
    refine hne ?_
    rw [memberErrors, valueErrors, errorOf_eq_nil_iff.2 ⟨_, hpolicy⟩,
      errorOf_eq_nil_iff.2 ⟨_, hcontexts⟩, errorOf_eq_nil_iff.2 ⟨_, hasync⟩, hothers]
    rfl

theorem memberErrors_eq_nil_iff : memberErrors ms = [] ↔ ValidMembers ms := by
  have hvalues : valueErrors ms = [] ↔ ∀ k ∈ OptionKey.all, k.SoundIn ms := by
    simp only [valueErrors, List.append_eq_nil_iff, errorOf_eq_nil_iff, readPolicy, readContexts,
      readAsync]
    rw [OptionKey.exists_readOption_iff (readBy_readFlag (by decide)),
      OptionKey.exists_readOption_iff readBy_readNames,
      OptionKey.exists_readOption_iff (readBy_readFlag (by decide))]
    simp [OptionKey.all, and_assoc]
  rw [memberErrors, List.append_eq_nil_iff, hvalues, List.map_eq_nil_iff, otherNames,
    List.filter_eq_nil_iff]
  simp only [decide_eq_true_eq]
  exact ⟨fun h => ⟨h.2, h.1⟩, fun h => ⟨h.values, h.known⟩⟩

theorem readOption_flag_eq_ok_iff {k : OptionKey} {fallback b : Bool} :
    readOption ms k fallback readFlag = .ok b ↔
      k.Settles ms (fun v b => v = .bool b) fallback b := by
  rw [OptionKey.readOption_eq_ok_iff]
  simp only [readFlag_eq_ok_iff]

theorem readContexts_eq_ok_iff {listing : List String} :
    readContexts ms = .ok listing ↔
      OptionKey.contexts.SoundIn ms ∧ OptionKey.contexts.Settles ms
        (fun v listing => ∃ names, v = .texts names ∧ IsListing listing names)
        ({} : Options).contexts listing := by
  rw [readContexts, OptionKey.readOption_eq_ok_iff]
  unfold OptionKey.Settles
  constructor
  · rintro (⟨key, v, h, hread⟩ | ⟨habsent, hdefault⟩)
    · have haccepts : OptionKey.contexts.Accepts v := (readBy_readNames.accepts v).1 ⟨_, hread⟩
      obtain ⟨names, hnames, hsort⟩ := exists_of_map_ok hread
      obtain ⟨htexts, -, -⟩ := readNames_eq_ok_iff.1 hnames
      refine ⟨fun key' v' h' => ?_, Or.inl ⟨key, v, h, names, htexts, sortNames_eq_iff.1 hsort⟩⟩
      rw [← (h.unique h').2]
      exact haccepts
    · exact ⟨fun key v h => absurd h (habsent key v), Or.inr ⟨habsent, hdefault⟩⟩
  · rintro ⟨hsound, ⟨key, v, h, names, htexts, hlisting⟩ | habsent⟩
    · obtain ⟨listing', hread⟩ := (readBy_readNames.accepts v).2 (hsound key v h)
      obtain ⟨names', hnames, hsort⟩ := exists_of_map_ok hread
      obtain ⟨htexts', -, -⟩ := readNames_eq_ok_iff.1 hnames
      obtain rfl : names' = names := Value.texts_inj.1 (htexts'.symm.trans htexts)
      rw [← hsort, sortNames_eq_iff.2 hlisting] at hread
      exact Or.inl ⟨key, v, h, hread⟩
    · exact Or.inr habsent

/-- Exactly the valid objects give options, and these are the ones that they state. -/
theorem ofMembers_eq_ok_iff : ofMembers ms = .ok o ↔ ValidMembers ms ∧ o.StatedBy ms := by
  constructor
  · intro h
    obtain ⟨-, hpolicy, hcontexts, hasync⟩ := ofMembers_eq_ok_iff_read.1 h
    exact ⟨memberErrors_eq_nil_iff.1 (memberErrors_eq_nil_of_ok h),
      readOption_flag_eq_ok_iff.1 hpolicy, (readContexts_eq_ok_iff.1 hcontexts).2,
      readOption_flag_eq_ok_iff.1 hasync⟩
  · rintro ⟨hvalid, hstated⟩
    refine ofMembers_eq_ok_iff_read.2 ⟨List.filter_eq_nil_iff.2 fun name hname => ?_, ?_, ?_, ?_⟩
    · rw [decide_eq_true_eq]
      exact hvalid.known name hname
    · exact readOption_flag_eq_ok_iff.2 hstated.onlyLongLived
    · exact readContexts_eq_ok_iff.2 ⟨hvalid.values _ (by decide), hstated.contexts⟩
    · exact readOption_flag_eq_ok_iff.2 hstated.includeAsync

/-- Every other object is refused with all its errors. -/
theorem ofMembers_eq_error_iff :
    ofMembers ms = .error e ↔ ¬ValidMembers ms ∧ e = .invalid (memberErrors ms) := by
  rw [← memberErrors_eq_nil_iff]
  rcases ofMembers_cases ms with ⟨hnil, o, hok, -⟩ | ⟨hne, herror⟩
  · rw [hok]
    exact iff_of_false nofun fun h => h.1 hnil
  · rw [herror, Except.error.injEq]
    exact ⟨fun h => ⟨hne, h.symm⟩, fun h => h.2.symm⟩

theorem mem_errorOf_iff {α : Type} {x : Except OptionError α} {error : OptionError} :
    error ∈ errorOf x ↔ x = .error error := by
  cases x with
  | ok a => exact iff_of_false List.not_mem_nil nofun
  | error e => rw [errorOf, List.mem_singleton, Except.error.injEq, eq_comm]

/-- The errors of an object are those of options whose values are refused, and of unknown names. -/
theorem mem_memberErrors_iff {error : OptionError} :
    error ∈ memberErrors ms ↔
      (∃ k ∈ OptionKey.all, ∃ v, k.StatedBy ms error.key v ∧ k.Refuses v error.fault) ∨
        error.key ∈ otherNames ms ∧ error.fault = .unknown := by
  have hunknown : error ∈ (otherNames ms).map (fun name => ⟨name, .unknown⟩) ↔
      error.key ∈ otherNames ms ∧ error.fault = .unknown := by
    rw [List.mem_map]
    constructor
    · rintro ⟨name, hname, rfl⟩
      exact ⟨hname, rfl⟩
    · rintro ⟨hname, hfault⟩
      exact ⟨error.key, hname, by rw [← hfault]⟩
  rw [memberErrors, List.mem_append, hunknown]
  refine or_congr_left ?_
  simp only [valueErrors, List.mem_append, mem_errorOf_iff, readPolicy, readContexts, readAsync]
  rw [OptionKey.readOption_eq_error_iff (readBy_readFlag (by decide)),
    OptionKey.readOption_eq_error_iff readBy_readNames,
    OptionKey.readOption_eq_error_iff (readBy_readFlag (by decide))]
  simp [OptionKey.all, or_assoc]

/-- The errors of an object cannot be told exactly if its contexts cannot be quoted. -/
theorem message_eq_none_iff :
    (OptionsError.invalid (memberErrors ms)).message = none ↔ UnpairedContexts ms := by
  rw [OptionsError.message, Option.map_eq_none_iff, mapM_eq_none_iff]
  simp only [OptionError.message_eq_none_iff, mem_memberErrors_iff]
  constructor
  · rintro ⟨error, ⟨k, -, v, hstated, hrefuses⟩ | ⟨-, hunknown⟩, points, hfault⟩
    · rw [hfault, OptionKey.refuses_unpairedName_iff] at hrefuses
      obtain ⟨rfl, names, rest, rfl, hall⟩ := hrefuses
      exact ⟨error.key, names, points, rest, hstated, hall⟩
    · cases hunknown.symm.trans hfault
  · rintro ⟨key, names, points, rest, hstated, hall⟩
    refine ⟨⟨key, .unpairedName points⟩, Or.inl ⟨.contexts, by decide, _, hstated, ?_⟩, points, rfl⟩
    exact OptionKey.refuses_unpairedName_iff.2 ⟨rfl, names, rest, rfl, hall⟩

-- a flag that is refused, too, does not help: what cannot be quoted is still in the list
example :
    (OptionsError.invalid (memberErrors
      [("longLivedContexts", .arr [.str "on", .unpaired [0xD800]]),
        ("includeAsync", .null)])).message = none := by
  decide +kernel

end Options

/-! ### The other name of an option -/

namespace OptionKey

variable {k k' : OptionKey} {ms : List (String × Value)} {name : String}

/-- The other name of an option, for each of its two names; all other names stay. -/
def swap (k : OptionKey) (name : String) : String :=
  if name = k.camel then k.snake else if name = k.snake then k.camel else name

/-- An object with the two names of an option exchanged. -/
def respell (k : OptionKey) (ms : List (String × Value)) : List (String × Value) :=
  ms.map fun m => (k.swap m.1, m.2)

theorem swap_camel (k : OptionKey) : k.swap k.camel = k.snake := if_pos rfl

theorem swap_snake (k : OptionKey) : k.swap k.snake = k.camel := by
  unfold swap
  split
  · next h => exact h
  · exact if_pos rfl

theorem swap_swap (k : OptionKey) (name : String) : k.swap (k.swap name) = name := by
  by_cases hcamel : name = k.camel
  · rw [hcamel, swap_camel, swap_snake]
  · by_cases hsnake : name = k.snake
    · rw [hsnake, swap_snake, swap_camel]
    · have hstays : k.swap name = name := by rw [swap, if_neg hcamel, if_neg hsnake]
      rw [hstays, hstays]

theorem swap_eq_iff {a b : String} : k.swap a = b ↔ a = k.swap b := by
  constructor
  · rintro rfl
    rw [swap_swap]
  · rintro rfl
    rw [swap_swap]

/-- Exchanging the names of an option leaves those of the others alone. -/
theorem swap_of_ne (hk : k ∈ all) (hk' : k' ∈ all) (hne : k' ≠ k) :
    k.swap k'.camel = k'.camel ∧ k.swap k'.snake = k'.snake := by
  have hall : ∀ k ∈ all, ∀ k' ∈ all, k' ≠ k →
      k.swap k'.camel = k'.camel ∧ k.swap k'.snake = k'.snake := by decide
  exact hall k hk k' hk' hne

theorem lookup_respell : Value.lookup name (k.respell ms) = Value.lookup (k.swap name) ms := by
  induction ms with
  | nil => rfl
  | cons m ms ih =>
    rw [respell, List.map_cons, Value.lookup_cons, Value.lookup_cons, ← respell, ih]
    simp only [swap_eq_iff]

theorem map_fst_respell : (k.respell ms).map Prod.fst = (ms.map Prod.fst).map k.swap := by
  rw [respell, List.map_map, List.map_map]
  rfl

/-- If an object has at most one of the two names, exchanging them only changes the name of the
member that states the option. -/
theorem find?_respell (hk : k ∈ all) (hk' : k' ∈ all)
    (hone : Value.lookup k.camel ms = none ∨ Value.lookup k.snake ms = none) :
    k'.find? (k.respell ms) = (k'.find? ms).map fun m => (k.swap m.1, m.2) := by
  by_cases hsame : k' = k
  · subst hsame
    rw [find?, find?, lookup_respell, lookup_respell, swap_camel, swap_snake]
    rcases hone with hnone | hnone
    · rw [hnone]
      cases Value.lookup k'.snake ms with
      | none => rfl
      | some v => exact congrArg some (Prod.ext (swap_snake k').symm rfl)
    · rw [hnone]
      cases Value.lookup k'.camel ms with
      | none => rfl
      | some v => exact congrArg some (Prod.ext (swap_camel k').symm rfl)
  · obtain ⟨hcamel, hsnake⟩ := swap_of_ne hk hk' hsame
    rw [find?, find?, lookup_respell, lookup_respell, hcamel, hsnake]
    cases Value.lookup k'.camel ms with
    | some v => exact congrArg some (Prod.ext hcamel.symm rfl)
    | none =>
      cases Value.lookup k'.snake ms with
      | none => rfl
      | some v => exact congrArg some (Prod.ext hsnake.symm rfl)

end OptionKey

/-- An error at a name that is changed. -/
def OptionError.relocate (f : String → String) (e : OptionError) : OptionError :=
  { e with key := f e.key }

/-- An error with the names of all members changed. -/
def OptionsError.relocate (f : String → String) : OptionsError → OptionsError
  | .invalid es => .invalid (es.map (OptionError.relocate f))
  | e => e

section

variable {k : OptionKey} {ms : List (String × Value)}

theorem readOption_respell {α : Type} {k' : OptionKey} {fallback : α}
    {read : Value → Except OptionFault α} (hk : k ∈ OptionKey.all) (hk' : k' ∈ OptionKey.all)
    (hone : Value.lookup k.camel ms = none ∨ Value.lookup k.snake ms = none) :
    readOption (k.respell ms) k' fallback read =
      (readOption ms k' fallback read).mapError (OptionError.relocate k.swap) := by
  rw [readOption, readOption, OptionKey.find?_respell hk hk' hone]
  cases k'.find? ms with
  | none => rfl
  | some m =>
    dsimp only [Option.map_some]
    cases read m.2 <;> rfl

theorem errorOf_mapError {α : Type} {x : Except OptionError α} {f : OptionError → OptionError} :
    errorOf (x.mapError f) = (errorOf x).map f := by
  cases x <;> rfl

/-- A name of an object that states no option states none when the names of an option are
exchanged, and the other way round. -/
theorem isOther_respell_iff (hk : k ∈ OptionKey.all)
    (hone : Value.lookup k.camel ms = none ∨ Value.lookup k.snake ms = none) {name : String}
    (hname : name ∈ ms.map Prod.fst) :
    IsOther (k.respell ms) (k.swap name) ↔ IsOther ms name := by
  refine forall₂_congr fun k' hk' => ?_
  rw [OptionKey.map_fst_respell, List.mem_map_of_involutive (OptionKey.swap_swap k), ne_eq,
    OptionKey.swap_eq_iff, OptionKey.swap_eq_iff]
  by_cases hsame : k' = k
  · subst hsame
    rw [OptionKey.swap_camel, OptionKey.swap_snake]
    rw [Value.lookup_eq_none_iff, Value.lookup_eq_none_iff] at hone
    -- of the two names at most one is there, and where it is, it states the option
    constructor
    · rintro ⟨hsnake, hcamel⟩
      refine ⟨fun heq => ?_, fun heq => absurd heq hsnake⟩
      rcases hone with hnone | hnone
      · exact hnone (heq ▸ hname)
      · exact hnone (hcamel heq)
    · rintro ⟨hcamel, hsnake⟩
      refine ⟨fun heq => ?_, fun heq => absurd heq hcamel⟩
      rcases hone with hnone | hnone
      · exact hnone (hsnake heq)
      · exact hnone (heq ▸ hname)
  · obtain ⟨hcamel, hsnake⟩ := OptionKey.swap_of_ne hk hk' hsame
    rw [hcamel, hsnake]

theorem otherNames_respell (hk : k ∈ OptionKey.all)
    (hone : Value.lookup k.camel ms = none ∨ Value.lookup k.snake ms = none) :
    otherNames (k.respell ms) = (otherNames ms).map k.swap := by
  rw [otherNames, otherNames, OptionKey.map_fst_respell, List.filter_map]
  refine congrArg _ (List.filter_congr fun name hname => ?_)
  exact decide_eq_decide.2 (isOther_respell_iff hk hone hname)

namespace Options

theorem memberErrors_respell (hk : k ∈ OptionKey.all)
    (hone : Value.lookup k.camel ms = none ∨ Value.lookup k.snake ms = none) :
    memberErrors (k.respell ms) = (memberErrors ms).map (OptionError.relocate k.swap) := by
  simp only [memberErrors, valueErrors, readPolicy, readContexts, readAsync,
    otherNames_respell hk hone, List.map_append, List.map_map]
  rw [readOption_respell hk (by decide) hone, readOption_respell hk (by decide) hone,
    readOption_respell hk (by decide) hone, errorOf_mapError, errorOf_mapError, errorOf_mapError]
  rfl

/-- **To use the other name of an option changes nothing but where an error is reported.** -/
theorem ofMembers_respell (hk : k ∈ OptionKey.all)
    (hone : Value.lookup k.camel ms = none ∨ Value.lookup k.snake ms = none) :
    ofMembers (k.respell ms) = (ofMembers ms).mapError (OptionsError.relocate k.swap) := by
  have herrors := memberErrors_respell hk hone
  rcases ofMembers_cases ms with ⟨-, o, hok, -⟩ | ⟨hne, herror⟩
  · obtain ⟨hothers, hpolicy, hcontexts, hasync⟩ := ofMembers_eq_ok_iff_read.1 hok
    have hok' : ofMembers (k.respell ms) = .ok o := by
      rw [ofMembers_eq_ok_iff_read, readPolicy, readContexts, readAsync,
        otherNames_respell hk hone, hothers, readOption_respell hk (by decide) hone,
        readOption_respell hk (by decide) hone, readOption_respell hk (by decide) hone,
        mapError_eq_ok_iff, mapError_eq_ok_iff, mapError_eq_ok_iff]
      exact ⟨rfl, hpolicy, hcontexts, hasync⟩
    rw [hok, hok']
    rfl
  · rcases ofMembers_cases (k.respell ms) with ⟨hnil', -⟩ | ⟨-, herror'⟩
    · rw [herrors, List.map_eq_nil_iff] at hnil'
      exact absurd hnil' hne
    · rw [herror, herror', herrors]
      rfl

end Options

end

/-! ### All values -/

/-- Whether a value is an object. -/
def Value.isObject : Value → Bool
  | .obj _ => true
  | .misnamed _ _ => true
  | _ => false

namespace Options

variable {ms : List (String × Value)} {e : OptionsError}

/-- The error of an object cannot be told exactly if its contexts cannot be quoted. -/
theorem message_eq_none_iff_of_resolve (h : resolve (.obj ms) = .error e) :
    e.message = none ↔ UnpairedContexts ms := by
  obtain ⟨-, rfl⟩ := ofMembers_eq_error_iff.1 h
  exact message_eq_none_iff

/-- An object some of whose names are no texts gives no options.  This is what is reported, unless
the errors of its other members cannot be told: then they are what it fails with. -/
theorem exists_error_of_misnamed (ms : List (String × Value)) (strays : List (List Nat × Value)) :
    ∃ e, resolve (.misnamed ms strays) = .error e ∧
      (¬UnpairedContexts ms → e = .misnamed) ∧
      (UnpairedContexts ms → resolve (.obj ms) = .error e) := by
  change ∃ e, ofMisnamed ms = .error e ∧ _ ∧ (_ → ofMembers ms = .error e)
  unfold ofMisnamed
  rw [← message_eq_none_iff]
  rcases ofMembers_cases ms with ⟨hnil, o, hok, -⟩ | ⟨-, herror⟩
  · rw [hok, hnil]
    exact ⟨.misnamed, rfl, fun _ => rfl, nofun⟩
  · rw [herror]
    cases hmessage : (OptionsError.invalid (memberErrors ms)).message with
    | some text => exact ⟨.misnamed, by simp [hmessage], fun _ => rfl, nofun⟩
    | none => exact ⟨.invalid (memberErrors ms), by simp [hmessage], nofun, fun _ => rfl⟩

end Options

/-- **Exactly the valid objects are accepted, and every fault is reported.**  A valid object gives
the options that it states.  For any other, there is one error for each option whose value is
refused, in the order of the options and at the name that is used, and then one for each unknown
name in the order of the object.  This can be told as an error of the configuration unless the
contexts have, behind some names, an element with half of a surrogate pair, which no message can
quote.  To use the other name of an option, if it is the only one, changes nothing but where an
error is.  The absent value gives the defaults, and nothing else that is no object gives options.
Nor does an object some of whose names are no texts: it is refused for its names, or for its other
members if what is wrong with these cannot be told. -/
theorem resolve_exact (ms : List (String × Value)) :
    ((∃ o, Options.resolve (.obj ms) = .ok o) ↔ ValidMembers ms) ∧
      (∀ o, Options.resolve (.obj ms) = .ok o ↔ ValidMembers ms ∧ o.StatedBy ms) ∧
      (¬ValidMembers ms → ∃ es, Reports ms OptionKey.all es ∧
        Options.resolve (.obj ms) =
          .error (.invalid (es ++ (otherNames ms).map fun name => ⟨name, .unknown⟩))) ∧
      (∀ e, Options.resolve (.obj ms) = .error e → (e.message = none ↔ UnpairedContexts ms)) ∧
      (∀ k ∈ OptionKey.all, Value.lookup k.camel ms = none ∨ Value.lookup k.snake ms = none →
        Options.resolve (.obj (k.respell ms)) =
          (Options.resolve (.obj ms)).mapError (OptionsError.relocate k.swap)) ∧
      Options.resolve .null = .ok {} ∧
      (∀ v, v ≠ .null → v.isObject = false →
        Options.resolve v = .error (.notObject v.typeName)) ∧
      ∀ strays, ∃ e, Options.resolve (.misnamed ms strays) = .error e ∧
        (¬UnpairedContexts ms → e = .misnamed) ∧
        (UnpairedContexts ms → Options.resolve (.obj ms) = .error e) := by
  refine ⟨?_, fun o => Options.ofMembers_eq_ok_iff, ?_,
    fun e he => Options.message_eq_none_iff_of_resolve he, ?_, rfl, ?_,
    Options.exists_error_of_misnamed ms⟩
  · constructor
    · rintro ⟨o, ho⟩
      exact (Options.ofMembers_eq_ok_iff.1 ho).1
    · intro hvalid
      rcases Options.ofMembers_cases ms with ⟨-, o, ho, -⟩ | ⟨hne, -⟩
      · exact ⟨o, ho⟩
      · exact absurd (Options.memberErrors_eq_nil_iff.2 hvalid) hne
  · intro hnot
    exact ⟨_, Options.reports_valueErrors ms, Options.ofMembers_eq_error_iff.2 ⟨hnot, rfl⟩⟩
  · intro k hk hone
    exact Options.ofMembers_respell hk hone
  · intro v hnull hobject
    cases v with
    | null => exact absurd rfl hnull
    | obj ms => cases hobject
    | misnamed ms strays => cases hobject
    | _ => rfl

/-- An object with a name that is none, a flag that is none under its name in snake case, an unknown
name, and both names of the contexts. -/
def faultyMembers : List (String × Value) :=
  [("zz", .null), ("include_async", .int 1), ("longLivedContexts", .texts ["on", "1x", ""]),
    ("long_lived_contexts", .null)]

/-- All four faults are reported, and one of them elsewhere if the flag has its other name. -/
theorem resolve_exact_faulty :
    Options.resolve (.obj faultyMembers) = .error (.invalid
        [⟨"longLivedContexts", .notIdentifier "1x"⟩, ⟨"include_async", .notBoolean⟩,
          ⟨"zz", .unknown⟩, ⟨"long_lived_contexts", .unknown⟩]) ∧
      Value.lookup "includeAsync" faultyMembers = none ∧
      Options.resolve (.obj (OptionKey.includeAsync.respell faultyMembers)) = .error (.invalid
        [⟨"longLivedContexts", .notIdentifier "1x"⟩, ⟨"includeAsync", .notBoolean⟩,
          ⟨"zz", .unknown⟩, ⟨"long_lived_contexts", .unknown⟩]) := by
  have hfaults : Options.resolve (.obj faultyMembers) = .error (.invalid
      [⟨"longLivedContexts", .notIdentifier "1x"⟩, ⟨"include_async", .notBoolean⟩,
        ⟨"zz", .unknown⟩, ⟨"long_lived_contexts", .unknown⟩]) := by decide +kernel
  obtain ⟨-, -, -, -, hrespell, -⟩ := resolve_exact faultyMembers
  refine ⟨hfaults, rfl, ?_⟩
  rw [hrespell .includeAsync (by decide) (Or.inl rfl), hfaults]
  decide +kernel

end BindLint
