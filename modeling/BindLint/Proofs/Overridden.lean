import BindLint.Proofs.Resolved

/-!
# Options of the command line win

The options given on the command line are put over an object before it is looked at.  Each of them
takes both names of its option out of the object and states the option anew under the name in camel
case.  The members with other names are not touched, in particular not those that state options
which are not given.

So whatever the object has for an option that is given, it causes no error: of the errors of the
object, those at names of other options and at unknown names stay, in their order.  The only new one
can be that the contexts given are refused.  As contexts that are given can be quoted, only those of
the object can keep the errors from being told, and only if none are given.

## Main definitions

* `Overrides.value?` — the value that is given for an option.
* `Overrides.Covers` — the names of the options that are given.
* `Options.MergedFrom` — the options of an object under those that are given.

## Main results

* `Overrides.filter_apply` — members with names that are not covered stay.
* `Overrides.statedBy_apply`, `Overrides.find?_apply` — what states an option that is given, and one
  that is not.
* `Overrides.otherNames_apply` — the unknown names that stay.
* `Overrides.unpairedContexts_apply_iff` — contexts that cannot be quoted are those of the object.
* `overrides_win` — **what is given wins, and nothing else changes.**
-/

namespace BindLint

/-! ### Members that stay -/

namespace Value

variable {name : String} {v : Value} {ms : List (String × Value)} (p : String → Prop)
  [DecidablePred p]

theorem lookup_filter (h : p name) : lookup name (ms.filter fun m => p m.1) = lookup name ms := by
  rw [lookup, lookup, List.find?_filter]
  congr 2
  funext m
  by_cases hname : m.1 = name
  · simp [hname, h]
  · simp [hname]

/-- Objects that agree on the members with some names agree on these names. -/
theorem lookup_eq_of_filter_eq {ms' : List (String × Value)} (h : p name)
    (heq : (ms'.filter fun m => p m.1) = ms.filter fun m => p m.1) :
    lookup name ms' = lookup name ms := by
  rw [← lookup_filter p h, heq, lookup_filter p h]

theorem filter_insert (h : ¬p name) :
    (insert name v ms).filter (fun m => p m.1) = ms.filter fun m => p m.1 := by
  induction ms with
  | nil => simp [insert, h]
  | cons m ms ih =>
    rw [insert]
    split
    · next hname => simp [hname, h]
    · rw [List.filter_cons, List.filter_cons, ih]

theorem filter_erase (h : ¬p name) :
    (erase name ms).filter (fun m => p m.1) = ms.filter fun m => p m.1 := by
  rw [erase, List.filter_filter]
  refine List.filter_congr fun m _ => ?_
  by_cases hname : m.1 = name
  · simp [hname, h]
  · simp [hname]

end Value

/-! ### One option is set -/

namespace OptionKey

variable {k k' : OptionKey} {ms : List (String × Value)} {name : String} {v : Value}

/-- The names of an option. -/
def names (k : OptionKey) : List String := [k.camel, k.snake]

/-- Different options have no name in common. -/
theorem eq_of_mem_names (hk : k ∈ all) (hk' : k' ∈ all) (h : name ∈ k.names)
    (h' : name ∈ k'.names) : k = k' := by
  have hall : ∀ k ∈ all, ∀ k' ∈ all, ∀ name ∈ k.names, name ∈ k'.names → k = k' := by decide
  exact hall k hk k' hk' name h h'

/-- An option is stated under its name in camel case and has no other member. -/
def SetIn (k : OptionKey) (v : Value) (ms : List (String × Value)) : Prop :=
  Value.lookup k.camel ms = some v ∧ Value.lookup k.snake ms = none

theorem filter_setIf (p : String → Prop) [DecidablePred p] {w : Option Value}
    (h : w.isSome → ∀ name ∈ k.names, ¬p name) :
    (k.setIf w ms).filter (fun m => p m.1) = ms.filter fun m => p m.1 := by
  cases w with
  | none => rfl
  | some v =>
    have hnames := h rfl
    rw [setIf, set, Value.filter_insert p (hnames k.camel (by simp [names])),
      Value.filter_erase p (hnames k.snake (by simp [names]))]

theorem setIn_set (hk : k ∈ all) : k.SetIn v (k.set v ms) := by
  have hne : k.camel ≠ k.snake := by
    have hall : ∀ k ∈ all, k.camel ≠ k.snake := by decide
    exact hall k hk
  refine ⟨Value.lookup_insert_self _ _ _, ?_⟩
  rw [set, Value.lookup_insert_of_ne hne, Value.lookup_erase_self]

theorem lookup_setIf_of_ne {w : Option Value} (hk : k ∈ all) (hk' : k' ∈ all) (hne : k ≠ k')
    (hname : name ∈ k.names) : Value.lookup name (k'.setIf w ms) = Value.lookup name ms := by
  have hkeep : name ∉ k'.names := fun hname' => hne (eq_of_mem_names hk hk' hname hname')
  exact Value.lookup_eq_of_filter_eq (· ∉ k'.names) hkeep
    (filter_setIf _ fun _ _ => not_not_intro)

/-- Setting another option, or the same one to its value, keeps what is set. -/
theorem SetIn.setIf {w : Option Value} (h : k.SetIn v ms) (hk : k ∈ all) (hk' : k' ∈ all)
    (hsame : k' = k → w = some v) : k.SetIn v (k'.setIf w ms) := by
  by_cases hne : k' = k
  · subst hne
    rw [hsame rfl]
    exact setIn_set hk
  · rw [SetIn, lookup_setIf_of_ne hk hk' (Ne.symm hne) (by simp [names]),
      lookup_setIf_of_ne hk hk' (Ne.symm hne) (by simp [names])]
    exact h

end OptionKey

/-! ### All that are given -/

namespace Overrides

variable {o : Overrides} {k : OptionKey} {ms : List (String × Value)} {name : String} {v : Value}

/-- The value that is given for an option. -/
def value? (o : Overrides) (k : OptionKey) : Option Value :=
  if k = .onlyLongLived then o.allContexts.map fun b => .bool (!b)
  else if k = .contexts then if o.contexts.isEmpty then none else some (.texts o.contexts)
  else if k = .includeAsync then o.includeAsync.map .bool
  else none

/-- An object over which the values for some options are put. -/
def setAll (o : Overrides) (ks : List OptionKey) (ms : List (String × Value)) :
    List (String × Value) :=
  ks.foldl (fun ms k => k.setIf (o.value? k) ms) ms

theorem apply_eq (o : Overrides) (ms : List (String × Value)) :
    o.apply ms = o.setAll OptionKey.all ms := rfl

/-- A name of an option that is given. -/
def Covers (o : Overrides) (name : String) : Prop :=
  ∃ k ∈ OptionKey.all, (o.value? k).isSome ∧ name ∈ k.names

instance (o : Overrides) (name : String) : Decidable (o.Covers name) :=
  inferInstanceAs (Decidable (∃ k ∈ OptionKey.all, _))

theorem covers_iff (hk : k ∈ OptionKey.all) (hname : name ∈ k.names) :
    o.Covers name ↔ (o.value? k).isSome := by
  constructor
  · rintro ⟨k', hk', hgiven, hname'⟩
    rw [OptionKey.eq_of_mem_names hk hk' hname hname']
    exact hgiven
  · intro hgiven
    exact ⟨k, hk, hgiven, hname⟩

theorem filter_setAll (p : String → Prop) [DecidablePred p] {ks : List OptionKey}
    (h : ∀ k ∈ ks, (o.value? k).isSome → ∀ name ∈ k.names, ¬p name) :
    (o.setAll ks ms).filter (fun m => p m.1) = ms.filter fun m => p m.1 := by
  induction ks generalizing ms with
  | nil => rfl
  | cons k ks ih =>
    obtain ⟨hk, hks⟩ := List.forall_mem_cons.1 h
    rw [setAll, List.foldl_cons, ← setAll, ih hks, OptionKey.filter_setIf p hk]

/-- An option that is set to its value, or will be, is set in the end. -/
theorem setIn_setAll {ks : List OptionKey} (hks : ∀ k ∈ ks, k ∈ OptionKey.all)
    (hk : k ∈ OptionKey.all) (hv : o.value? k = some v) (h : k.SetIn v ms ∨ k ∈ ks) :
    k.SetIn v (o.setAll ks ms) := by
  induction ks generalizing ms with
  | nil => exact h.resolve_right List.not_mem_nil
  | cons k' ks ih =>
    obtain ⟨hk', hks'⟩ := List.forall_mem_cons.1 hks
    rw [setAll, List.foldl_cons, ← setAll]
    refine ih hks' ?_
    rcases h with hset | hmem
    · exact Or.inl (hset.setIf hk hk' fun heq => heq ▸ hv)
    · rcases List.mem_cons.1 hmem with rfl | hmem
      · left
        rw [hv]
        exact OptionKey.setIn_set hk
      · exact Or.inr hmem

/-- The members with names that are not covered are those of the object. -/
theorem filter_apply (o : Overrides) (ms : List (String × Value)) :
    (o.apply ms).filter (fun m => ¬o.Covers m.1) = ms.filter fun m => ¬o.Covers m.1 := by
  rw [apply_eq]
  exact filter_setAll (¬o.Covers ·) fun k hk hgiven name hname =>
    not_not_intro ⟨k, hk, hgiven, hname⟩

theorem setIn_apply (hk : k ∈ OptionKey.all) (hv : o.value? k = some v) :
    k.SetIn v (o.apply ms) := by
  rw [apply_eq]
  exact setIn_setAll (fun _ h => h) hk hv (Or.inr hk)

/-- An option that is given is stated by what is given, under its name in camel case. -/
theorem statedBy_apply (hk : k ∈ OptionKey.all) (hv : o.value? k = some v) :
    k.StatedBy (o.apply ms) k.camel v :=
  .camel (setIn_apply hk hv).1

theorem lookup_apply (hname : ¬o.Covers name) :
    Value.lookup name (o.apply ms) = Value.lookup name ms :=
  Value.lookup_eq_of_filter_eq (¬o.Covers ·) hname (o.filter_apply ms)

/-- An option that is not given is stated by the same member as in the object. -/
theorem find?_apply (hk : k ∈ OptionKey.all) (hnone : o.value? k = none) :
    k.find? (o.apply ms) = k.find? ms := by
  have hfree : ∀ name ∈ k.names, ¬o.Covers name := by
    intro name hname
    rw [covers_iff hk hname, hnone]
    exact Bool.false_ne_true
  rw [OptionKey.find?, OptionKey.find?, lookup_apply (hfree _ (by simp [OptionKey.names])),
    lookup_apply (hfree _ (by simp [OptionKey.names]))]

/-- A name that is covered states its option. -/
theorem not_isOther_of_covers (hcovers : o.Covers name) (hmem : name ∈ (o.apply ms).map Prod.fst) :
    ¬IsOther (o.apply ms) name := by
  obtain ⟨k, hk, hgiven, hname⟩ := hcovers
  obtain ⟨v, hv⟩ := Option.isSome_iff_exists.1 hgiven
  have hset : k.SetIn v (o.apply ms) := setIn_apply hk hv
  intro hother
  rcases List.mem_pair.1 hname with rfl | rfl
  · exact (hother k hk).1 rfl
  · exact Value.lookup_eq_none_iff.1 hset.2 hmem

theorem isOther_apply_iff (hfree : ¬o.Covers name) :
    IsOther (o.apply ms) name ↔ IsOther ms name := by
  refine forall₂_congr fun k hk => and_congr_right fun _ => imp_congr_right fun hsnake => ?_
  have hcamel : ¬o.Covers k.camel := by
    rw [covers_iff hk (by simp [OptionKey.names])]
    rwa [covers_iff hk (by simp [hsnake, OptionKey.names])] at hfree
  rw [← not_iff_not, ← Value.lookup_eq_none_iff, ← Value.lookup_eq_none_iff, lookup_apply hcamel]

/-- The unknown names are those of the object that are not covered. -/
theorem otherNames_apply (o : Overrides) (ms : List (String × Value)) :
    otherNames (o.apply ms) = (otherNames ms).filter fun name => ¬o.Covers name := by
  have hnone : otherNames (o.apply ms) =
      (otherNames (o.apply ms)).filter fun name => ¬o.Covers name := by
    refine (List.filter_eq_self.2 fun name hname => ?_).symm
    obtain ⟨hmem, hother⟩ := List.mem_filter.1 hname
    exact decide_eq_true fun hcovers =>
      not_isOther_of_covers hcovers hmem (of_decide_eq_true hother)
  have hnames : ((o.apply ms).map Prod.fst).filter (fun name => ¬o.Covers name) =
      (ms.map Prod.fst).filter fun name => ¬o.Covers name := by
    rw [List.filter_map, List.filter_map]
    exact congrArg _ (o.filter_apply ms)
  calc otherNames (o.apply ms)
    _ = (((o.apply ms).map Prod.fst).filter fun name => ¬o.Covers name).filter
          fun name => IsOther (o.apply ms) name := by rw [hnone, otherNames, List.filter_comm]
    _ = ((ms.map Prod.fst).filter fun name => ¬o.Covers name).filter
          fun name => IsOther (o.apply ms) name := by rw [hnames]
    _ = ((ms.map Prod.fst).filter fun name => ¬o.Covers name).filter
          fun name => IsOther ms name := by
      refine List.filter_congr fun name hname => decide_eq_decide.2 (isOther_apply_iff ?_)
      have hfree := List.of_mem_filter hname
      exact of_decide_eq_true hfree
    _ = (otherNames ms).filter fun name => ¬o.Covers name := by rw [List.filter_comm, otherNames]

/-! ### The errors -/

/-- The errors at names that are not covered. -/
def kept (o : Overrides) (es : List OptionError) : List OptionError :=
  es.filter fun e => ¬o.Covers e.key

theorem kept_append (o : Overrides) (es es' : List OptionError) :
    o.kept (es ++ es') = o.kept es ++ o.kept es' :=
  List.filter_append _ _

theorem kept_unknown (o : Overrides) (ms : List (String × Value)) :
    o.kept ((otherNames ms).map fun name => ⟨name, .unknown⟩) =
      (otherNames (o.apply ms)).map fun name => ⟨name, .unknown⟩ := by
  rw [kept, otherNames_apply, List.filter_map]
  rfl

section

variable {α : Type} {fallback : α} {read : Value → Except OptionFault α}

theorem readOption_apply (hk : k ∈ OptionKey.all) (hnone : o.value? k = none) :
    readOption (o.apply ms) k fallback read = readOption ms k fallback read := by
  rw [readOption, readOption, find?_apply hk hnone]

theorem readOption_apply_of_some (hk : k ∈ OptionKey.all) (hv : o.value? k = some v) :
    readOption (o.apply ms) k fallback read = (read v).mapError fun f => ⟨k.camel, f⟩ :=
  OptionKey.readOption_of_statedBy (statedBy_apply hk hv)

/-- The error of an option is at one of its names. -/
theorem key_mem_names_of_mem_errorOf {e : OptionError}
    (he : e ∈ errorOf (readOption ms k fallback read)) : e.key ∈ k.names := by
  rw [Options.mem_errorOf_iff] at he
  rcases k.statedBy_or_absent ms with ⟨key, v, hstated⟩ | habsent
  · have hkey : key ∈ k.names := by
      cases hstated with
      | camel => simp [OptionKey.names]
      | snake => simp [OptionKey.names]
    rw [OptionKey.readOption_of_statedBy hstated] at he
    cases hread : read v with
    | ok a =>
      rw [hread] at he
      cases he
    | error f =>
      rw [hread] at he
      cases he
      exact hkey
  · rw [OptionKey.readOption_of_absent habsent] at he
    cases he

/-- The error of an option in the object stays if the option is not given, and else it does
not. -/
theorem kept_errorOf (hk : k ∈ OptionKey.all) :
    o.kept (errorOf (readOption ms k fallback read)) =
      if (o.value? k).isSome then [] else errorOf (readOption (o.apply ms) k fallback read) := by
  split
  · next hgiven =>
    refine List.filter_eq_nil_iff.2 fun e he => ?_
    rw [decide_eq_true_eq, not_not, covers_iff hk (key_mem_names_of_mem_errorOf he)]
    exact hgiven
  · next hnone =>
    rw [readOption_apply hk (Option.not_isSome_iff_eq_none.1 hnone)]
    refine List.filter_eq_self.2 fun e he => ?_
    rw [decide_eq_true_eq, covers_iff hk (key_mem_names_of_mem_errorOf he)]
    exact hnone

end

/-- A flag that is given is a truth value and so has no error. -/
theorem errorOf_readFlag_apply {fallback : Bool} (hk : k ∈ OptionKey.all)
    (hflag : ∀ v, o.value? k = some v → ∃ b, v = .bool b) :
    errorOf (readOption (o.apply ms) k fallback readFlag) =
      o.kept (errorOf (readOption ms k fallback readFlag)) := by
  rw [kept_errorOf hk]
  split
  · next hgiven =>
    obtain ⟨v, hv⟩ := Option.isSome_iff_exists.1 hgiven
    obtain ⟨b, rfl⟩ := hflag v hv
    rw [readOption_apply_of_some hk hv]
    rfl
  · rfl

theorem value?_contexts (o : Overrides) :
    o.value? .contexts = if o.contexts = [] then none else some (.texts o.contexts) := by
  change (if o.contexts.isEmpty = true then none else some (Value.texts o.contexts)) = _
  simp only [List.isEmpty_iff]

/-- The contexts have the error that they have in the object if they are not given, and otherwise
one exactly if what is given holds something that is no name. -/
theorem exists_errorOf_readContexts_apply (o : Overrides) (ms : List (String × Value)) :
    ∃ refused : Option OptionError,
      errorOf (Options.readContexts (o.apply ms)) =
          o.kept (errorOf (Options.readContexts ms)) ++ refused.toList ∧
        (refused.isSome ↔ ∃ name ∈ o.contexts, ¬MatchesName name) ∧
        ∀ e ∈ refused, e.key = OptionKey.contexts.camel ∧
          OptionKey.contexts.Refuses (.texts o.contexts) e.fault := by
  have hmem : OptionKey.contexts ∈ OptionKey.all := by decide
  by_cases hnil : o.contexts = []
  · refine ⟨none, ?_, by simp [hnil], by simp⟩
    rw [Options.readContexts, Options.readContexts, kept_errorOf hmem, value?_contexts,
      if_pos hnil]
    exact (List.append_nil _).symm
  · have hv : o.value? .contexts = some (.texts o.contexts) := by
      rw [value?_contexts, if_neg hnil]
    have hstated : OptionKey.contexts.StatedBy (o.apply ms) _ _ := statedBy_apply hmem hv
    have hkept : o.kept (errorOf (Options.readContexts ms)) = [] := by
      rw [Options.readContexts, kept_errorOf hmem, hv]
      rfl
    rw [hkept]
    cases hread : Options.readContexts (o.apply ms) with
    | ok listing =>
      have hsound : OptionKey.contexts.SoundIn (o.apply ms) :=
        (OptionKey.exists_readOption_iff readBy_readNames).1 ⟨listing, hread⟩
      have hall := (OptionKey.accepts_texts_iff.1 (hsound _ _ hstated)).2
      exact ⟨none, rfl, by simpa using hall, by simp⟩
    | error e =>
      obtain ⟨v, hstated', hrefuses⟩ := (OptionKey.readOption_eq_error_iff readBy_readNames).1 hread
      obtain ⟨hkey, rfl⟩ := hstated'.unique hstated
      refine ⟨some e, rfl, iff_of_true rfl ?_, ?_⟩
      · by_contra hall
        push Not at hall
        obtain ⟨names, hnames⟩ := (readBy_readNames.accepts _).2
          (OptionKey.accepts_texts_iff.2 ⟨hnil, hall⟩)
        cases hnames.symm.trans ((readBy_readNames.refuses _ _).2 hrefuses)
      · intro e' he'
        cases he'
        exact ⟨hkey, hrefuses⟩

/-- Contexts that cannot be quoted are those of the object, and none are given. -/
theorem unpairedContexts_apply_iff :
    UnpairedContexts (o.apply ms) ↔ o.contexts = [] ∧ UnpairedContexts ms := by
  have hmem : OptionKey.contexts ∈ OptionKey.all := by decide
  by_cases hnil : o.contexts = []
  · have hfind : OptionKey.contexts.find? (o.apply ms) = OptionKey.contexts.find? ms :=
      find?_apply hmem (by rw [value?_contexts, if_pos hnil])
    simp only [UnpairedContexts, ← OptionKey.find?_eq_some_iff, hfind, hnil, true_and]
  · have hv : o.value? .contexts = some (.texts o.contexts) := by
      rw [value?_contexts, if_neg hnil]
    refine iff_of_false ?_ fun h => hnil h.1
    rintro ⟨key, names, points, rest, hstated, -⟩
    have hgiven := Value.arr.inj (hstated.unique (statedBy_apply hmem hv)).2
    have hunpaired : Value.unpaired points ∈ o.contexts.map Value.str := by
      rw [← hgiven]
      exact List.mem_append_right _ List.mem_cons_self
    obtain ⟨name, -, hname⟩ := List.mem_map.1 hunpaired
    cases hname

end Overrides

/-! ### What is merged -/

/-- The errors of members that a result reports. -/
def reported : Except OptionsError Options → List OptionError
  | .ok _ => []
  | .error e => e.errors

namespace Options

variable {ms : List (String × Value)} {r : Options} {o : Overrides}

theorem reported_ofMembers (ms : List (String × Value)) :
    reported (ofMembers ms) = memberErrors ms := by
  rcases ofMembers_cases ms with ⟨hnil, r, hok, -⟩ | ⟨-, herror⟩
  · rw [hok, hnil]
    rfl
  · rw [herror]
    rfl

/-- The errors of an object that is overridden are those of the object at names that are not
covered, with what is wrong with the contexts that are given among them. -/
theorem exists_memberErrors_apply (o : Overrides) (ms : List (String × Value)) :
    ∃ (front back : List OptionError) (refused : Option OptionError),
      o.kept (memberErrors ms) = front ++ back ∧
        memberErrors (o.apply ms) = front ++ refused.toList ++ back ∧
        (refused.isSome ↔ ∃ name ∈ o.contexts, ¬MatchesName name) ∧
        ∀ e ∈ refused, e.key = OptionKey.contexts.camel ∧
          OptionKey.contexts.Refuses (.texts o.contexts) e.fault := by
  obtain ⟨refused, hcontexts, hiff, hrefused⟩ := o.exists_errorOf_readContexts_apply ms
  have hpolicy : errorOf (readPolicy (o.apply ms)) = o.kept (errorOf (readPolicy ms)) :=
    Overrides.errorOf_readFlag_apply (by decide) fun v hv => by
      obtain ⟨b, -, rfl⟩ := Option.map_eq_some_iff.1 hv
      exact ⟨_, rfl⟩
  have hasync : errorOf (readAsync (o.apply ms)) = o.kept (errorOf (readAsync ms)) :=
    Overrides.errorOf_readFlag_apply (by decide) fun v hv => by
      obtain ⟨b, -, rfl⟩ := Option.map_eq_some_iff.1 hv
      exact ⟨_, rfl⟩
  refine ⟨o.kept (errorOf (readPolicy ms)) ++ o.kept (errorOf (readContexts ms)),
    o.kept (errorOf (readAsync ms)) ++
      (otherNames (o.apply ms)).map fun name => ⟨name, .unknown⟩,
    refused, ?_, ?_, hiff, hrefused⟩
  · rw [memberErrors, valueErrors, Overrides.kept_append, Overrides.kept_append,
      Overrides.kept_append, Overrides.kept_unknown, List.append_assoc]
  · rw [memberErrors, valueErrors, hpolicy, hcontexts, hasync]
    simp only [List.append_assoc]

/-- Options that are given where they are, and otherwise what an object states. -/
structure MergedFrom (r : Options) (o : Overrides) (ms : List (String × Value)) : Prop where
  givenPolicy : ∀ b ∈ o.allContexts, r.onlyLongLived = !b
  givenContexts : o.contexts ≠ [] → IsListing r.contexts o.contexts
  givenAsync : ∀ b ∈ o.includeAsync, r.includeAsync = b
  onlyLongLived : o.allContexts = none → OptionKey.onlyLongLived.Settles ms
    (fun v b => v = .bool b) ({} : Options).onlyLongLived r.onlyLongLived
  contexts : o.contexts = [] → OptionKey.contexts.Settles ms
    (fun v listing => ∃ names, v = .texts names ∧ IsListing listing names)
    ({} : Options).contexts r.contexts
  includeAsync : o.includeAsync = none → OptionKey.includeAsync.Settles ms
    (fun v b => v = .bool b) ({} : Options).includeAsync r.includeAsync

/-- Options that are the same where none are given. -/
structure SameBut (o : Overrides) (r r' : Options) : Prop where
  onlyLongLived : o.allContexts = none → r.onlyLongLived = r'.onlyLongLived
  contexts : o.contexts = [] → r.contexts = r'.contexts
  includeAsync : o.includeAsync = none → r.includeAsync = r'.includeAsync

theorem readPolicy_apply (h : o.allContexts = none) : readPolicy (o.apply ms) = readPolicy ms :=
  Overrides.readOption_apply (by decide) (congrArg (Option.map _) h)

theorem readContexts_apply (h : o.contexts = []) : readContexts (o.apply ms) = readContexts ms :=
  Overrides.readOption_apply (by decide) (by rw [Overrides.value?_contexts, if_pos h])

theorem readAsync_apply (h : o.includeAsync = none) : readAsync (o.apply ms) = readAsync ms :=
  Overrides.readOption_apply (by decide) (congrArg (Option.map _) h)

theorem mergedFrom_of_ofMembers_apply (h : ofMembers (o.apply ms) = .ok r) :
    r.MergedFrom o ms := by
  obtain ⟨-, hpolicy, hcontexts, hasync⟩ := ofMembers_eq_ok_iff_read.1 h
  refine ⟨?_, ?_, ?_, ?_, ?_, ?_⟩
  · intro b hb
    have hv : o.value? .onlyLongLived = some (.bool (!b)) := congrArg (Option.map _) hb
    rw [readPolicy, Overrides.readOption_apply_of_some (by decide) hv] at hpolicy
    exact (Except.ok.inj hpolicy).symm
  · intro hne
    have hv : o.value? .contexts = some (.texts o.contexts) := by
      rw [Overrides.value?_contexts, if_neg hne]
    obtain ⟨-, ⟨key, v, hstated, names, rfl, hlisting⟩ | ⟨habsent, -⟩⟩ :=
      readContexts_eq_ok_iff.1 hcontexts
    · have hgiven := (hstated.unique (Overrides.statedBy_apply (by decide) hv)).2
      rwa [Value.texts_inj.1 hgiven] at hlisting
    · exact absurd (Overrides.statedBy_apply (by decide) hv) (habsent _ _)
  · intro b hb
    have hv : o.value? .includeAsync = some (.bool b) := congrArg (Option.map _) hb
    rw [readAsync, Overrides.readOption_apply_of_some (by decide) hv] at hasync
    exact (Except.ok.inj hasync).symm
  · intro hnone
    rw [readPolicy_apply hnone] at hpolicy
    exact readOption_flag_eq_ok_iff.1 hpolicy
  · intro hnil
    rw [readContexts_apply hnil] at hcontexts
    exact (readContexts_eq_ok_iff.1 hcontexts).2
  · intro hnone
    rw [readAsync_apply hnone] at hasync
    exact readOption_flag_eq_ok_iff.1 hasync

theorem sameBut_of_ofMembers_apply {r' : Options} (h : ofMembers (o.apply ms) = .ok r)
    (h' : ofMembers ms = .ok r') : SameBut o r r' := by
  obtain ⟨-, hpolicy, hcontexts, hasync⟩ := ofMembers_eq_ok_iff_read.1 h
  obtain ⟨-, hpolicy', hcontexts', hasync'⟩ := ofMembers_eq_ok_iff_read.1 h'
  refine ⟨?_, ?_, ?_⟩
  · intro hnone
    rw [readPolicy_apply hnone] at hpolicy
    exact Except.ok.inj (hpolicy.symm.trans hpolicy')
  · intro hnil
    rw [readContexts_apply hnil] at hcontexts
    exact Except.ok.inj (hcontexts.symm.trans hcontexts')
  · intro hnone
    rw [readAsync_apply hnone] at hasync
    exact Except.ok.inj (hasync.symm.trans hasync')

end Options

/-- **What is given wins, and nothing else changes.**  The members of an object with names of
options that are not given stay as they are.  The errors that are reported are those of the object
at such names and at unknown ones, in their order, with one more if the contexts given hold
something that is no name; then it is at the name of the contexts and says what is wrong with those
given.  They can be told unless no contexts are given and those of the object cannot be quoted.  If
there are none, an option that is given has the value given, and every other one the value that it
has in the object, which is the one that the object alone gives if it gives options.  An object some
of whose names are no texts stays without options: it is refused for its names, or for its other
members if what is wrong with these cannot be told. -/
theorem overrides_win (o : Overrides) (ms : List (String × Value)) :
    (o.apply ms).filter (fun m => ¬o.Covers m.1) = ms.filter (fun m => ¬o.Covers m.1) ∧
      (∃ (front back : List OptionError) (refused : Option OptionError),
        o.kept (reported (Options.resolve (.obj ms))) = front ++ back ∧
          reported (Options.resolve (o.applyTo (.obj ms))) = front ++ refused.toList ++ back ∧
          (refused.isSome ↔ ∃ name ∈ o.contexts, ¬MatchesName name) ∧
          ∀ e ∈ refused, e.key = OptionKey.contexts.camel ∧
            OptionKey.contexts.Refuses (.texts o.contexts) e.fault) ∧
      (∀ e, Options.resolve (o.applyTo (.obj ms)) = .error e →
        (e.message = none ↔ o.contexts = [] ∧ UnpairedContexts ms)) ∧
      (reported (Options.resolve (o.applyTo (.obj ms))) = [] →
        ∃ r, Options.resolve (o.applyTo (.obj ms)) = .ok r ∧ r.MergedFrom o ms ∧
          ∀ r', Options.resolve (.obj ms) = .ok r' → Options.SameBut o r r') ∧
      ∀ strays, ∃ e, Options.resolve (o.applyTo (.misnamed ms strays)) = .error e ∧
        (¬(o.contexts = [] ∧ UnpairedContexts ms) → e = .misnamed) ∧
        (o.contexts = [] ∧ UnpairedContexts ms →
          Options.resolve (o.applyTo (.obj ms)) = .error e) := by
  have hreported : reported (Options.resolve (o.applyTo (.obj ms))) =
      Options.memberErrors (o.apply ms) := Options.reported_ofMembers _
  have hraw : reported (Options.resolve (.obj ms)) = Options.memberErrors ms :=
    Options.reported_ofMembers _
  rw [hreported, hraw]
  simp only [← Overrides.unpairedContexts_apply_iff]
  refine ⟨o.filter_apply ms, Options.exists_memberErrors_apply o ms,
    fun e he => Options.message_eq_none_iff_of_resolve he, ?_,
    Options.exists_error_of_misnamed (o.apply ms)⟩
  intro hnil
  rcases Options.ofMembers_cases (o.apply ms) with ⟨-, r, hok, -⟩ | ⟨hne, -⟩
  · exact ⟨r, hok, Options.mergedFrom_of_ofMembers_apply hok,
      fun r' hraw => Options.sameBut_of_ofMembers_apply hok hraw⟩
  · exact absurd hnil hne

/-- An object with both names of a flag, neither with a truth value. -/
def spoiltMembers : List (String × Value) :=
  [("include_async", .int 1), ("onlyInLongLivedContexts", .bool false), ("includeAsync", .null)]

/-- The flag and the contexts are given. -/
def spareOverrides : Overrides where
  contexts := ["on", "off"]
  includeAsync := some true

/-- By itself the object has two errors; with the flag given it has none. -/
theorem overrides_win_spoilt :
    reported (Options.resolve (.obj spoiltMembers)) =
        [⟨"includeAsync", .notBoolean⟩, ⟨"include_async", .unknown⟩] ∧
      ∃ r, Options.resolve (spareOverrides.applyTo (.obj spoiltMembers)) = .ok r ∧
        r.includeAsync = true ∧ IsListing r.contexts ["on", "off"] := by
  obtain ⟨-, -, -, hresolves, -⟩ := overrides_win spareOverrides spoiltMembers
  obtain ⟨r, hok, hmerged, -⟩ := hresolves (by decide +kernel)
  exact ⟨by decide +kernel, r, hok, hmerged.givenAsync true rfl, hmerged.givenContexts nofun⟩

end BindLint
