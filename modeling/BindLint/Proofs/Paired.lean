import BindLint.Proofs.Steps
import BindLint.Value.Toml

/-!
# Texts of TOML documents

A TOML document has no way to spell half of a surrogate pair: a character is either written as it is
or by its number, and the number of a surrogate is refused.  So all texts in a document are texts,
the names of members among them, on every level.

A value is put together from values that were read before, and a statement puts one into a table
that is already there.  Both keep what is there free of such halves.

## Main definitions

* `Value.Paired` — a value without halves of surrogate pairs.
* `Toml.ReadsPaired` — the four readers of values give only such values.

## Main results

* `Toml.readsPaired` — reading with any fuel.
* `Toml.Document.pairedMembers_of_statement` — one statement.
* `Toml.pairedMembers_of_parse` — **no text of a TOML document holds half of a surrogate pair.**
-/

namespace BindLint

/-- A value none of whose texts and names holds half of a surrogate pair. -/
inductive Value.Paired : Value → Prop where
  /-- The absent value. -/
  | null : Paired .null
  /-- A truth value. -/
  | bool {b : Bool} : Paired (.bool b)
  /-- A whole number. -/
  | int {n : Int} : Paired (.int n)
  /-- Any other number. -/
  | float {literal : String} : Paired (.float literal)
  /-- A moment. -/
  | moment {m : Moment} : Paired (.moment m)
  /-- A text. -/
  | str {s : String} : Paired (.str s)
  /-- A list of such values. -/
  | arr {vs : List Value} (h : ∀ v ∈ vs, Paired v) : Paired (.arr vs)
  /-- An object of such values. -/
  | obj {ms : List (String × Value)} (h : ∀ m ∈ ms, Paired m.2) : Paired (.obj ms)

/-- Members with such values. -/
def PairedMembers (ms : List (String × Value)) : Prop := ∀ m ∈ ms, m.2.Paired

section

variable {ms : List (String × Value)} {name : String} {v : Value}

theorem pairedMembers_nil : PairedMembers [] := List.forall_mem_nil _

theorem PairedMembers.insert (h : PairedMembers ms) (hv : v.Paired) :
    PairedMembers (Value.insert name v ms) := by
  induction ms with
  | nil => exact List.forall_mem_singleton.2 hv
  | cons m ms ih =>
    obtain ⟨hm, hms⟩ := List.forall_mem_cons.1 h
    rw [Value.insert]
    split
    · exact List.forall_mem_cons.2 ⟨hv, hms⟩
    · exact List.forall_mem_cons.2 ⟨hm, ih hms⟩

theorem PairedMembers.of_lookup (h : PairedMembers ms) (hv : Value.lookup name ms = some v) :
    v.Paired := by
  obtain ⟨m, hm, rfl⟩ := Option.map_eq_some_iff.1 hv
  exact h m (List.mem_of_find?_eq_some hm)

end

namespace Toml

/-! ### Values that hold no others -/

section

variable {cs rest : List Char} {v : Value}

theorem paired_of_based? (h : based? cs = some (v, rest)) : v.Paired := by
  have hint : ∀ {base : Nat} {found : Option (List Char × List Char)},
      found.map (fun r => (Value.int (ofDigits base r.1), r.2)) = some (v, rest) → v.Paired := by
    intro base found h
    obtain ⟨r, -, heq⟩ := Option.map_eq_some_iff.1 h
    cases heq
    exact .int
  unfold based? at h
  split at h
  · dsimp only at h
    split at h
    · exact hint h
    · split at h
      · exact hint h
      · split at h
        · exact hint h
        · cases h
  · cases h

theorem paired_of_number {negative : Bool} {ds frac exp : List Char}
    (h : Json.number negative ds frac exp = .ok v) : v.Paired := by
  unfold Json.number at h
  split at h
  · unfold Json.integer at h
    split at h
    · cases h
    · cases h
      exact .int
  · cases h
    exact .float

theorem paired_of_decimal (h : decimal cs = .ok (v, rest)) : v.Paired := by
  unfold decimal at h
  dsimp only at h
  split at h
  · cases h
  · obtain ⟨w, hw, heq⟩ := exists_of_map_ok h
    cases heq
    exact paired_of_number hw

theorem paired_of_mem_words {w : String × Value} (h : w ∈ words) : w.2.Paired := by
  simp only [words, List.mem_cons, List.not_mem_nil, or_false] at h
  rcases h with rfl | rfl | rfl | rfl | rfl | rfl | rfl | rfl
  · exact .bool
  · exact .bool
  all_goals exact .float

theorem paired_of_scalar (h : scalar cs = .ok (v, rest)) : v.Paired := by
  unfold scalar at h
  split at h
  · next found hfound =>
    cases h
    obtain ⟨w, hw, heq⟩ := List.exists_of_findSome?_eq_some hfound
    obtain ⟨after, -, heq⟩ := Option.map_eq_some_iff.1 heq
    cases heq
    exact paired_of_mem_words hw
  · split at h
    · split at h
      · cases h
        exact .moment
      · cases h
    · split at h
      · next hbased =>
        cases h
        exact paired_of_based? hbased
      · exact paired_of_decimal h

end

/-! ### Tables -/

section

variable {ms ms' : List (String × Value)} {name : String} {v : Value}

theorem pairedMembers_of_addNew (hv : v.Paired) (hms : PairedMembers ms)
    (h : addNew name v ms = some ms') : PairedMembers ms' := by
  unfold addNew at h
  split at h
  · cases h
  · cases h
    exact hms.insert hv

theorem pairedMembers_of_appendTable (hms : PairedMembers ms)
    (h : Document.appendTable name ms = some ms') : PairedMembers ms' := by
  have htable : (Value.obj []).Paired := .obj pairedMembers_nil
  unfold Document.appendTable at h
  split at h
  · cases h
    exact hms.insert (.arr (List.forall_mem_singleton.2 htable))
  · next vs hvs =>
    cases h
    cases hms.of_lookup hvs with
    | arr hall =>
      refine hms.insert (.arr fun v hv => ?_)
      rcases List.mem_append.1 hv with hv | hv
      · exact hall v hv
      · rw [List.mem_singleton.1 hv]
        exact htable
  · cases h

/-- Changing a table below others keeps all of them free of halves, if the change does. -/
theorem pairedMembers_of_updateAt {lists : Bool} {key : List String}
    {f : List (String × Value) → Option (List (String × Value))}
    (hf : ∀ ms ms', PairedMembers ms → f ms = some ms' → PairedMembers ms')
    (hms : PairedMembers ms) (h : updateAt lists f key ms = some ms') : PairedMembers ms' := by
  induction key generalizing ms ms' with
  | nil => exact hf ms ms' hms h
  | cons k ks ih =>
    unfold updateAt at h
    split at h
    · obtain ⟨inner, hinner, rfl⟩ := Option.map_eq_some_iff.1 h
      exact hms.insert (.obj (ih pairedMembers_nil hinner))
    · next inner hlookup =>
      obtain ⟨inner', hinner, rfl⟩ := Option.map_eq_some_iff.1 h
      cases hms.of_lookup hlookup with
      | obj hold => exact hms.insert (.obj (ih hold hinner))
    · next vs hlookup =>
      split at h
      · next inner hlast =>
        obtain ⟨inner', hinner, rfl⟩ := Option.map_eq_some_iff.1 h
        cases hms.of_lookup hlookup with
        | arr hall =>
          cases hall _ (List.mem_of_getLast? hlast) with
          | obj hold =>
            refine hms.insert (.arr fun v hv => ?_)
            rcases List.mem_append.1 hv with hv | hv
            · exact hall v (List.dropLast_subset vs hv)
            · rw [List.mem_singleton.1 hv]
              exact .obj (ih hold hinner)
      · cases h
    · cases h

theorem pairedMembers_of_add {t t' : Inline} {key : List String} (ht : PairedMembers t.members)
    (hv : v.Paired) (h : t.add key v = some t') : PairedMembers t'.members := by
  unfold Inline.add at h
  split at h
  · cases h
  · split at h
    · cases h
    · obtain ⟨ms, hms, rfl⟩ := Option.map_eq_some_iff.1 h
      exact pairedMembers_of_updateAt (fun _ _ => pairedMembers_of_addNew hv) ht hms

end

/-! ### Values -/

/-- With some fuel, values are read that have no halves of surrogate pairs. -/
structure ReadsPaired (fuel : Nat) : Prop where
  value : ∀ {nesting cs v rest}, value fuel nesting cs = .ok (v, rest) → v.Paired
  elements : ∀ {nesting read cs v rest}, (∀ w ∈ read, w.Paired) →
    elements fuel nesting read cs = .ok (v, rest) → v.Paired
  inline : ∀ {nesting table cs v rest}, PairedMembers table.members →
    inline fuel nesting table cs = .ok (v, rest) → v.Paired
  pair : ∀ {nesting cs key v rest}, pair fuel nesting cs = .ok (key, v, rest) → v.Paired

namespace ReadsPaired

variable {fuel nesting : Nat} {cs rest : List Char} {v : Value}

theorem value_succ (ih : ReadsPaired fuel) (h : Toml.value (fuel + 1) nesting cs = .ok (v, rest)) :
    v.Paired := by
  unfold Toml.value at h
  split at h
  · split at h
    · cases h
    · split at h
      · cases h
        exact .arr (List.forall_mem_nil _)
      · exact ih.elements (List.forall_mem_nil _) h
      · cases h
  · split at h
    · cases h
    · split at h
      · cases h
        exact .obj pairedMembers_nil
      · exact ih.inline pairedMembers_nil h
  · obtain ⟨r, -, heq⟩ := exists_of_map_ok h
    cases heq
    exact .str
  · obtain ⟨r, -, heq⟩ := exists_of_map_ok h
    cases heq
    exact .str
  · exact paired_of_scalar h

theorem elements_succ (ih : ReadsPaired fuel) {read : List Value} (hread : ∀ w ∈ read, w.Paired)
    (h : Toml.elements (fuel + 1) nesting read cs = .ok (v, rest)) : v.Paired := by
  unfold Toml.elements at h
  split at h
  · cases h
  · next w after hw =>
    have hall : ∀ u ∈ w :: read, u.Paired := List.forall_mem_cons.2 ⟨ih.value hw, hread⟩
    have hlist : (Value.arr (w :: read).reverse).Paired :=
      .arr fun u hu => hall u (List.mem_reverse.1 hu)
    split at h
    · cases h
      exact hlist
    · split at h
      · cases h
        exact hlist
      · exact ih.elements hall h
      · cases h
    · cases h

theorem inline_succ (ih : ReadsPaired fuel) {table : Inline} (htable : PairedMembers table.members)
    (h : Toml.inline (fuel + 1) nesting table cs = .ok (v, rest)) : v.Paired := by
  unfold Toml.inline at h
  split at h
  · cases h
  · next hpair =>
    split at h
    · cases h
    · next hadd =>
      have htable' := pairedMembers_of_add htable (ih.pair hpair) hadd
      split at h
      · cases h
        exact .obj htable'
      · exact ih.inline htable' h
      · cases h

theorem pair_succ (ih : ReadsPaired fuel) {key : List String}
    (h : Toml.pair (fuel + 1) nesting cs = .ok (key, v, rest)) : v.Paired := by
  unfold Toml.pair at h
  split at h
  · obtain ⟨r, hr, heq⟩ := exists_of_map_ok h
    cases heq
    exact ih.value hr
  · cases h

end ReadsPaired

theorem readsPaired (fuel : Nat) : ReadsPaired fuel := by
  induction fuel with
  | zero =>
    refine ⟨?_, ?_, ?_, ?_⟩
    · intro _ _ _ _ h
      simp [value] at h
    · intro _ _ _ _ _ _ h
      simp [elements] at h
    · intro _ _ _ _ _ _ h
      simp [inline] at h
    · intro _ _ _ _ _ h
      simp [pair] at h
  | succ fuel ih => exact ⟨ih.value_succ, ih.elements_succ, ih.inline_succ, ih.pair_succ⟩

/-! ### Documents -/

theorem eq_some_of_required {α : Type} {x : Option α} {a : α} (h : Json.required x = .ok a) :
    x = some a := by
  cases x with
  | none => cases h
  | some b => exact congrArg some (Except.ok.inj h)

namespace Document

variable {d d' : Document} {key : List String} {cs rest : List Char} {v : Value}

theorem pairedMembers_of_openTable (hd : PairedMembers d.members)
    (h : d.openTable key = some d') : PairedMembers d'.members := by
  unfold openTable at h
  split at h
  · cases h
  · obtain ⟨ms, hms, rfl⟩ := Option.map_eq_some_iff.1 h
    refine pairedMembers_of_updateAt (fun ms ms' hold hsame => ?_) hd hms
    rwa [← Option.some.inj hsame]

theorem pairedMembers_of_openElement (hd : PairedMembers d.members)
    (h : d.openElement key = some d') : PairedMembers d'.members := by
  unfold openElement at h
  split at h
  · cases h
  · split at h
    · cases h
    · obtain ⟨ms, hms, rfl⟩ := Option.map_eq_some_iff.1 h
      exact pairedMembers_of_updateAt (fun _ _ => pairedMembers_of_appendTable) hd hms

theorem pairedMembers_of_assign (hd : PairedMembers d.members) (hv : v.Paired)
    (h : d.assign key v = some d') : PairedMembers d'.members := by
  unfold assign at h
  split at h
  · cases h
  · split at h
    · cases h
    · obtain ⟨ms, hms, rfl⟩ := Option.map_eq_some_iff.1 h
      exact pairedMembers_of_updateAt (fun _ _ => pairedMembers_of_addNew hv) hd hms

/-- One statement keeps a document free of halves. -/
theorem pairedMembers_of_statement (hd : PairedMembers d.members)
    (h : d.statement cs = .ok (d', rest)) : PairedMembers d'.members := by
  have hsettle : PairedMembers d.settle.members := hd
  unfold statement at h
  split at h
  · split at h
    · obtain ⟨d'', hopen, heq⟩ := exists_of_map_ok h
      cases heq
      exact pairedMembers_of_openElement hsettle (eq_some_of_required hopen)
    · cases h
  · split at h
    · obtain ⟨d'', hopen, heq⟩ := exists_of_map_ok h
      cases heq
      exact pairedMembers_of_openTable hsettle (eq_some_of_required hopen)
    · cases h
  · cases h
    exact hd
  · split at h
    · cases h
    · next hpair =>
      obtain ⟨d'', hassign, heq⟩ := exists_of_map_ok h
      cases heq
      have hv := (readsPaired _).pair hpair
      exact pairedMembers_of_assign hd hv (eq_some_of_required hassign)

theorem pairedMembers_of_statements {fuel : Nat} (hd : PairedMembers d.members)
    (h : statements fuel d cs = .ok d') : PairedMembers d'.members := by
  induction fuel generalizing d cs with
  | zero => cases h
  | succ fuel ih =>
    unfold statements at h
    split at h
    · cases h
      exact hd
    · exact ih hd h
    · split at h
      · cases h
      · next hstatement =>
        have hd' := pairedMembers_of_statement hd hstatement
        split at h
        · cases h
          exact hd'
        · exact ih hd' h
        · cases h

end Document

/-- **No text of a TOML document holds half of a surrogate pair.** -/
theorem pairedMembers_of_parse {document : String} {ms : List (String × Value)}
    (h : parse document = .ok ms) : PairedMembers ms := by
  obtain ⟨d, hd, rfl⟩ := exists_of_map_ok h
  exact Document.pairedMembers_of_statements pairedMembers_nil hd

end Toml
end BindLint
