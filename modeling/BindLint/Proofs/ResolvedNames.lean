import BindLint.Proofs.Resolved

/-!
# The names that are resolved

The contexts of resolved options are meant to be bare identifiers, and there is at least one.  What
is asked of a name, however, is that the pattern of names matches it, and the pattern also takes an
identifier with a line feed behind it.  Such a name is kept as it is: `line_feed_is_taken`.

## Main results

* `Options.exists_names_of_resolve` — where the contexts of resolved options come from.
* `resolved_names` — **the names that are resolved are identifiers, each with a line feed behind it
  or without.**
-/

namespace BindLint

/-- The contexts that are resolved are those of a list of names: the one that is stated, or else
the one of the defaults. -/
theorem Options.exists_names_of_resolve {v : Value} {o : Options} (h : resolve v = .ok o) :
    ∃ names, names ≠ [] ∧ (∀ name ∈ names, MatchesName name) ∧ IsListing o.contexts names ∧
      ((∃ ms key, v = .obj ms ∧ OptionKey.contexts.StatedBy ms key (.texts names)) ∨
        names = defaultContexts ∧
          ∀ ms key w, v = .obj ms → ¬OptionKey.contexts.StatedBy ms key w) := by
  have hdefault : ∀ name ∈ defaultContexts, MatchesName name := fun name hname =>
    (isIdentifier_of_mem_defaultContexts name hname).matchesName
  cases v with
  | null =>
    cases h
    exact ⟨defaultContexts, by decide, hdefault, isListing_sortNames _, Or.inr ⟨rfl, nofun⟩⟩
  | obj ms =>
    obtain ⟨hvalid, hstated⟩ := ofMembers_eq_ok_iff.1 h
    rcases hstated.contexts with ⟨key, w, hkey, names, rfl, hlisting⟩ | ⟨habsent, hcontexts⟩
    · obtain ⟨hne, hall⟩ :=
        OptionKey.accepts_texts_iff.1 (hvalid.values .contexts (by decide) key _ hkey)
      exact ⟨names, hne, hall, hlisting, Or.inl ⟨ms, key, rfl, hkey⟩⟩
    · rw [hcontexts]
      refine ⟨defaultContexts, by decide, hdefault, isListing_sortNames _, Or.inr ⟨rfl, ?_⟩⟩
      rintro ms' key w ⟨⟩
      exact habsent key w
  | misnamed ms strays =>
    obtain ⟨e, he, -⟩ := exists_error_of_misnamed ms strays
    rw [he] at h
    cases h
  | _ => cases h

/-- An object that states the contexts and nothing else gives them if they are names. -/
theorem Options.resolve_names {names : List String} (hne : names ≠ [])
    (hall : ∀ name ∈ names, MatchesName name) :
    resolve (.obj [(OptionKey.contexts.camel, .texts names)]) =
      .ok { contexts := sortNames names } := by
  have hread : readNames (.texts names) = .ok names := readNames_eq_ok_iff.2 ⟨rfl, hne, hall⟩
  change ofMembers _ = _
  rw [ofMembers_eq_ok_iff_read]
  refine ⟨rfl, rfl, ?_, rfl⟩
  rw [readContexts, OptionKey.readOption_of_statedBy (.camel rfl), hread]
  rfl

/-- **The names that are resolved are identifiers, each with a line feed behind it or without.**
There is at least one.  They are identifiers without exception exactly if no name that the value
states has a line feed at its end; and each identifier with a line feed behind it is taken. -/
theorem resolved_names (v : Value) (o : Options) (h : Options.resolve v = .ok o) :
    o.contexts ≠ [] ∧ (∀ name ∈ o.contexts, MatchesName name) ∧
      ((∀ name ∈ o.contexts, IsIdentifier name.toList) ↔
        ∀ ms key names, v = .obj ms → OptionKey.contexts.StatedBy ms key (.texts names) →
          ∀ name ∈ names, name.toList.getLast? ≠ some '\n') ∧
      ∀ name, MatchesName name ↔
        ∃ o', Options.resolve (.obj [(OptionKey.contexts.camel, .texts [name])]) = .ok o' ∧
          o'.contexts = [name] := by
  obtain ⟨names, hne, hall, hlisting, hsource⟩ := Options.exists_names_of_resolve h
  refine ⟨?_, fun name hname => hall name ((hlisting.mem_iff name).1 hname), ?_, fun name => ?_⟩
  · obtain ⟨name, hname⟩ := List.exists_mem_of_ne_nil names hne
    exact List.ne_nil_of_mem ((hlisting.mem_iff name).2 hname)
  · have hfeeds : (∀ name ∈ o.contexts, IsIdentifier name.toList) ↔
        ∀ name ∈ names, name.toList.getLast? ≠ some '\n' := by
      simp only [hlisting.mem_iff]
      exact forall₂_congr fun name hname => (hall name hname).isIdentifier_iff
    rw [hfeeds]
    constructor
    · rintro hnames ms key names' rfl hkey
      rcases hsource with ⟨ms', key', heq, hkey'⟩ | ⟨-, habsent⟩
      · cases heq
        rw [Value.texts_inj.1 (hkey.unique hkey').2]
        exact hnames
      · exact absurd hkey (habsent ms key _ rfl)
    · intro hstated
      rcases hsource with ⟨ms, key, heq, hkey⟩ | ⟨rfl, -⟩
      · exact hstated ms key names heq hkey
      · intro name hname
        exact (isIdentifier_of_mem_defaultContexts name hname).getLast?_ne
  · constructor
    · intro hname
      exact ⟨_, Options.resolve_names (List.cons_ne_nil name [])
        (List.forall_mem_singleton.2 hname), sortNames_singleton name⟩
    · rintro ⟨o', ho', hcontexts⟩
      obtain ⟨names', -, hall', hlisting', -⟩ := Options.exists_names_of_resolve ho'
      refine hall' name ((hlisting'.mem_iff name).1 ?_)
      rw [hcontexts]
      exact List.mem_singleton_self name

/-- A name that is stated twice, and one with a dollar sign and a digit. -/
theorem resolved_names_repeated :
    let names := ["on", "$a1", "on"]
    ∃ o, Options.resolve (.obj [("longLivedContexts", .texts names)]) = .ok o ∧
      o.contexts ≠ [] ∧ ∀ name ∈ o.contexts, IsIdentifier name.toList := by
  intro names
  have hident : ∀ name ∈ names, IsIdentifier name.toList := by decide +kernel
  have hok := Options.resolve_names (List.cons_ne_nil "on" ["$a1", "on"])
    fun name hname => (hident name hname).matchesName
  obtain ⟨hne, -, hiff, -⟩ := resolved_names _ _ hok
  refine ⟨_, hok, hne, hiff.2 ?_⟩
  rintro ms key names' ⟨⟩ hkey name hname
  have hstated : OptionKey.contexts.StatedBy [("longLivedContexts", .texts names)]
      "longLivedContexts" (.texts names) := .camel rfl
  rw [Value.texts_inj.1 (hkey.unique hstated).2] at hname
  exact (hident name hname).getLast?_ne

/-- A name with a line feed behind it is taken and kept as it is, although it is no identifier. -/
theorem line_feed_is_taken :
    Options.resolve (.obj [("longLivedContexts", .texts ["on\n"])]) =
        .ok { contexts := ["on\n"] } ∧
      ¬IsIdentifier "on\n".toList := by
  have hmatches : MatchesName "on\n" :=
    ⟨['o', 'n'], ['\n'], by decide +kernel, by decide, Or.inr rfl⟩
  refine ⟨?_, by decide +kernel⟩
  have hok := Options.resolve_names (List.cons_ne_nil "on\n" [])
    (List.forall_mem_singleton.2 hmatches)
  rw [sortNames_singleton] at hok
  exact hok

end BindLint
