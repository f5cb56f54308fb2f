/-!
# Steps that may fail

Reading a node, a file or a whole scan is a row of steps each of which may fail.  If the
row gives a result, so does each step, and the other way round; all later proofs take such
rows apart with the lemmas here.

## Main results

* `exists_of_bind_ok`, `bind_of_ok`, `bind_eq_error_iff` — two steps, one after the other.
* `exists_of_map_ok` — a step whose result is changed.
* `mapError_eq_ok_iff` — a step whose error is changed.
* `exists_of_mapM_ok`, `mapM_eq_error_iff` — a row of steps, of which the first that fails decides.
* `mapM_eq_none_iff` — a row of steps that fail without an error.
-/

namespace BindLint

variable {ε ε' α β : Type}

/-- Two steps that give a result give one each. -/
theorem exists_of_bind_ok {x : Except ε α} {f : α → Except ε β} {b : β} (h : x >>= f = .ok b) :
    ∃ a, x = .ok a ∧ f a = .ok b := by
  cases x with
  | error e => cases h
  | ok a => exact ⟨a, rfl, h⟩

/-- After a step that gives a result, the next goes on with it. -/
theorem bind_of_ok {x : Except ε α} {a : α} (h : x = .ok a) (f : α → Except ε β) :
    x >>= f = f a := by
  rw [h]
  rfl

theorem exists_of_map_ok {x : Except ε α} {f : α → β} {b : β} (h : x.map f = .ok b) :
    ∃ a, x = .ok a ∧ f a = b := by
  cases x with
  | error e => cases h
  | ok a => exact ⟨a, rfl, Except.ok.inj h⟩

/-- Two steps fail with an error if the first does, or if it gives a result and the second fails
with it. -/
theorem bind_eq_error_iff {x : Except ε α} {f : α → Except ε β} {e : ε} :
    x >>= f = .error e ↔ x = .error e ∨ ∃ a, x = .ok a ∧ f a = .error e := by
  cases x with
  | error e' =>
    constructor
    · intro h
      cases h
      exact Or.inl rfl
    · rintro (h | ⟨a, h, -⟩)
      · cases h
        rfl
      · cases h
  | ok a =>
    constructor
    · intro h
      exact Or.inr ⟨a, rfl, h⟩
    · rintro (h | ⟨b, h, hb⟩)
      · cases h
      · cases h
        exact hb

theorem mapError_eq_ok_iff {x : Except ε α} {f : ε → ε'} {a : α} :
    x.mapError f = .ok a ↔ x = .ok a := by
  cases x with
  | error e => exact iff_of_false (fun h => nomatch h) (fun h => nomatch h)
  | ok b => exact ⟨fun h => congrArg _ (Except.ok.inj h), fun h => congrArg _ (Except.ok.inj h)⟩

theorem toOption_eq_some_iff {x : Except ε α} {a : α} : x.toOption = some a ↔ x = .ok a := by
  cases x with
  | error e => exact iff_of_false (fun h => nomatch h) (fun h => nomatch h)
  | ok b => exact ⟨fun h => congrArg _ (Option.some.inj h), fun h => congrArg _ (Except.ok.inj h)⟩

theorem mapM_congr {f g : α → Except ε β} {l : List α} (h : ∀ a ∈ l, f a = g a) :
    l.mapM f = l.mapM g := by
  induction l with
  | nil => rfl
  | cons a l ih =>
    rw [List.mapM_cons, List.mapM_cons, h a List.mem_cons_self,
      ih fun b hb => h b (List.mem_cons_of_mem a hb)]

/-- If a row of steps gives a result, so does each of them. -/
theorem exists_of_mapM_ok {f : α → Except ε β} {l : List α} {bs : List β} (h : l.mapM f = .ok bs) :
    ∀ a ∈ l, ∃ b, f a = .ok b := by
  induction l generalizing bs with
  | nil => simp
  | cons a l ih =>
    rw [List.mapM_cons] at h
    obtain ⟨b, hb, h⟩ := exists_of_bind_ok h
    obtain ⟨rest, hrest, -⟩ := exists_of_bind_ok h
    intro c hc
    rcases List.mem_cons.1 hc with rfl | hc
    · exact ⟨b, hb⟩
    · exact ih hrest c hc

/-- In a row of steps the first that fails decides. -/
theorem mapM_eq_error_iff {f : α → Except ε β} {l : List α} {e : ε} :
    l.mapM f = .error e ↔
      ∃ front a rest, l = front ++ a :: rest ∧ (∃ bs, front.mapM f = .ok bs) ∧ f a = .error e := by
  induction l with
  | nil =>
    rw [List.mapM_nil]
    exact iff_of_false (fun h => nomatch h) (by simp)
  | cons b l ih =>
    rw [List.mapM_cons, bind_eq_error_iff]
    constructor
    · rintro (h | ⟨c, hc, h⟩)
      · exact ⟨[], b, l, rfl, ⟨[], rfl⟩, h⟩
      · rcases bind_eq_error_iff.1 h with h | ⟨cs, -, h⟩
        · obtain ⟨front, a, rest, rfl, ⟨bs, hbs⟩, ha⟩ := ih.1 h
          refine ⟨b :: front, a, rest, rfl, ⟨c :: bs, ?_⟩, ha⟩
          rw [List.mapM_cons, bind_of_ok hc, bind_of_ok hbs]
          rfl
        · cases h
    · rintro ⟨front, a, rest, hl, ⟨bs, hbs⟩, ha⟩
      cases front with
      | nil =>
        obtain ⟨rfl, -⟩ := List.cons.inj hl
        exact Or.inl ha
      | cons b' front =>
        obtain ⟨rfl, rfl⟩ := List.cons.inj hl
        rw [List.mapM_cons] at hbs
        obtain ⟨c, hc, hbs⟩ := exists_of_bind_ok hbs
        obtain ⟨cs, hcs, -⟩ := exists_of_bind_ok hbs
        refine Or.inr ⟨c, hc, bind_eq_error_iff.2 (Or.inl ?_)⟩
        exact ih.2 ⟨front, a, rest, rfl, ⟨cs, hcs⟩, ha⟩

theorem mapM_eq_none_iff {f : α → Option β} {l : List α} :
    l.mapM f = none ↔ ∃ a ∈ l, f a = none := by
  induction l with
  | nil => exact iff_of_false (fun h => nomatch h) (by simp)
  | cons a l ih =>
    simp only [List.mapM_cons, List.mem_cons, exists_eq_or_imp, ← ih]
    cases f a with
    | none => exact iff_of_true rfl (Or.inl rfl)
    | some b => cases l.mapM f <;> simp

end BindLint
