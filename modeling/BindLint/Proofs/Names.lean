import BindLint.Options.Resolve
import Mathlib.Data.List.Sort
import Mathlib.Data.String.Basic

/-!
# Names of calls

A name of a call is a bare identifier: letters, digits, `_` and `$`, without a digit at the start.
Options take a text for a name if it matches a pattern from its start up to its end, and a text
also counts as ended in front of a line feed that is its last character.  So the texts that are
taken are the identifiers, and the identifiers with one line feed behind them
(`acceptsName_iff`).

The names that options hold are a set.  It is kept as the list of its members in order, and each
set has exactly one such list (`sortNames_eq_iff`).

## Main definitions

* `IsIdentifier` — the characters of a bare identifier.
* `MatchesName` — a text that the pattern of names matches.
* `IsListing` — the list of a set of names.

## Main results

* `acceptsName_iff` — a text is taken for a name exactly if it matches the pattern.
* `sortNames_eq_iff` — **a set of names has one listing.**
-/

namespace BindLint

/-! ### Identifiers -/

/-- A letter without an accent. -/
def IsLetter (c : Char) : Prop := 'A' ≤ c ∧ c ≤ 'Z' ∨ 'a' ≤ c ∧ c ≤ 'z'

/-- A decimal digit. -/
def IsDigit (c : Char) : Prop := '0' ≤ c ∧ c ≤ '9'

/-- The characters of a bare identifier: there is a first one, which is a letter, `_` or `$`, and
all are letters, digits, `_` or `$`. -/
def IsIdentifier (cs : List Char) : Prop :=
  (∃ c, cs.head? = some c ∧ (IsLetter c ∨ c = '_' ∨ c = '$')) ∧
    ∀ c ∈ cs, IsLetter c ∨ IsDigit c ∨ c = '_' ∨ c = '$'

/-- A text that the pattern of names matches: an identifier from the start of the text on, behind
which the text ends or has a line feed as its last character. -/
def MatchesName (name : String) : Prop :=
  ∃ bare stop, name.toList = bare ++ stop ∧ IsIdentifier bare ∧ (stop = [] ∨ stop = ['\n'])

theorem isAlpha_iff {c : Char} : c.isAlpha = true ↔ IsLetter c := by
  have hupper : c.isUpper = true ↔ 'A' ≤ c ∧ c ≤ 'Z' := decide_eq_true_iff
  have hlower : c.isLower = true ↔ 'a' ≤ c ∧ c ≤ 'z' :=
    Bool.and_eq_true_iff.trans (and_congr decide_eq_true_iff decide_eq_true_iff)
  rw [IsLetter, ← hupper, ← hlower]
  exact Bool.or_eq_true_iff

theorem isNameStart_iff {c : Char} : isNameStart c = true ↔ IsLetter c ∨ c = '_' ∨ c = '$' := by
  simp [isNameStart, isAlpha_iff, or_assoc]

theorem isNameChar_iff {c : Char} :
    isNameChar c = true ↔ IsLetter c ∨ IsDigit c ∨ c = '_' ∨ c = '$' := by
  have hdigit : c.isDigit = true ↔ IsDigit c := by simp [Char.isDigit, IsDigit, Char.le_def]
  simp [isNameChar, Char.isAlphanum, isAlpha_iff, hdigit, or_assoc]

theorem isBareName_iff {cs : List Char} : isBareName cs = true ↔ IsIdentifier cs := by
  cases cs with
  | nil => simp [isBareName, IsIdentifier]
  | cons c cs =>
    rw [isBareName, Bool.and_eq_true, List.all_eq_true]
    constructor
    · rintro ⟨hstart, hrest⟩
      refine ⟨⟨c, rfl, isNameStart_iff.1 hstart⟩, ?_⟩
      intro d hd
      rcases List.mem_cons.1 hd with rfl | hd
      · exact (isNameStart_iff.1 hstart).imp_right Or.inr
      · exact isNameChar_iff.1 (hrest d hd)
    · rintro ⟨⟨d, hd, hstart⟩, hall⟩
      obtain rfl : c = d := Option.some.inj hd
      refine ⟨isNameStart_iff.2 hstart, fun d hd => ?_⟩
      exact isNameChar_iff.2 (hall d (List.mem_cons_of_mem c hd))

instance (cs : List Char) : Decidable (IsIdentifier cs) :=
  decidable_of_iff (isBareName cs = true) isBareName_iff

/-- An identifier has no line feed, at its end or anywhere. -/
theorem IsIdentifier.getLast?_ne {cs : List Char} (h : IsIdentifier cs) :
    cs.getLast? ≠ some '\n' := by
  intro hlast
  have hfeed := h.2 _ (List.mem_of_getLast? hlast)
  revert hfeed
  unfold IsLetter IsDigit
  decide

/-- A text is taken for a name exactly if it matches the pattern of names. -/
theorem acceptsName_iff {name : String} : acceptsName name = true ↔ MatchesName name := by
  rw [acceptsName, Bool.or_eq_true, Bool.and_eq_true, decide_eq_true_eq, isBareName_iff,
    isBareName_iff]
  constructor
  · rintro (h | ⟨hlast, h⟩)
    · exact ⟨name.toList, [], by rw [List.append_nil], h, Or.inl rfl⟩
    · exact ⟨_, ['\n'], (List.dropLast_append_getLast? '\n' hlast).symm, h, Or.inr rfl⟩
  · rintro ⟨bare, stop, hname, h, rfl | rfl⟩
    · rw [hname, List.append_nil]
      exact Or.inl h
    · rw [hname, List.getLast?_concat, List.dropLast_concat]
      exact Or.inr ⟨rfl, h⟩

/-- The texts that are taken and are no identifiers are those with a line feed at the end. -/
theorem MatchesName.isIdentifier_iff {name : String} (h : MatchesName name) :
    IsIdentifier name.toList ↔ name.toList.getLast? ≠ some '\n' := by
  obtain ⟨bare, stop, hname, hbare, rfl | rfl⟩ := h
  · rw [hname, List.append_nil]
    exact iff_of_true hbare hbare.getLast?_ne
  · rw [hname, List.getLast?_concat]
    refine iff_of_false (fun hident => ?_) (fun hne => hne rfl)
    exact hident.getLast?_ne List.getLast?_concat

theorem isIdentifier_of_mem_defaultContexts :
    ∀ name ∈ defaultContexts, IsIdentifier name.toList := by
  decide +kernel

theorem IsIdentifier.matchesName {name : String} (h : IsIdentifier name.toList) :
    MatchesName name :=
  ⟨name.toList, [], (List.append_nil _).symm, h, Or.inl rfl⟩

/-! ### Sets of names -/

theorem pairwise_eraseDups {α : Type} [DecidableEq α] {r : α → α → Prop} :
    ∀ {l : List α}, l.Pairwise r → l.eraseDups.Pairwise fun a b => r a b ∧ a ≠ b
  | [], _ => List.Pairwise.nil
  | a :: l, h => by
    obtain ⟨ha, hl⟩ := List.pairwise_cons.1 h
    rw [List.eraseDups_cons, List.pairwise_cons]
    refine ⟨?_, pairwise_eraseDups (hl.filter _)⟩
    intro b hb
    obtain ⟨hmem, hne⟩ := List.mem_filter.1 (List.mem_eraseDups.1 hb)
    have hab : a ≠ b := by
      rintro rfl
      simp at hne
    exact ⟨ha b hmem, hab⟩
termination_by l => l.length
decreasing_by
  have := List.length_filter_le (fun b => !b == a) l
  simp only [List.length_cons]
  omega

/-- A list of names is the listing of a set: it has the members of the set and no others, strictly
in order. -/
structure IsListing (listing names : List String) : Prop where
  ordered : listing.Pairwise (· < ·)
  mem_iff : ∀ name, name ∈ listing ↔ name ∈ names

theorem isListing_sortNames (names : List String) : IsListing (sortNames names) names := by
  refine ⟨?_, fun name => mem_sortNames⟩
  have htrans (a b c : String) (hab : decide (a ≤ b) = true) (hbc : decide (b ≤ c) = true) :
      decide (a ≤ c) = true :=
    decide_eq_true (String.le_trans (of_decide_eq_true hab) (of_decide_eq_true hbc))
  have htotal (a b : String) : (decide (a ≤ b) || decide (b ≤ a)) = true := by
    simpa using String.le_total a b
  have hsorted : (names.mergeSort fun a b => decide (a ≤ b)).Pairwise fun a b => a ≤ b :=
    (List.pairwise_mergeSort htrans htotal names).imp of_decide_eq_true
  refine (pairwise_eraseDups hsorted).imp ?_
  rintro a b ⟨hle, hne⟩
  exact lt_of_le_of_ne hle hne

/-- **A set of names has one listing**: its members sorted, each once. -/
theorem sortNames_eq_iff {names listing : List String} :
    sortNames names = listing ↔ IsListing listing names := by
  constructor
  · rintro rfl
    exact isListing_sortNames names
  · intro h
    refine (isListing_sortNames names).ordered.eq_of_mem_iff h.ordered fun name => ?_
    rw [mem_sortNames, h.mem_iff]

theorem sortNames_singleton (name : String) : sortNames [name] = [name] :=
  sortNames_eq_iff.2 ⟨List.pairwise_singleton _ _, fun _ => Iff.rfl⟩

end BindLint
