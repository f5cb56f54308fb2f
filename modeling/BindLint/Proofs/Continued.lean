import BindLint.Proofs.Rounds

/-!
# Going on with a run of fixing

A run of fixing is given a number of rounds.  Nothing is carried from one round to the
next but the text, so the rounds may be given in two portions: what a first run of `n`
rounds leaves is taken up by a second run of `m` rounds, and together they come to what
one run of `n + m` rounds comes to.  If the first portion fails, so does the whole, and
for the same reason.

A run that ended because nothing was found has come to a text that no further round
changes: every run over that text leaves it as it is, and every longer run over the first
text comes to it.

## Main definitions

* `Fixing.result` — the text that a run came to, or why it failed.
* `fixedText` — the text that fixing a file ends with, read off its patch.

## Main results

* `result_fixRounds_add` — a run in two portions.
* `fixedText_eq` — the patch tells the text that the run came to.
* `fixedText_composes` — **fixing composes, and it ends where nothing is found.**
-/

namespace BindLint

/-! ### Runs in two portions -/

/-- The text that a run came to, or why it failed. -/
def Fixing.result (run : Fixing) : Except FixError String :=
  match run.ending with
  | .failed e => .error e
  | _ => .ok run.source

@[simp] theorem Fixing.result_cons (r : Round) (run : Fixing) : (run.cons r).result = run.result :=
  rfl

/-- A run over a text without findings comes to that text, however many rounds it has. -/
theorem result_fixRounds_of_clean {pass : String → Pass} {text : String}
    (h : (pass text).findings = .ok []) (n : Nat) : (fixRounds pass n text).result = .ok text := by
  cases n with
  | zero => rfl
  | succ n =>
    rw [fixRounds, h]
    rfl

/-- A run of `n + m` rounds comes to what a run of `m` rounds comes to after one of `n`
rounds. -/
theorem result_fixRounds_add {pass : String → Pass} (hpass : Productive pass) (n m : Nat)
    (text : String) :
    (fixRounds pass (n + m) text).result =
      (fixRounds pass n text).result >>= fun last => (fixRounds pass m last).result := by
  induction n generalizing text with
  | zero =>
    rw [Nat.zero_add]
    rfl
  | succ n ih =>
    rw [Nat.succ_add, fixRounds, fixRounds]
    split
    · rfl
    · next hclean =>
      -- the second portion has nothing to do
      exact (result_fixRounds_of_clean hclean m).symm
    · next fs hne hfound =>
      split
      · rfl
      · next out hout =>
        have hpos := hpass text fs out hfound hne hout
        rw [if_neg (Nat.pos_iff_ne_zero.1 hpos), if_neg (Nat.pos_iff_ne_zero.1 hpos),
          Fixing.result_cons, Fixing.result_cons]
        exact ih out.text

/-! ### Texts of patches -/

/-- The text that fixing a file in a number of rounds ends with: that of its patch, or the
old one if there is no patch. -/
def fixedText (parse : Parser) (o : Options) (path : Path) (passes : Int) (text : String) :
    Except FixError String :=
  ((fix parse o path passes text).patch path text).map fun patch =>
    (patch.map Patch.source).getD text

theorem Fixing.map_source_patch (run : Fixing) (path : Path) (text : String) :
    ((run.patch path text).map fun patch => (patch.map Patch.source).getD text) = run.result := by
  unfold patch result
  cases run.ending with
  | failed e => rfl
  | clean | stuck | exhausted =>
    simp only
    split
    · next hsource =>
      -- without a patch the text is the old one
      rw [hsource]
      rfl
    · rfl

/-- The patch tells the text that the run came to. -/
theorem fixedText_eq (parse : Parser) (o : Options) (path : Path) (passes : Int) (text : String) :
    fixedText parse o path passes text = (fix parse o path passes text).result :=
  Fixing.map_source_patch _ path text

theorem fixedText_natCast (parse : Parser) (o : Options) (path : Path) (n : Nat) (text : String) :
    fixedText parse o path n text = (fixRounds (lint parse o path) n text).result := by
  rw [fixedText_eq, fix, Int.toNat_natCast]

/-- Fixing a text without findings changes nothing. -/
theorem patch_of_clean {parse : Parser} {o : Options} {path : Path} {text : String}
    (h : (lint parse o path text).findings = .ok []) (passes : Int) :
    (fix parse o path passes text).patch path text = .ok none := by
  rw [fix]
  cases passes.toNat with
  | zero => exact if_pos rfl
  | succ n =>
    rw [fixRounds, h]
    exact if_pos rfl

/-- **Fixing composes, and it ends where nothing is found.**  To fix a text in `n + m`
rounds is to fix it in `n` rounds and to fix what that gives in `m` rounds.  If fixing ended
because nothing was found, fixing the result makes no patch, whatever number of rounds it is
given, and more rounds for the first text do not lead to another one. -/
theorem fixedText_composes (parse : Parser) (o : Options) (path : Path) (text : String) :
    (∀ n m : Nat, fixedText parse o path (n + m) text =
        fixedText parse o path n text >>= fixedText parse o path m) ∧
      ∀ n : Int, (fix parse o path n text).ending = .clean →
        ∃ last, fixedText parse o path n text = .ok last ∧
          (∀ passes : Int, (fix parse o path passes last).patch path last = .ok none) ∧
          ∀ more : Int, n ≤ more → fixedText parse o path more text = .ok last := by
  have hadd : ∀ n m : Nat, (fixRounds (lint parse o path) (n + m) text).result =
      (fixRounds (lint parse o path) n text).result >>= fun last =>
        (fixRounds (lint parse o path) m last).result :=
    fun n m => result_fixRounds_add (productive_lint parse o path) n m text
  refine ⟨?_, ?_⟩
  · intro n m
    rw [← Int.natCast_add, fixedText_natCast, fixedText_natCast, hadd]
    congr 1
    funext last
    exact (fixedText_natCast parse o path m last).symm
  · intro n hending
    have hresult : (fix parse o path n text).result = .ok (fix parse o path n text).source := by
      rw [Fixing.result, hending]
    have hclean : (lint parse o path (fix parse o path n text).source).findings = .ok [] :=
      (ran_of_ending_clean hending).findings_of_clean hending
    refine ⟨_, (fixedText_eq parse o path n text).trans hresult, patch_of_clean hclean, ?_⟩
    intro more hle
    -- the rounds beyond the first `n` are a second portion over a text without findings
    obtain ⟨m, hm⟩ : ∃ m, more.toNat = n.toNat + m := ⟨more.toNat - n.toNat, by omega⟩
    rw [fixedText_eq, fix, hm, hadd]
    change (fix parse o path n text).result >>= _ = _
    rw [hresult]
    exact result_fixRounds_of_clean hclean m

/-- The scheduler call is written anew in the first of two rounds; a third round, or a run
over the new text, changes nothing. -/
theorem fixedText_composes_timer :
    let o : Options := ⟨true, ["on"], false⟩
    let path : Path := ⟨0, ["a.js"]⟩
    let new := "setTimeout(é.m.bind(é), 0, x)"
    (fix timerParser o path 2 timerText).ending = .clean ∧
      fixedText timerParser o path 3 timerText = .ok new ∧
      (fixedText timerParser o path 1 timerText >>= fixedText timerParser o path 1) = .ok new ∧
      (fix timerParser o path 10 new).patch path new = .ok none := by
  intro o path new
  have hending : (fix timerParser o path 2 timerText).ending = .clean := by decide +kernel
  have hsource : (fix timerParser o path 2 timerText).source = new := by decide +kernel
  obtain ⟨hadd, hclean⟩ := fixedText_composes timerParser o path timerText
  obtain ⟨last, hlast, hpatch, hmore⟩ := hclean 2 hending
  have hnew : last = new := by
    rw [fixedText_eq, Fixing.result, hending, hsource] at hlast
    exact (Except.ok.inj hlast).symm
  subst hnew
  exact ⟨hending, hmore 3 (by decide), (hadd 1 1).symm.trans hlast, hpatch 10⟩

end BindLint
