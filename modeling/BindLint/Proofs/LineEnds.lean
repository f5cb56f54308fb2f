import BindLint.Proofs.Grammar
import BindLint.Proofs.Laminar

/-!
# Fixing keeps line ends

Text files end their lines with a line feed, or with a carriage return and a line feed.  A fixed
text is glued together from old bytes and new ones: gaps between the ranges that are replaced,
texts of nodes taken over word for word (a receiver twice, a delay, arguments that may run over
several lines), and fixed text without any line end.  A property of bytes that survives gluing
and holds of every piece that starts where a node starts or stops therefore holds of the result,
round after round.

Two properties survive gluing: there is no carriage return, and each line feed stands right
behind a carriage return.  Pieces of bytes with the second property have it again if they do not
start between the two.

## Main definitions

* `EachBehind` — each of one element of a list stands right behind another one.
* `Splits` — an offset stands between the two.
* `Gluable` — a property that survives gluing.
* `Node.KeepsBreaks` — no node of a tree starts or stops inside a line end.

## Main results

* `eachBehind_encode` — on characters and on bytes it is the same.
* `Gluable.offer` — what is offered for a closure is glued from pieces.
* `Gluable.applySuggestions`, `fixRounds_induction` — one round, and a whole run.
* `fix_keeps_lineEnds` — **fixing keeps line ends of either kind.**
-/

namespace BindLint

/-! ### One element behind another -/

/-- Every `feed` of a list stands right behind a `ret`. -/
def EachBehind {α : Type} (ret feed : α) (l : List α) : Prop :=
  ∀ before after, l = before ++ feed :: after → before.getLast? = some ret

/-- An offset of a list stands between a `ret` and a `feed` right behind it. -/
def Splits {α : Type} (ret feed : α) (l : List α) (k : Nat) : Prop :=
  (l.take k).getLast? = some ret ∧ (l.drop k).head? = some feed

instance {α : Type} [DecidableEq α] (ret feed : α) (l : List α) (k : Nat) :
    Decidable (Splits ret feed l k) :=
  inferInstanceAs (Decidable ((l.take k).getLast? = some ret ∧ (l.drop k).head? = some feed))

section

variable {α : Type} {ret feed : α} {a b l : List α}

theorem eachBehind_iff :
    EachBehind ret feed l ↔
      ∀ k ∈ List.range l.length, l[k]? = some feed → (l.take k).getLast? = some ret := by
  constructor
  · intro h k hk hfeed
    have hlt : k < l.length := List.mem_range.1 hk
    have hcut : l = l.take k ++ l[k] :: l.drop (k + 1) := by
      rw [List.getElem_cons_drop, List.take_append_drop]
    rw [List.getElem?_eq_getElem hlt] at hfeed
    rw [Option.some.inj hfeed] at hcut
    exact h _ _ hcut
  · rintro h before after rfl
    have hlast := h before.length (by simp) (by simp)
    rwa [List.take_left] at hlast

instance [DecidableEq α] : Decidable (EachBehind ret feed l) :=
  decidable_of_iff _ eachBehind_iff.symm

namespace EachBehind

theorem of_not_mem (h : feed ∉ l) : EachBehind ret feed l := by
  rintro before after rfl
  exact absurd (List.mem_append_right before List.mem_cons_self) h

theorem append (ha : EachBehind ret feed a) (hb : EachBehind ret feed b) :
    EachBehind ret feed (a ++ b) := by
  intro before after h
  rcases List.append_eq_append_iff.1 h with ⟨c, rfl, hc⟩ | ⟨c, hc, hfeed⟩
  · rw [List.getLast?_append, hb c after hc]
    rfl
  · cases c with
    | nil =>
      -- the second list would start with a `feed`
      have hnone := hb [] after hfeed.symm
      cases hnone
    | cons x c =>
      obtain ⟨rfl, -⟩ := List.cons_eq_cons.1 hfeed
      exact ha before c hc

theorem take (h : EachBehind ret feed l) (k : Nat) : EachBehind ret feed (l.take k) := by
  intro before after htake
  refine h before (after ++ l.drop k) ?_
  calc l = l.take k ++ l.drop k := (List.take_append_drop k l).symm
    _ = before ++ feed :: (after ++ l.drop k) := by rw [htake]; simp

/-- What is left behind an offset has the property again, unless the offset stands between the
two. -/
theorem drop (h : EachBehind ret feed l) {k : Nat} (hk : ¬Splits ret feed l k) :
    EachBehind ret feed (l.drop k) := by
  intro before after hdrop
  have hlast : (l.take k ++ before).getLast? = some ret := by
    refine h _ after ?_
    rw [List.append_assoc, ← hdrop, List.take_append_drop]
  rcases List.eq_nil_or_concat before with rfl | ⟨init, x, rfl⟩
  · rw [List.append_nil] at hlast
    exact absurd ⟨hlast, by rw [hdrop]; rfl⟩ hk
  · rw [List.concat_eq_append, ← List.append_assoc, List.getLast?_concat] at hlast
    rw [List.concat_eq_append, List.getLast?_concat, hlast]

end EachBehind

end

/-! ### Line ends in bytes -/

/-- The byte in front of the line feed where lines end with two characters. -/
def carriageReturn : UInt8 := 0x0D

namespace Utf8

/-- A byte below `0x80` stands in the encoding of one character only, and stands there alone. -/
theorem utf8EncodeChar_of_mem {c : Char} {b : UInt8} (hb : b.toNat < 128)
    (h : b ∈ String.utf8EncodeChar c) : String.utf8EncodeChar c = [b] ∧ c.toNat = b.toNat := by
  have hlong : ∀ n, 128 ≤ n → n < 256 → b ≠ UInt8.ofNat n := by
    rintro n hn hlt rfl
    rw [UInt8.toNat_ofNat_of_lt' hlt] at hb
    omega
  rw [String.utf8EncodeChar.eq_1] at h ⊢
  split at h
  · next hc =>
    rw [if_pos hc]
    obtain rfl := List.mem_singleton.1 h
    have hlt : c.val.toNat < UInt8.size := Nat.lt_of_le_of_lt hc (by decide)
    exact ⟨rfl, (UInt8.toNat_ofNat_of_lt' hlt).symm⟩
  · -- all bytes of a longer encoding have the highest bit
    exfalso
    split_ifs at h
    all_goals
      simp only [List.mem_cons, List.not_mem_nil, or_false] at h
    · rcases h with h | h <;> exact hlong _ (by omega) (by omega) h
    · rcases h with h | h | h <;> exact hlong _ (by omega) (by omega) h
    · rcases h with h | h | h | h <;> exact hlong _ (by omega) (by omega) h

theorem eq_of_mem_utf8EncodeChar {c d : Char} {b : UInt8} (hb : b.toNat < 128)
    (hc : b ∈ String.utf8EncodeChar c) (hd : b ∈ String.utf8EncodeChar d) : c = d :=
  Char.toNat_inj.1 ((utf8EncodeChar_of_mem hb hc).2.trans (utf8EncodeChar_of_mem hb hd).2.symm)

theorem mem_encode_iff {b : UInt8} {d : Char} (hb : b.toNat < 128)
    (hd : b ∈ String.utf8EncodeChar d) {text : String} : b ∈ encode text ↔ d ∈ text.toList := by
  rw [encode, List.mem_flatMap]
  constructor
  · rintro ⟨c, hc, hmem⟩
    rwa [eq_of_mem_utf8EncodeChar hb hmem hd] at hc
  · intro h
    exact ⟨d, h, hd⟩

end Utf8

/-- An element of a list of pieces stands in one of them. -/
theorem exists_of_flatMap_eq {α β : Type} {f : α → List β} {l : List α} {before after : List β}
    {x : β} (h : l.flatMap f = before ++ x :: after) :
    ∃ p c q u v, l = p ++ c :: q ∧ f c = u ++ x :: v ∧ before = p.flatMap f ++ u := by
  induction l generalizing before with
  | nil => cases before <;> cases h
  | cons c l ih =>
    rw [List.flatMap_cons] at h
    rcases List.append_eq_append_iff.1 h with ⟨rest, rfl, hrest⟩ | ⟨rest, hc, hrest⟩
    · obtain ⟨p, d, q, u, v, rfl, hd, rfl⟩ := ih hrest
      exact ⟨c :: p, d, q, u, v, rfl, hd, by simp⟩
    · cases rest with
      | nil =>
        have hnext : l.flatMap f = [] ++ x :: after := hrest.symm
        obtain ⟨p, d, q, u, v, rfl, hd, hnil⟩ := ih hnext
        exact ⟨c :: p, d, q, u, v, rfl, hd, by simp [hc, ← hnil]⟩
      | cons y rest =>
        obtain ⟨rfl, -⟩ := List.cons_eq_cons.1 hrest
        exact ⟨[], c, l, before, rest, rfl, hc, rfl⟩

/-- Each line feed of a text stands behind a carriage return exactly if it does in its bytes. -/
theorem eachBehind_encode {text : String} :
    EachBehind carriageReturn lineFeed (Utf8.encode text) ↔ EachBehind '\r' '\n' text.toList := by
  have hret : carriageReturn ∈ String.utf8EncodeChar '\r' := by decide
  have hfeed : lineFeed ∈ String.utf8EncodeChar '\n' := by decide
  constructor
  · intro h before after htext
    have hbytes : Utf8.encode text =
        before.flatMap String.utf8EncodeChar ++ lineFeed :: after.flatMap String.utf8EncodeChar := by
      rw [Utf8.encode, htext, List.flatMap_append, List.flatMap_cons]
      rfl
    have hlast := h _ _ hbytes
    rcases List.eq_nil_or_concat before with rfl | ⟨init, c, rfl⟩
    · cases hlast
    · rw [List.concat_eq_append] at hlast ⊢
      rw [List.flatMap_append, List.flatMap_singleton,
        List.getLast?_append_of_ne_nil _ String.utf8EncodeChar_ne_nil] at hlast
      rw [List.getLast?_concat,
        Utf8.eq_of_mem_utf8EncodeChar (by decide) (List.mem_of_getLast? hlast) hret]
  · intro h before after hbytes
    obtain ⟨p, c, q, u, v, htext, hc, rfl⟩ := exists_of_flatMap_eq hbytes
    have hmem : lineFeed ∈ String.utf8EncodeChar c := by simp [hc]
    obtain rfl : c = '\n' := Utf8.eq_of_mem_utf8EncodeChar (by decide) hmem hfeed
    -- the line feed is all of its character
    have hu : u = [] := by
      have hfeed' : String.utf8EncodeChar '\n' = [lineFeed] := by decide
      rw [hfeed'] at hc
      rcases List.singleton_eq_append_iff.1 hc with ⟨hu, -⟩ | ⟨-, hcons⟩
      · exact hu
      · cases hcons
    rcases List.eq_nil_or_concat p with rfl | ⟨init, d, rfl⟩
    · have hnone := h [] q htext
      cases hnone
    · have hlast := h _ q htext
      rw [List.concat_eq_append] at hlast ⊢
      rw [List.getLast?_concat] at hlast
      obtain rfl := Option.some.inj hlast
      rw [hu, List.append_nil, List.flatMap_append, List.flatMap_singleton,
        List.getLast?_append_of_ne_nil _ String.utf8EncodeChar_ne_nil]
      decide

/-! ### Gluing -/

/-- A property of bytes survives gluing: it holds of bytes without a line end, and of two pieces
one after the other if it holds of both. -/
structure Gluable (P : List UInt8 → Prop) : Prop where
  plain : ∀ {bytes}, carriageReturn ∉ bytes → lineFeed ∉ bytes → P bytes
  append : ∀ {a b}, P a → P b → P (a ++ b)

theorem gluable_eachBehind : Gluable (EachBehind carriageReturn lineFeed) where
  plain := fun _ hfeed => .of_not_mem hfeed
  append := .append

theorem gluable_not_mem : Gluable (carriageReturn ∉ ·) where
  plain := fun hret _ => hret
  append := fun ha hb hmem => (List.mem_append.1 hmem).elim ha hb

/-- A property holds of all pieces of some bytes that start at an offset. -/
def HoldsFrom (P : List UInt8 → Prop) (bytes : List UInt8) (k : Nat) : Prop :=
  ∀ n, P ((bytes.drop k).take n)

theorem HoldsFrom.drop {P : List UInt8 → Prop} {bytes : List UInt8} {k : Nat}
    (h : HoldsFrom P bytes k) : P (bytes.drop k) := by
  have hall := h (bytes.drop k).length
  rwa [List.take_length] at hall

/-- A property holds of all pieces of a text that start where a node of a tree starts or stops. -/
def Node.EdgesHold (P : List UInt8 → Prop) (tree : Node) (text : String) : Prop :=
  ∀ n : Node, n.Within tree →
    HoldsFrom P (Utf8.encode text) n.span.start ∧ HoldsFrom P (Utf8.encode text) n.span.stop

/-- The texts of a shape are those of nodes within the closure. -/
theorem exists_spelledAs {src : Source} {includeAsync : Bool} {n : Node} {s : Shape}
    (h : matchClosure src includeAsync n = .ok (some s)) :
    ∃ m : MethodCall, m.All (fun part => part.Within n) ∧ m.SpelledAs src s := by
  cases hcall : n.forwardedCall? includeAsync with
  | none =>
    rw [matchClosure_of_eq_none hcall] at h
    cases h
  | some found =>
    obtain ⟨form, m⟩ := found
    rw [matchClosure_of_eq_some hcall] at h
    obtain ⟨s', hread, heq⟩ := exists_of_map_ok h
    cases heq
    exact ⟨m, Node.within_of_forwardedCall? hcall, (MethodCall.read_eq_ok_iff.1 hread).2⟩

/-- Each of the texts of some nodes is the text of one of them. -/
theorem exists_mem_of_texts {src : Source} {ns : List Node} {ts : List String}
    (h : List.Forall₂ (fun n t => n.text src = .ok t) ns ts) :
    ∀ t ∈ ts, ∃ n ∈ ns, n.text src = .ok t := by
  induction h with
  | nil => simp
  | @cons n t ns ts hnt _ ih =>
    intro u hu
    rcases List.mem_cons.1 hu with rfl | hu
    · exact ⟨n, List.mem_cons_self, hnt⟩
    · obtain ⟨a, ha, hau⟩ := ih u hu
      exact ⟨a, List.mem_cons_of_mem n ha, hau⟩

namespace Gluable

variable {P : List UInt8 → Prop} {tree : Node} {text : String}

theorem encode_append (hP : Gluable P) {a b : String} (ha : P (Utf8.encode a))
    (hb : P (Utf8.encode b)) : P (Utf8.encode (a ++ b)) := by
  rw [Utf8.encode_append]
  exact hP.append ha hb

/-- The text of a node is a piece that starts where the node starts. -/
theorem node_text (htree : tree.EdgesHold P text) {n : Node} (hn : n.Within tree) {t : String}
    (ht : n.text (.ofText text) = .ok t) : P (Utf8.encode t) := by
  rw [← Utf8.decode_eq_ok_iff.1 ht]
  exact (htree n hn).1 _

theorem bound (hP : Gluable P) {receiver method : String} (hreceiver : P (Utf8.encode receiver))
    (hmethod : P (Utf8.encode method)) :
    P (Utf8.encode (receiver ++ "." ++ method ++ ".bind(" ++ receiver ++ ")")) := by
  have hdot : P (Utf8.encode ".") := hP.plain (by decide) (by decide)
  have hbind : P (Utf8.encode ".bind(") := hP.plain (by decide) (by decide)
  have hclose : P (Utf8.encode ")") := hP.plain (by decide) (by decide)
  exact hP.encode_append (hP.encode_append (hP.encode_append (hP.encode_append
    (hP.encode_append hreceiver hdot) hmethod) hbind) hreceiver) hclose

theorem intercalate (hP : Gluable P) {ts : List String} (h : ∀ t ∈ ts, P (Utf8.encode t)) :
    P (Utf8.encode (String.intercalate ", " ts)) := by
  have hcomma : P (Utf8.encode ", ") := hP.plain (by decide) (by decide)
  induction ts with
  | nil => exact hP.plain (by decide) (by decide)
  | cons t ts ih =>
    have ht := h t List.mem_cons_self
    have hts := ih fun u hu => h u (List.mem_cons_of_mem t hu)
    cases ts with
    | nil => rwa [String.intercalate_singleton]
    | cons u ts =>
      rw [String.intercalate_cons_cons]
      exact hP.encode_append (hP.encode_append ht hcomma) hts

/-- What is offered for a closure has the property: all but fixed text is taken from nodes. -/
theorem offer (hP : Gluable P) (htree : tree.EdgesHold P text) {o : Options} {p : Place}
    (hp : p ∈ tree.places) {s : Shape} {span : Span} {new : String}
    (hrep : Reportable o (.ofText text) p s) (hoffer : Offer (.ofText text) p s span new) :
    P (Utf8.encode new) := by
  obtain ⟨m, ⟨hreceiver, hproperty, harguments⟩, hspelled⟩ := exists_spelledAs hrep.forwards
  have hnode : p.node.Within tree := Place.within_root_of_mem_places hp
  have hbound : P (Utf8.encode (s.receiver ++ "." ++ s.method ++ ".bind(" ++ s.receiver ++ ")")) :=
    hP.bound (node_text htree (hreceiver.trans hnode) hspelled.receiver)
      (node_text htree (hproperty.trans hnode) hspelled.method)
  cases hoffer with
  | bound hargs => exact hbound
  | @scheduled site name delay hargs hsite hfirst hname hscheduler hdelay =>
    have hopen : P (Utf8.encode "(") := hP.plain (by decide) (by decide)
    have hclose : P (Utf8.encode ")") := hP.plain (by decide) (by decide)
    have hname' : P (Utf8.encode name) := by
      rcases hscheduler with rfl | rfl <;> exact hP.plain (by decide) (by decide)
    have hdelay' : P (Utf8.encode delay) := by
      unfold CallSite.DelayText at hdelay
      split at hdelay
      · rw [hdelay]
        exact hP.plain (by decide) (by decide)
      · next n hn =>
        have hin : n.Within p.root := hsite.within_root.2 n (List.mem_of_getElem? hn)
        rw [Place.root_of_mem_places hp] at hin
        exact node_text htree hin hdelay
    have hargs' : ∀ t ∈ s.arguments, P (Utf8.encode t) := by
      intro t ht
      obtain ⟨a, ha, hat⟩ := exists_mem_of_texts hspelled.arguments t ht
      exact node_text htree ((harguments a ha).trans hnode) hat
    refine hP.encode_append (hP.encode_append (hP.encode_append hname' hopen) ?_) hclose
    refine hP.intercalate fun t ht => ?_
    rcases List.mem_cons.1 ht with rfl | ht
    · exact hbound
    · rcases List.mem_cons.1 ht with rfl | ht
      · exact hdelay'
      · exact hargs' t ht

/-- Rebuilding a text has the property if the new texts have it: what stands between them starts
at the cursor, where the last range stopped. -/
theorem rebuilt (hP : Gluable P) {bytes : List UInt8} {cursor : Int} {ss : List Suggestion}
    (hcursor : 0 ≤ cursor) (hfrom : HoldsFrom P bytes cursor.toNat)
    (hss : ∀ s ∈ ss, 0 ≤ s.start ∧ (0 ≤ s.stop ∧ HoldsFrom P bytes s.stop.toNat) ∧
      P (Utf8.encode s.text)) :
    P (Splice.rebuilt bytes cursor ss) := by
  induction ss generalizing cursor with
  | nil =>
    rw [Splice.rebuilt, Splice.sliceFrom_of_nonneg bytes hcursor]
    exact hfrom.drop
  | cons s ss ih =>
    obtain ⟨hstart, ⟨hstop, hnext⟩, htext⟩ := hss s List.mem_cons_self
    have hrest := ih hstop hnext fun r hr => hss r (List.mem_cons_of_mem s hr)
    rw [Splice.rebuilt, Splice.slice_of_nonneg bytes hcursor hstart]
    exact hP.append (hP.append (hfrom _) htext) hrest

/-- **One round keeps the property.** -/
theorem applySuggestions (hP : Gluable P) {parse : Parser} {o : Options} {path : Path}
    (hzero : HoldsFrom P (Utf8.encode text) 0) (htree : (parse path text).EdgesHold P text)
    {fs : List Finding} (hfs : (lint parse o path text).findings = .ok fs) {out : Applied}
    (hout : BindLint.applySuggestions text fs = .ok out) : P (Utf8.encode out.text) := by
  simp only [BindLint.applySuggestions, Splice.sweep_eq] at hout
  obtain ⟨new, hnew, rfl⟩ := exists_of_map_ok hout
  rw [← Utf8.decode_eq_ok_iff.1 hnew]
  refine hP.rebuilt (Int.le_refl 0) hzero fun s hs => ?_
  have hmem : s ∈ Splice.offered fs :=
    (List.mergeSort_perm _ _).subset ((Splice.taken_sublist 0 _).subset hs)
  obtain ⟨f, hf, hhead⟩ := List.mem_filterMap.1 hmem
  obtain ⟨p, hp, shape, span, new, hrep, hoffer, -, hsuggestions⟩ :=
    exists_describes_of_mem_findings hfs f hf
  rw [hsuggestions] at hhead
  cases hhead
  obtain ⟨n, hn, rfl⟩ := hoffer.exists_within
  rw [Place.root_of_mem_places hp] at hn
  exact ⟨Int.natCast_nonneg _, ⟨Int.natCast_nonneg _, (htree n hn).2⟩,
    hP.offer htree hp hrep hoffer⟩

end Gluable

/-! ### Runs -/

/-- What every round of a run keeps, the run keeps, however it ends. -/
theorem fixRounds_induction {pass : String → Pass} {Q : String → Prop} (n : Nat) {text : String}
    (h : Q text)
    (hstep : ∀ r ∈ (fixRounds pass n text).rounds, Q r.source → ∀ fs out,
      (pass r.source).findings = .ok fs → applySuggestions r.source fs = .ok out → Q out.text) :
    Q (fixRounds pass n text).source := by
  induction n generalizing text with
  | zero => exact h
  | succ n ih =>
    rw [fixRounds] at hstep ⊢
    split
    · exact h
    · exact h
    · next fs hne hfs =>
      simp only [hfs] at hstep
      split
      · exact h
      · next out hout =>
        simp only [hout] at hstep
        split
        · next hzero =>
          rw [if_pos hzero] at hstep
          exact hstep _ List.mem_cons_self h fs out hfs hout
        · next hzero =>
          rw [if_neg hzero] at hstep
          refine ih (hstep _ List.mem_cons_self h fs out hfs hout) fun r hr => ?_
          exact hstep r (List.mem_cons_of_mem _ hr)

theorem Fixing.exists_patch {run : Fixing} {path : Path} {text : String}
    (hending : run.ending = .clean) (hne : run.source ≠ text) :
    ∃ patch, run.patch path text = .ok (some patch) := by
  have hfailed : ∀ e, run.ending ≠ .failed e := by
    intro e he
    rw [hending] at he
    cases he
  rw [Fixing.patch_of_not_failed hfailed, if_neg hne]
  exact ⟨_, rfl⟩

/-- **A run keeps the property**, if in every round pieces have it that start at the front of the
text or where a node starts or stops. -/
theorem Gluable.patch_source {P : List UInt8 → Prop} (hP : Gluable P) {parse : Parser}
    {o : Options} {path : Path} {passes : Int} {text : String} (h : P (Utf8.encode text))
    (hpieces : ∀ r ∈ (fix parse o path passes text).rounds, P (Utf8.encode r.source) →
      HoldsFrom P (Utf8.encode r.source) 0 ∧ (parse path r.source).EdgesHold P r.source)
    {patch : Patch} (hpatch : (fix parse o path passes text).patch path text = .ok (some patch)) :
    P (Utf8.encode patch.source) := by
  rw [(Fixing.of_patch hpatch).2]
  refine fixRounds_induction (Q := fun t => P (Utf8.encode t)) _ h ?_
  intro r hr hsource fs out hfs hout
  obtain ⟨hzero, htree⟩ := hpieces r hr hsource
  exact hP.applySuggestions hzero htree hfs hout

/-- No node of a tree starts or stops between a carriage return and the line feed behind it. -/
def Node.KeepsBreaks (tree : Node) (text : String) : Prop :=
  ∀ n : Node, n.Within tree →
    ¬Splits carriageReturn lineFeed (Utf8.encode text) n.span.start ∧
      ¬Splits carriageReturn lineFeed (Utf8.encode text) n.span.stop

/-- Whether a tree keeps line ends together can be checked place by place. -/
instance (tree : Node) (text : String) : Decidable (tree.KeepsBreaks text) :=
  decidable_of_iff
    (∀ p ∈ tree.places,
      ¬Splits carriageReturn lineFeed (Utf8.encode text) p.node.span.start ∧
        ¬Splits carriageReturn lineFeed (Utf8.encode text) p.node.span.stop) <| by
    rw [Node.KeepsBreaks, ← Place.forall_mem_places_iff]

theorem Node.KeepsBreaks.edgesHold {tree : Node} {text : String} (h : tree.KeepsBreaks text)
    (htext : EachBehind carriageReturn lineFeed (Utf8.encode text)) :
    tree.EdgesHold (EachBehind carriageReturn lineFeed) text :=
  fun n hn => ⟨(htext.drop (h n hn).1).take, (htext.drop (h n hn).2).take⟩

/-- No piece of bytes without a carriage return has one. -/
theorem holdsFrom_not_mem {bytes : List UInt8} (h : carriageReturn ∉ bytes) (k : Nat) :
    HoldsFrom (carriageReturn ∉ ·) bytes k :=
  fun _ hmem => h (List.mem_of_mem_drop (List.mem_of_mem_take hmem))

/-- **Fixing keeps line ends of either kind.**  If each line feed of a text stands behind a
carriage return, and no tree that is parsed on the way has a node that starts or stops between
the two, then each line feed of the new text stands behind a carriage return; and no carriage
return comes into a text without one. -/
theorem fix_keeps_lineEnds (parse : Parser) (o : Options) (path : Path) (passes : Int)
    (text : String) :
    (EachBehind '\r' '\n' text.toList →
        (∀ r ∈ (fix parse o path passes text).rounds,
          (parse path r.source).KeepsBreaks r.source) →
        ∀ patch, (fix parse o path passes text).patch path text = .ok (some patch) →
          EachBehind '\r' '\n' patch.source.toList) ∧
      ('\r' ∉ text.toList →
        ∀ patch, (fix parse o path passes text).patch path text = .ok (some patch) →
          '\r' ∉ patch.source.toList) := by
  constructor
  · intro htext htrees patch hpatch
    rw [← eachBehind_encode] at htext ⊢
    refine gluable_eachBehind.patch_source htext (fun r hr hsource => ?_) hpatch
    exact ⟨hsource.take, (htrees r hr).edgesHold hsource⟩
  · intro htext patch hpatch
    have hret : ∀ t : String, carriageReturn ∈ Utf8.encode t ↔ '\r' ∈ t.toList :=
      fun _ => Utf8.mem_encode_iff (by decide) (by decide)
    rw [← hret] at htext ⊢
    refine gluable_not_mem.patch_source htext (fun r _ hsource => ?_) hpatch
    exact ⟨holdsFrom_not_mem hsource 0,
      fun n _ => ⟨holdsFrom_not_mem hsource _, holdsFrom_not_mem hsource _⟩⟩

/-- A scheduler call whose closure forwards an argument that runs over a line end. -/
def brokenText : String := "setTimeout(() => o.m([\r\n]), 0)\r\n"

/-- The tree of `brokenText`. -/
def brokenTree : Node :=
  callTree 10 30
    [forwardingTree 11 26 .identifier ⟨17, 18⟩ 19 [.part ⟨"array"⟩ 21 25 none []],
      .part ⟨"number"⟩ 28 29 none []]

/-- A parser that knows `brokenText`, and finds nothing in any other text. -/
def brokenParser : Parser := fun _ text =>
  if text = brokenText then brokenTree
  else .mk ⟨⟨"program"⟩, ⟨0, (Utf8.encode text).length⟩, true, none, false, false, false⟩ []

/-- The argument is moved behind the delay together with the line end inside it, and a text
without line ends stays without them. -/
theorem fix_keeps_lineEnds_broken :
    let o : Options := ⟨true, ["on"], false⟩
    let path : Path := ⟨0, ["a.js"]⟩
    let run := fix brokenParser o path 10 brokenText
    (EachBehind '\r' '\n' brokenText.toList ∧
      (∀ r ∈ run.rounds, (brokenParser path r.source).KeepsBreaks r.source) ∧
      ∃ patch, run.patch path brokenText = .ok (some patch) ∧
        patch.source = "setTimeout(o.m.bind(o), 0, [\r\n])\r\n" ∧
        EachBehind '\r' '\n' patch.source.toList) ∧
      '\r' ∉ timerText.toList ∧
      ∃ patch, (fix timerParser o path 10 timerText).patch path timerText = .ok (some patch) ∧
        '\r' ∉ patch.source.toList := by
  intro o path run
  have htext : EachBehind '\r' '\n' brokenText.toList := by decide +kernel
  have htrees : ∀ r ∈ run.rounds, (brokenParser path r.source).KeepsBreaks r.source := by
    decide +kernel
  have hsource : run.source = "setTimeout(o.m.bind(o), 0, [\r\n])\r\n" := by decide +kernel
  have hpatch : ∃ patch, run.patch path brokenText = .ok (some patch) :=
    Fixing.exists_patch (by decide +kernel) (by rw [hsource]; decide)
  have hplain : '\r' ∉ timerText.toList := by decide +kernel
  have htimer : ∃ patch,
      (fix timerParser o path 10 timerText).patch path timerText = .ok (some patch) :=
    Fixing.exists_patch (by decide +kernel) (by decide +kernel)
  obtain ⟨patch, hpatch⟩ := hpatch
  obtain ⟨patch', htimer⟩ := htimer
  exact ⟨⟨htext, htrees, patch, hpatch, (Fixing.of_patch hpatch).2.trans hsource,
      (fix_keeps_lineEnds brokenParser o path 10 brokenText).1 htext htrees patch hpatch⟩,
    hplain, patch', htimer,
    (fix_keeps_lineEnds timerParser o path 10 timerText).2 hplain patch' htimer⟩

end BindLint
