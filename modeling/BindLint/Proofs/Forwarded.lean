import BindLint.Proofs.Laminar

/-!
# What a scheduler hands on

A scheduler hands the arguments after the delay on to its callback.  A closure without parameters
ignores them; a bound method receives them.  So once a suggestion is applied in a timer position,
the arguments after the delay must be those that the closure forwarded.

If the closure forwards arguments, the call is written anew and nothing else is left behind the
delay.  If it forwards none, only the closure is replaced, and what the call had behind the delay
stays: the bound method receives it, although the closure did not hand it on
(`scheduler_hands_on_extra`).

## Main definitions

* `CallSite.argumentsAfter` — the arguments of a scheduler call once the suggestion is applied.

## Main results

* `Placement.timer_of_isArgument` — the timer position at the callback of a scheduler.
* `suggestions_of_check` — what is suggested is the edit for the closure.
* `scheduled_arguments_iff` — **the arguments are preserved unless a closure that forwards none
  stands in a call with arguments behind the delay.**
-/

namespace BindLint

/-- The arguments of a scheduler call once the suggestion for its callback is applied: those of
the call written anew, or those of the call with the callback replaced. -/
def CallSite.argumentsAfter (src : Source) (site : CallSite) (s : Shape) (delay : Option String) :
    List (Except Utf8.Fault String) :=
  if s.hasArguments then (s.scheduledArguments delay).map .ok
  else (site.arguments.map fun a => a.text src).set 0 (.ok s.bound)

namespace CallSite

variable {src : Source} {site : CallSite} {s : Shape} {delay : Option String}

/-- Behind the delay stands what the closure forwards, or else what stood there before. -/
theorem drop_argumentsAfter :
    (site.argumentsAfter src s delay).drop 2 =
      if s.hasArguments then s.arguments.map .ok
      else (site.arguments.drop 2).map fun a => a.text src := by
  unfold argumentsAfter
  split
  · rfl
  · rw [List.drop_set_of_lt (by decide), List.map_drop]

/-- The delay stays as it is written. -/
theorem argumentsAfter_delay (h : readOptional src site.arguments[1]? = .ok delay) {n : Node}
    (hn : site.arguments[1]? = some n) :
    (site.argumentsAfter src s delay)[1]? = some (n.text src) := by
  unfold argumentsAfter
  split
  · rw [hn, readOptional] at h
    obtain ⟨text, htext, rfl⟩ := exists_of_map_ok h
    rw [htext]
    rfl
  · rw [List.getElem?_set_ne (by decide), List.getElem?_map, hn]
    rfl

end CallSite

/-- The placement of the callback of a scheduler holds its timer position. -/
theorem Placement.timer_of_isArgument {src : Source} {p : Place} {pl : Placement}
    {site : CallSite} {name : String} (h : read src p = .ok pl) (hsite : p.IsArgument site)
    (hfirst : site.index = 0) (hname : site.call.calleeName src = .ok (some name))
    (hscheduler : name = "setTimeout" ∨ name = "setInterval") :
    ∃ delay, readOptional src site.arguments[1]? = .ok delay ∧
      pl.timer = some ⟨name, delay, site.call⟩ := by
  rcases read_cases h with ⟨-, hno⟩ | ⟨site', hsite', -, hcallee, htimer⟩
  · exact absurd hsite (hno site)
  · obtain rfl := hsite.unique hsite'
    rw [← Except.ok.inj (hname.symm.trans hcallee),
      CallSite.timer?_of_scheduler hfirst hscheduler] at htimer
    obtain ⟨delay, hdelay, heq⟩ := exists_of_map_ok htimer
    exact ⟨delay, hdelay, heq.symm⟩

/-- What is suggested for a closure is the edit for its shape. -/
theorem suggestions_of_check {o : Options} {src : Source} {p : Place} {hit : Hit}
    (h : check o src p = .ok (some hit)) :
    ∃ s pl edit, matchClosure src o.includeAsync p.node = .ok (some s) ∧
      Placement.read src p = .ok pl ∧ s.edit p.node pl.timer = .ok edit ∧
      hit.finding.suggestions =
        [⟨edit.target.span.start, edit.target.span.stop, edit.text⟩] := by
  rcases check_ok h with ⟨-, hnone⟩ | ⟨s, pl, hmatch, hread, ⟨-, hnone⟩ | ⟨-, hit', hmake, heq⟩⟩
  · cases hnone
  · cases hnone
  · cases heq
    obtain ⟨edit, replaced, hedit, -, rfl⟩ := Hit.make_ok hmake
    exact ⟨s, pl, edit, hmatch, hread, hedit, rfl⟩

/-- **What a scheduler hands on after a rewrite** is what the closure forwarded, exactly if the
closure forwards something or nothing stands behind the delay.  In either form of the rewrite, a
delay that was given stays as it is written. -/
theorem scheduled_arguments_iff (o : Options) (src : Source) (p : Place) (hit : Hit) (s : Shape)
    (site : CallSite) (name : String) (hcheck : check o src p = .ok (some hit))
    (hshape : matchClosure src o.includeAsync p.node = .ok (some s))
    (hsite : p.IsArgument site) (hfirst : site.index = 0)
    (hname : site.call.calleeName src = .ok (some name))
    (hscheduler : name = "setTimeout" ∨ name = "setInterval") :
    ∃ delay, readOptional src site.arguments[1]? = .ok delay ∧
      (hit.finding.suggestions =
        if s.hasArguments then
          [⟨site.call.span.start, site.call.span.stop,
            name ++ "(" ++ String.intercalate ", " (s.scheduledArguments delay) ++ ")"⟩]
        else [⟨p.node.span.start, p.node.span.stop, s.bound⟩]) ∧
      (∀ n, site.arguments[1]? = some n →
        (site.argumentsAfter src s delay)[1]? = some (n.text src)) ∧
      ((site.argumentsAfter src s delay).drop 2 = s.arguments.map .ok ↔
        s.arguments ≠ [] ∨ site.arguments.length ≤ 2) := by
  obtain ⟨s', pl, edit, hmatch, hread, hedit, hsuggestions⟩ := suggestions_of_check hcheck
  cases hshape.symm.trans hmatch
  obtain ⟨delay, hdelay, htimer⟩ :=
    Placement.timer_of_isArgument hread hsite hfirst hname hscheduler
  refine ⟨delay, hdelay, ?_, fun n hn => CallSite.argumentsAfter_delay hdelay hn, ?_⟩
  · rw [hsuggestions]
    rw [htimer, Shape.edit] at hedit
    split at hedit
    · next hargs =>
      cases hedit
      rw [if_pos hargs]
      rfl
    · next hargs =>
      cases hedit
      rw [if_neg hargs]
  · rw [CallSite.drop_argumentsAfter]
    by_cases hargs : s.arguments = []
    · -- only the closure is replaced, so nothing may stand behind the delay
      have hnone : ¬s.hasArguments = true := by simp [Shape.hasArguments, hargs]
      rw [if_neg hnone, hargs, List.map_nil, List.map_eq_nil_iff, List.drop_eq_nil_iff]
      simp
    · have hsome : s.hasArguments = true := by simpa [Shape.hasArguments] using hargs
      rw [if_pos hsome]
      exact iff_of_true rfl (Or.inl hargs)

theorem exists_hit {o : Options} {src : Source} {p : Place}
    (h : (check o src p).toOption.join.isSome = true) : ∃ hit, check o src p = .ok (some hit) := by
  cases hcheck : check o src p with
  | error e =>
    rw [hcheck] at h
    cases h
  | ok answer =>
    rw [hcheck] at h
    obtain ⟨hit, hhit⟩ := Option.isSome_iff_exists.1 h
    exact ⟨hit, congrArg Except.ok hhit⟩

theorem Place.exists_callSite {α : Type} {p : Place} {read : CallSite → α} {a : α}
    (h : p.callSite?.map read = some a) : ∃ site, p.IsArgument site ∧ read site = a := by
  obtain ⟨site, hsite, hread⟩ := Option.map_eq_some_iff.1 h
  exact ⟨site, callSite?_eq_some_iff.1 hsite, hread⟩

/-- The closure forwards `x`, and another closure stands behind the delay: it is dropped. -/
theorem scheduled_arguments_iff_behindDelay :
    let o : Options := ⟨true, ["on"], false⟩
    let src := Source.ofText behindDelayText
    let p := behindDelayTree.places.get ⟨4, by decide⟩
    let s : Shape := ⟨"o", "m", ["x"], ⟨.expression, false⟩⟩
    ∃ hit site, check o src p = .ok (some hit) ∧
      matchClosure src o.includeAsync p.node = .ok (some s) ∧ p.IsArgument site ∧
      site.index = 0 ∧ site.call.calleeName src = .ok (some "setTimeout") ∧
      site.arguments.length = 3 ∧
      ∃ delay, (site.argumentsAfter src s delay)[1]? = some (.ok "0") ∧
        (site.argumentsAfter src s delay).drop 2 = [.ok "x"] := by
  intro o src p s
  obtain ⟨hit, hcheck⟩ : ∃ hit, check o src p = .ok (some hit) := exists_hit (by decide +kernel)
  have hshape : matchClosure src o.includeAsync p.node = .ok (some s) := by decide +kernel
  obtain ⟨site, hsite, hread⟩ : ∃ site, p.IsArgument site ∧
      (site.index, site.call.calleeName src, site.arguments.length,
        site.arguments[1]?.map fun a => a.text src) =
        (0, .ok (some "setTimeout"), 3, some (.ok "0")) :=
    Place.exists_callSite (by decide +kernel)
  simp only [Prod.mk.injEq, Option.map_eq_some_iff] at hread
  obtain ⟨hfirst, hname, hlength, n, hn, htext⟩ := hread
  obtain ⟨delay, -, -, hdelay, hforwarded⟩ := scheduled_arguments_iff o src p hit s site
    "setTimeout" hcheck hshape hsite hfirst hname (Or.inl rfl)
  refine ⟨hit, site, hcheck, hshape, hsite, hfirst, hname, hlength, delay, ?_, ?_⟩
  · rw [hdelay n hn, htext]
  · exact hforwarded.2 (Or.inl (List.cons_ne_nil "x" []))

/-- A scheduler call with an argument behind the delay, which its closure ignores. -/
def extraText : String := "setTimeout(() => o.m(), 100, x)"

/-- The tree of `extraText`. -/
def extraTree : Node :=
  callTree 10 31
    [forwardingTree 11 22 .identifier ⟨17, 18⟩ 19 [], .part ⟨"number"⟩ 24 27 none [],
      .part .identifier 29 30 none []]

/-- A closure that forwards nothing becomes a bound method, and the scheduler hands `x` on to it. -/
theorem scheduler_hands_on_extra :
    let o : Options := ⟨true, ["on"], false⟩
    let src := Source.ofText extraText
    let p := extraTree.places.get ⟨4, by decide⟩
    let s : Shape := ⟨"o", "m", [], ⟨.expression, false⟩⟩
    extraTree.Aligned extraText ∧
      ∃ hit site, check o src p = .ok (some hit) ∧
        matchClosure src o.includeAsync p.node = .ok (some s) ∧ p.IsArgument site ∧
        site.index = 0 ∧ site.call.calleeName src = .ok (some "setTimeout") ∧
        hit.finding.suggestions = [⟨11, 22, "o.m.bind(o)"⟩] ∧
        ∀ delay, site.argumentsAfter src s delay = [.ok "o.m.bind(o)", .ok "100", .ok "x"] := by
  intro o src p s
  have hsuggestions : (check o src p).toOption.join.map (fun hit => hit.finding.suggestions) =
      some [⟨11, 22, "o.m.bind(o)"⟩] := by decide +kernel
  obtain ⟨hit, hcheck⟩ : ∃ hit, check o src p = .ok (some hit) := exists_hit (by decide +kernel)
  have hshape : matchClosure src o.includeAsync p.node = .ok (some s) := by decide +kernel
  obtain ⟨site, hsite, hread⟩ : ∃ site, p.IsArgument site ∧
      (site.index, site.call.calleeName src, site.argumentsAfter src s none) =
        (0, .ok (some "setTimeout"), [.ok "o.m.bind(o)", .ok "100", .ok "x"]) :=
    Place.exists_callSite (by decide +kernel)
  simp only [Prod.mk.injEq] at hread
  obtain ⟨hfirst, hname, hafter⟩ := hread
  rw [hcheck] at hsuggestions
  exact ⟨by decide +kernel, hit, site, hcheck, hshape, hsite, hfirst, hname,
    Option.some.inj hsuggestions, fun _ => hafter⟩

end BindLint
