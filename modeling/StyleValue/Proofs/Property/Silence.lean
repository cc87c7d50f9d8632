import StyleValue.Context
import StyleValue.Proofs.Component.Unclosed
import StyleValue.Proofs.Image.Reporting
import StyleValue.Proofs.Property.Parse

/-!
# What a silenced context logs

The logger of a context that is switched off drops what is reported to it, but groups that are not
closed are reported past it. These come from reading the values of a text; what is made of the
values reports no more of them.
-/

set_option autoImplicit false

namespace StyleValue

open Outcome TokenStream

def Event.NotStructural (e : Event) : Prop := structural [e] = []

theorem Event.IsOfColor.notStructural {e : Event} (h : e.IsOfColor) : e.NotStructural := by
  obtain ⟨d, hd, rfl⟩ := h
  cases d <;> first | exact rfl | cases hd

theorem Event.IsOfImage.notStructural {e : Event} (h : e.IsOfImage) : e.NotStructural := by
  rcases h with h | ⟨url, rfl⟩
  · exact h.notStructural
  · rfl

namespace Outcome

variable {α β : Type}

theorem Emits.structural_eq_nil {x : Outcome α} (h : x.Emits Event.NotStructural) :
    structural x.events = [] := by
  have hall : ∀ events : List Event, (∀ e ∈ events, e.NotStructural) → structural events = [] := by
    intro events hevents
    induction events with
    | nil => rfl
    | cons e events ih =>
      obtain ⟨he, hothers⟩ := List.forall_mem_cons.1 hevents
      rw [← List.singleton_append, structural_append, ih hothers, List.append_nil]
      exact he
  exact hall x.events h

/-- What is done with a result does not count for what reading it reports. -/
theorem structural_bind {x : Outcome α} {f : α → Outcome β}
    (hf : ∀ a, (f a).Emits Event.NotStructural) :
    structural (x >>= f).events = structural x.events := by
  cases hx : x.result with
  | ok a =>
    rw [bind_of_ok hx, events_after, structural_append, (hf a).structural_eq_nil, List.append_nil]
  | error failure => rw [bind_of_error hx]

end Outcome

theorem backgroundImages_emits (values : List ComponentValue) :
    (backgroundImages values).Emits Event.NotStructural := by
  unfold backgroundImages
  dsimp only
  split
  · exact emits_pure _
  · refine (emits_mapM fun v _ => ?_).map _
    split
    · exact ((Image.emits_ofValue v).mono fun _ => Event.IsOfImage.notStructural).map _
    · have hreport : (Outcome.report (.unsupportedImage v)).Emits Event.NotStructural :=
        emits_report rfl
      exact hreport.map _

namespace Rule

def NotStructural (rule : Rule) : Prop := ∀ r, (rule r).Emits Event.NotStructural

theorem notStructural_ofLists {onValues : List ComponentValue → Outcome PropertyValue}
    {onName : List Char → Outcome PropertyValue}
    (hvalues : ∀ vs, (onValues vs).Emits Event.NotStructural)
    (hname : ∀ name, (onName name).Emits Event.NotStructural) :
    (ofLists onValues onName).NotStructural := by
  intro r
  cases r with
  | value => exact emits_fail _
  | values vs => exact hvalues vs
  | name name => exact hname name.toList

theorem notStructural_paintOrder : paintOrder.NotStructural :=
  notStructural_ofLists (fun _ => emits_pure _) fun _ => emits_pure _

theorem notStructural_backgroundImage : backgroundImage.NotStructural := by
  refine notStructural_ofLists (fun vs => (backgroundImages_emits vs).map _) fun name => ?_
  cases name with
  | nil => exact emits_pure _
  | cons => exact emits_fail _

theorem notStructural_backgroundBox : backgroundBox.NotStructural := by
  refine notStructural_ofLists (fun _ => emits_ofParsed _) fun name => ?_
  cases name <;> exact emits_pure _

theorem notStructural_backgroundRepeat : backgroundRepeat.NotStructural := by
  refine notStructural_ofLists (fun _ => emits_ofParsed _) fun name => ?_
  cases name <;> exact emits_pure _

theorem notStructural_zIndex : zIndex.NotStructural := fun _ => emits_ofParsed _

theorem notStructural_visibility : visibility.NotStructural := by
  intro r
  cases r with
  | name => exact emits_pure _
  | value | values => exact emits_fail _

end Rule

namespace Property

structure ReadsFirst (p : Property) : Prop where
  rule : ∀ rule ∈ p.rule, rule.NotStructural
  hasRule : p.mode = .value ∨ p.mode = .list → p.rule.isSome
  mode : p.mode ∈ [.value, .list, .ident, .typed (some "color"), .typed (some "image"), .unparsed]

theorem rule_of_mem_all : ∀ p ∈ all, ∀ rule ∈ p.rule, rule.NotStructural := by
  have hsome {rule : Rule} (h : rule.NotStructural) : ∀ other ∈ some rule, other.NotStructural := by
    rintro _ ⟨⟩
    exact h
  have hnone : ∀ other ∈ (none : Option Rule), other.NotStructural := nofun
  simp only [all, List.forall_mem_cons]
  exact ⟨hsome Rule.notStructural_paintOrder, hsome Rule.notStructural_backgroundImage,
    hsome Rule.notStructural_backgroundBox, hsome Rule.notStructural_backgroundBox,
    hsome Rule.notStructural_backgroundRepeat, hnone, hnone, hnone, hnone,
    hsome Rule.notStructural_zIndex, hsome Rule.notStructural_visibility, hnone, nofun⟩

theorem readsFirst_of_mem_all {p : Property} (hp : p ∈ all) : p.ReadsFirst := by
  have hrules : ∀ p ∈ all, p.mode = .value ∨ p.mode = .list → p.rule.isSome := by decide
  have hmodes : ∀ p ∈ all, p.mode ∈
      [.value, .list, .ident, .typed (some "color"), .typed (some "image"), .unparsed] := by decide
  exact ⟨rule_of_mem_all p hp, hrules p hp, hmodes p hp⟩

theorem ReadsFirst.apply {p : Property} (h : p.ReadsFirst) (r : Reading) :
    (p.apply r).Emits Event.NotStructural := by
  unfold Property.apply
  split
  · next rule hrule => exact h.rule rule hrule r
  · exact emits_fail _

/-- What a property reports of unclosed groups is what reading its values reports. -/
theorem ReadsFirst.structural_interpret {p : Property} (h : p.ReadsFirst) (tokens : List Token) :
    structural (p.interpret tokens).events =
      structural (if p.mode = .list then (values.run (.ofTokens tokens)).events
        else (value.run (.ofTokens tokens)).events) := by
  have hrule := h.hasRule
  have hmode := h.mode
  unfold interpret
  dsimp only
  cases hcase : p.mode with
  | value =>
    have hsome : p.rule.isNone = false := by simpa using hrule (.inl hcase)
    simp only [hsome, Bool.false_eq_true, reduceCtorEq, if_false]
    exact structural_bind fun v => h.apply _
  | list =>
    have hsome : p.rule.isNone = false := by simpa using hrule (.inr hcase)
    simp only [hsome, Bool.false_eq_true, if_false, if_true]
    exact structural_bind fun vs => h.apply _
  | ident =>
    simp only [reduceCtorEq, if_false]
    refine structural_bind fun v => ?_
    split <;> exact h.apply _
  | typed format =>
    rw [hcase] at hmode
    have hformat : format = some "color" ∨ format = some "image" := by simpa using hmode
    simp only [reduceCtorEq, if_false]
    rcases hformat with rfl | rfl
    · exact structural_bind fun v =>
        ((Color.emits_ofValue v).mono fun _ => Event.IsOfColor.notStructural).map _
    · exact structural_bind fun v =>
        ((Image.emits_ofValue v).mono fun _ => Event.IsOfImage.notStructural).map _
  | unparsed =>
    simp only [reduceCtorEq, if_false]
    exact structural_bind fun v => emits_pure _

end Property

theorem Logger.records_of_disabled {α : Type} (name : Option String) (x : Outcome α) :
    (Logger.own name false).records x =
      (structural x.events).map fun d => ⟨.parser, d.message⟩ := by
  rw [Logger.records, diagnostics, structural, List.filterMap_filterMap, List.map_filterMap]
  congr 1
  funext e
  cases e with
  | register url => rfl
  | report d => cases hd : d.isStructural <;> simp [Logger.record?, hd, Logger.isEnabled]

/-- The one value is not all there is, after white space is trimmed away. -/
theorem TokenStream.result_run_value_eq_surplus (tokens : List Token) :
    (value.run (ofTokens tokens)).result = reject .surplusValue ↔
      2 ≤ (trim (Grouping.completed [] tokens)).length := by
  rw [value_offers (offers_ofTokens tokens)]
  rcases trim (Grouping.completed [] tokens) with _ | ⟨v, _ | ⟨w, ws⟩⟩ <;> simp [theOne, reject, Rejection.message]

/-- A silenced context logs the groups that a text leaves open, innermost first, and nothing else.
They are not logged if a number of the text cannot be read, or if there is more than the one value
that is asked for. -/
theorem Property.records_silenced {p : Property} (hp : p ∈ all) (text name : Option String) :
    let stream := lexText (text.getD p.initial)
    (Logger.own name false).records (p.parse text) =
      if stream.fault.isSome ∨
          p.mode ≠ .list ∧ 2 ≤ (trim (Grouping.completed [] stream.tokens)).length then []
      else stream.unclosed.map fun o => ⟨.parser, o.unterminated.message⟩ := by
  intro stream
  rw [Logger.records_of_disabled]
  cases hfault : stream.fault with
  | some fault =>
    rw [parse_of_fault p text hfault]
    simp
  | none =>
    have hopen : (ofTokens stream.tokens).unclosed = stream.unclosed := by
      rw [unclosed, unclosed, tokens_ofTokens]
    have hparse : p.parse text =
        (p.interpret stream.tokens).after (lexicalEvents stream.allReports) :=
      parse_of_tokens p text hfault
    rw [hparse, events_after, structural_append, structural_lexicalEvents,
      List.nil_append, (readsFirst_of_mem_all hp).structural_interpret]
    by_cases hmode : p.mode = .list
    · rw [if_pos hmode, structural_run_values rfl, hopen]
      simp [hmode, Opener.unterminatedAll]
    · rw [if_neg hmode, structural_run_value rfl, hopen]
      by_cases hsurplus : (value.run (ofTokens stream.tokens)).result = reject .surplusValue
      · have hlength := (result_run_value_eq_surplus stream.tokens).1 hsurplus
        simp [hsurplus, hmode, hlength]
      · have hlength : ¬ 2 ≤ (trim (Grouping.completed [] stream.tokens)).length :=
          fun h => hsurplus ((result_run_value_eq_surplus stream.tokens).2 h)
        simp [hsurplus, hlength, Opener.unterminatedAll]

/-- A function that is not closed is logged by a context that is switched off. -/
theorem Property.records_silenced_function :
    paintOrder ∈ all ∧ (Logger.own (some "quiet") false).records (paintOrder.parse (some "f(")) =
      [⟨.parser, .ok "Unterminated function 'f'"⟩] := by
  have hmem : paintOrder ∈ all := List.mem_cons_self
  refine ⟨hmem, ?_⟩
  rw [records_silenced hmem]
  decide +kernel

/-- Switching the log off does not silence everything. -/
theorem Property.not_silent : paintOrder ∈ all ∧
    (Logger.own none false).records (paintOrder.parse (some "f(")) ≠ [] :=
  ⟨List.mem_cons_self, by decide +kernel⟩

end StyleValue
