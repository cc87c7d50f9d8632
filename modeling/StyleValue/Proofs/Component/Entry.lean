import Mathlib.Data.List.TakeWhile
import StyleValue.Proofs.Component.Drawing

/-!
# The one value, all values, and groups of values

Three ways to read tokens agree on the values that these are grouped into. The one value is what is
left of all values without the white space around them, and groups are what the commas outside of
functions and blocks separate, each without the white space around it.
-/

set_option autoImplicit false

namespace StyleValue

open ComponentValue Grouping

namespace TokenStream

def trim (vs : List ComponentValue) : List ComponentValue :=
  trimEnd (vs.dropWhile ComponentValue.isWhitespace)

theorem trimEnd_eq_nil_iff (vs : List ComponentValue) :
    trimEnd vs = [] ↔ vs.dropWhile ComponentValue.isWhitespace = [] := by
  simp [trimEnd, List.dropWhile_eq_nil_iff]

theorem trimEnd_cons {v : ComponentValue} (h : v.isWhitespace = false)
    (vs : List ComponentValue) : trimEnd (v :: vs) = v :: trimEnd vs := by
  unfold trimEnd
  rw [List.reverse_cons, List.dropWhile_append]
  split
  · next hblank => simp [List.isEmpty_iff.1 hblank, h]
  · simp

/-- White space is trimmed away, or there is a first value that is not white space. -/
theorem trim_cases (vs : List ComponentValue) :
    (vs.dropWhile ComponentValue.isWhitespace = [] ∧ trim vs = []) ∨
      ∃ v others, vs.dropWhile ComponentValue.isWhitespace = v :: others ∧
        trim vs = v :: trimEnd others := by
  cases hdrop : vs.dropWhile ComponentValue.isWhitespace with
  | nil => exact .inl ⟨rfl, by rw [trim, hdrop]; rfl⟩
  | cons v others =>
    have hv : v.isWhitespace = false := by
      have hhead := List.head?_dropWhile_not ComponentValue.isWhitespace vs
      simpa [hdrop] using hhead
    exact .inr ⟨v, others, rfl, by rw [trim, hdrop, trimEnd_cons hv]⟩

def theOne : List ComponentValue → Parsed ComponentValue
  | [] => reject .noValue
  | [v] => .ok v
  | _ :: _ :: _ => reject .surplusValue

variable {failures : Failure → Prop} {vs : List ComponentValue} {s : TokenStream}

theorem value_offers (h : s.Offers vs) : (value.run s).result = theOne (trim vs) := by
  have hends : value.Ends (fun failure => theOne (trim vs) = .error failure)
      (fun v _ => theOne (trim vs) = .ok v) s := by
    apply (skipWhitespace_offers h).bind
    intro _ first hfirst
    apply (isEmpty_offers hfirst).bind
    rintro _ first ⟨rfl, hfirst⟩
    rcases trim_cases vs with ⟨hdrop, htrim⟩ | ⟨v, others, hdrop, htrim⟩
    · rw [hdrop, htrim]
      exact rfl
    · rw [hdrop] at hfirst ⊢
      rw [htrim]
      apply (component_offers hfirst).bind
      rintro _ rest ⟨rfl, hrest⟩
      apply (skipWhitespace_offers hrest).bind
      intro _ rest hrest
      apply (isEmpty_offers hrest).bind
      rintro _ rest ⟨rfl, -⟩
      cases hothers : others.dropWhile ComponentValue.isWhitespace with
      | nil =>
        rw [(trimEnd_eq_nil_iff others).2 hothers]
        exact rfl
      | cons w ws =>
        cases htail : trimEnd others with
        | nil => rw [(trimEnd_eq_nil_iff others).1 htail] at hothers; cases hothers
        | cons => exact rfl
  unfold StreamParser.Ends at hends
  show (value s).outcome.result = _
  cases hresult : (value s).outcome.result with
  | ok v => rw [hresult] at hends; exact hends.symm
  | error failure => rw [hresult] at hends; exact hends.symm

theorem passes_comma : passes (· == .comma) = fun v => !v.isComma := by
  funext v
  cases hkind : v.kind? <;> simp [passes, isComma, hkind]

theorem isComma_of_isWhitespace {v : ComponentValue} (h : v.isWhitespace) : v.isComma = false := by
  have hkind : v.kind? = some .whitespace := by simpa [ComponentValue.isWhitespace] using h
  simp [isComma, hkind]

/-- White space before a comma does not matter for what is cut off there. -/
theorem takeWhile_dropWhile_space (vs : List ComponentValue) :
    (vs.dropWhile ComponentValue.isWhitespace).takeWhile (fun v => !v.isComma) =
        (vs.takeWhile fun v => !v.isComma).dropWhile ComponentValue.isWhitespace ∧
      (vs.dropWhile ComponentValue.isWhitespace).dropWhile (fun v => !v.isComma) =
        vs.dropWhile fun v => !v.isComma := by
  induction vs with
  | nil => exact ⟨rfl, rfl⟩
  | cons v vs ih =>
    by_cases hspace : v.isWhitespace
    · have hcomma := isComma_of_isWhitespace hspace
      simpa [hspace, hcomma] using ih
    · by_cases hcomma : v.isComma <;> simp [hspace, hcomma]

/-- A comma that comes next is a token of its own. -/
theorem Offers.tail {v : ComponentValue} {p : Pull} {ps : List Pull} (h : s.Offers (v :: vs))
    (hkind : v.kind? ≠ none) (hpulls : s.pulls = p :: ps) : Offers vs { s with pulls := ps } := by
  refine ⟨h.fault, ?_⟩
  have hvalues := h.values
  rw [TokenStream.tokens, hpulls, List.map_cons] at hvalues
  cases hopens : p.token.kind.opens with
  | false =>
    rw [completed_single _ _ hopens] at hvalues
    exact (List.cons.inj hvalues).2
  | true =>
    obtain ⟨w, ws, hgroup, hnone⟩ := completed_opening p.token (ps.map Pull.token) hopens
    rw [hgroup] at hvalues
    exact absurd ((List.cons.inj hvalues).1 ▸ hnone) hkind

theorem groups_offers (h : s.Offers vs) : StreamParser.Ends failures
    (fun gs rest => gs = (vs.splitOnP isComma).map trim ∧ rest.Offers []) groups s := by
  induction hlength : s.pulls.length using Nat.strong_induction_on generalizing s vs with
  | h n ih =>
  obtain ⟨hbefore, hbehind⟩ := takeWhile_dropWhile_space vs
  rw [groups_eq]
  apply ((skipWhitespace_offers h).and_rest (·.pulls.length ≤ s.pulls.length)
    (length_skipWhitespaceFrom_le s s.pulls)).bind
  rintro _ first ⟨hfirst, hshorter⟩
  apply ((valuesUntil_offers hfirst (· == .comma) (by simp [TokenKind.opens])).and_rest
    (·.pulls.length ≤ first.pulls.length)
    (length_valuesFrom_le first (· == .comma) [] [] first.pulls)).bind
  rintro _ rest ⟨⟨rfl, hrest⟩, hshorter'⟩
  rw [passes_comma, hbehind] at hrest
  rw [passes_comma, hbefore]
  have hcut : (vs.takeWhile fun v => !v.isComma) ++ (vs.dropWhile fun v => !v.isComma) = vs :=
    List.takeWhile_append_dropWhile
  have hno : ∀ v ∈ vs.takeWhile fun v => !v.isComma, v.isComma = false := by
    intro v hv
    simpa using List.mem_takeWhile_imp hv
  have hcomma := List.head?_dropWhile_not (fun v => !v.isComma) vs
  cases hdrop : vs.dropWhile fun v => !v.isComma with
  | nil =>
    rw [hdrop] at hrest hcut
    rw [List.append_nil] at hcut
    rw [hcut, List.splitOnP_eq_singleton (hcut ▸ hno), StreamParser.Ends,
      othersAfter_end (hrest.eq_nil_iff.1 rfl)]
    exact ⟨rfl, hrest⟩
  | cons v others =>
    rw [hdrop] at hrest hcut hcomma
    have hv : v.isComma := by simpa using hcomma
    have hkind : v.kind? ≠ none := by
      intro hnone
      simp [isComma, hnone] at hv
    cases hpulls : rest.pulls with
    | nil => cases hrest.eq_nil_iff.2 hpulls
    | cons p ps =>
      have hshorter'' := congrArg List.length hpulls
      rw [List.length_cons] at hshorter''
      have hsplit := List.splitOnP_append_cons_of_forall_mem hno v hv others
      rw [hcut] at hsplit
      rw [hsplit]
      apply StreamParser.Ends.of_eq _ (othersAfter_comma hpulls _)
      apply StreamParser.Ends.bind (ih ps.length (by omega) (hrest.tail hkind hpulls) rfl)
      rintro gs last ⟨rfl, hlast⟩
      exact ⟨rfl, hlast⟩

/-- White space in front belongs to the first group, which is trimmed. -/
theorem map_trim_splitOnP_dropWhile (vs : List ComponentValue) :
    ((vs.dropWhile ComponentValue.isWhitespace).splitOnP isComma).map trim =
      (vs.splitOnP isComma).map trim := by
  induction vs with
  | nil => rfl
  | cons v vs ih =>
    by_cases hspace : v.isWhitespace
    · have htrim (g : List ComponentValue) : trim (v :: g) = trim g := by
        rw [trim, trim, List.dropWhile_cons_of_pos hspace]
      have hcomma := isComma_of_isWhitespace hspace
      rw [List.dropWhile_cons_of_pos hspace, ih, List.splitOnP_cons_eq_if_modifyHead, hcomma]
      cases vs.splitOnP isComma <;> simp [htrim]
    · rw [List.dropWhile_cons_of_neg hspace]

theorem commaSeparated_offers (h : s.Offers vs) : commaSeparated.Ends failures (fun gs _ => gs =
    if trim vs = [] then [] else (vs.splitOnP isComma).map trim) s := by
  apply (skipWhitespace_offers h).bind
  intro _ first hfirst
  apply (isEmpty_offers hfirst).bind
  rintro _ first ⟨rfl, hfirst⟩
  rcases trim_cases vs with ⟨hdrop, htrim⟩ | ⟨v, others, hdrop, htrim⟩
  · rw [hdrop, htrim]
    exact rfl
  · rw [hdrop] at hfirst
    rw [hdrop, htrim]
    apply (groups_offers hfirst).weaken
    rintro gs ⟨rfl, -⟩
    rw [← hdrop, map_trim_splitOnP_dropWhile]
    simp

theorem values_offers (h : s.Offers vs) : (values.run s).result = .ok vs := by
  rw [run_values s h.fault]
  exact congrArg Except.ok h.values

theorem length_splitOnP_isComma (vs : List ComponentValue) :
    (vs.splitOnP isComma).length = vs.countP isComma + 1 := by
  induction vs with
  | nil => rfl
  | cons v vs ih =>
    rw [List.splitOnP_cons_eq_if_modifyHead]
    by_cases hcomma : v.isComma <;> simp [hcomma, ih]

/-- All values, the one value and the groups of tokens agree: the one value is there if trimming
all values leaves one, and the groups are all values cut at each comma that stands outside of
functions and blocks, and trimmed. -/
theorem readings_agree (ts : List Token) :
    ∃ vs, (values.run (ofTokens ts)).result = .ok vs ∧
      (∀ v, (value.run (ofTokens ts)).result = .ok v ↔ trim vs = [v]) ∧
      ((value.run (ofTokens ts)).result = reject .noValue ↔ trim vs = []) ∧
      ((value.run (ofTokens ts)).result = reject .surplusValue ↔ 2 ≤ (trim vs).length) ∧
      Rejection.noValue.message = .ok "Expected a component value, found end of input" ∧
      Rejection.surplusValue.message = .ok "Expected a single component value, found more" ∧
      (commaSeparated.run (ofTokens ts)).result =
        .ok (if trim vs = [] then [] else (vs.splitOnP isComma).map trim) ∧
      (vs.splitOnP isComma).length = vs.countP isComma + 1 := by
  have hoffers := offers_ofTokens ts
  obtain ⟨gs, hgroups, rfl⟩ := (commaSeparated_offers hoffers).exists_ok
  refine ⟨completed [] ts, values_offers hoffers, ?_, ?_, ?_, rfl, rfl, hgroups,
    length_splitOnP_isComma _⟩
  all_goals
    rw [value_offers hoffers]
    rcases trim (completed [] ts) with _ | ⟨v, _ | ⟨w, ws⟩⟩ <;>
      simp [theOne, reject, Rejection.message]

end TokenStream

end StyleValue
