import Mathlib.Data.List.Chain
import StyleValue.Text.Filter

/-!
# What the filter gives, and filtering it again

The code points of a text stand for all of it, in order. Each is a line end of two characters, a
lone carriage return, or one other character. Cutting a filtered text anywhere and putting such
cuts together again leaves the code points as they are, as long as no newline comes to stand right
after a lone carriage return.
-/

set_option autoImplicit false

namespace StyleValue

namespace Filter

def run (pending : Bool) (text : List Char) : List CodePoint :=
  (feed pending text).2 ++ flush (feed pending text).1

@[simp] theorem run_nil (pending : Bool) : run pending [] = flush pending := rfl

theorem run_cons (pending : Bool) (c : Char) (text : List Char) :
    run pending (c :: text) = step pending c ++ run (c == carriageReturn) text := by
  simp [run, feed_cons]

theorem filterChunks_eq_run (chunks : List String) :
    filterChunks chunks = run false (chunks.map String.toList).flatten := by
  simp [filterChunks, run, feedChunks_eq_feed]

theorem filter_eq_run (text : String) : filterChunks [text] = run false text.toList := by
  simp [filterChunks_eq_run]

theorem step_return (pending : Bool) : step pending carriageReturn = flush pending := by
  have h : carriageReturn ≠ '\n' := by decide
  simp [step, h]

theorem step_other (c : Char) (hc : c ≠ carriageReturn) : step false c = [⟨replace c, [c]⟩] := by
  simp [step, flush, hc]

/-- A pending carriage return stands by itself before anything but a newline. -/
theorem run_pending (text : List Char) (h : text.head? ≠ some '\n') :
    run true text = ⟨'\n', [carriageReturn]⟩ :: run false text := by
  cases text with
  | nil => rfl
  | cons c text =>
    have hc : c ≠ '\n' := by simpa using h
    by_cases hr : c = carriageReturn
    · subst hr
      simp [run_cons, step_return, flush]
    · simp [run_cons, step, flush, hc, hr]

theorem run_pending_newline (text : List Char) :
    run true ('\n' :: text) = ⟨'\n', [carriageReturn, '\n']⟩ :: run false text := by
  have h : ('\n' == carriageReturn) = false := by decide
  simp [run_cons, step, h]

theorem run_return (text : List Char) : run false (carriageReturn :: text) = run true text := by
  simp [run_cons, step_return, flush]

theorem run_other (c : Char) (text : List Char) (hc : c ≠ carriageReturn) :
    run false (c :: text) = ⟨replace c, [c]⟩ :: run false text := by
  have h : (c == carriageReturn) = false := by simpa using hc
  simp [run_cons, step_other c hc, h]

/-- A character that is part of no line end cuts the text. -/
theorem run_append_other (s t : List Char) {c : Char} (hn : c ≠ '\n') (hc : c ≠ carriageReturn) :
    run false (s ++ c :: t) = run false s ++ ⟨replace c, [c]⟩ :: run false t := by
  have h : (c == carriageReturn) = false := by simpa using hc
  have hstep (pending : Bool) : step pending c = flush pending ++ [⟨replace c, [c]⟩] := by
    simp [step, hn, hc]
  rw [run, feed_append, feed_cons, hstep, h]
  simp [run]

end Filter

inductive CodePoint.IsFiltered : CodePoint → Prop
  | lineEnd : IsFiltered ⟨'\n', [Filter.carriageReturn, '\n']⟩
  | carriageReturn : IsFiltered ⟨'\n', [Filter.carriageReturn]⟩
  | other (c : Char) (hc : c ≠ Filter.carriageReturn) : IsFiltered ⟨Filter.replace c, [c]⟩

def CodePoint.MayPrecede (a b : CodePoint) : Prop :=
  ¬ (a.source = [Filter.carriageReturn] ∧ b.source = ['\n'])

structure IsFiltered (cps : List CodePoint) : Prop where
  each : ∀ cp ∈ cps, cp.IsFiltered
  chain : cps.IsChain CodePoint.MayPrecede

namespace IsFiltered

theorem nil : IsFiltered [] := ⟨by simp, .nil⟩

theorem of_infix {a b : List CodePoint} (hb : IsFiltered b) (h : a <:+: b) : IsFiltered a :=
  ⟨fun cp hcp => hb.each cp (h.subset hcp), hb.chain.infix h⟩

theorem tail {cp : CodePoint} {cps : List CodePoint} (h : IsFiltered (cp :: cps)) :
    IsFiltered cps :=
  h.of_infix (List.suffix_cons cp cps).isInfix

theorem cons {cp : CodePoint} {cps : List CodePoint} (hcp : cp.IsFiltered) (h : IsFiltered cps)
    (hnext : ∀ next ∈ cps.head?, cp.MayPrecede next) : IsFiltered (cp :: cps) := by
  constructor
  · simpa using ⟨hcp, h.each⟩
  · cases cps with
    | nil => exact .singleton cp
    | cons next cps => exact .cons_cons (hnext next (by simp)) h.chain

theorem cons_of_ne {cp : CodePoint} {cps : List CodePoint} (hcp : cp.IsFiltered)
    (h : IsFiltered cps) (hne : cp.source ≠ [Filter.carriageReturn]) : IsFiltered (cp :: cps) :=
  cons hcp h fun _ _ hp => hne hp.1

end IsFiltered

namespace Filter

/-- The sources of the code points are the text, with the carriage return that was pending. -/
theorem sources_run (pending : Bool) (text : List Char) :
    CodePoint.sources (run pending text) =
      (if pending then [carriageReturn] else []) ++ text := by
  induction text generalizing pending with
  | nil => cases pending <;> simp [CodePoint.sources, flush]
  | cons c text ih =>
    by_cases hr : c = carriageReturn
    · subst hr
      rw [run_cons, CodePoint.sources_append, step_return, ih]
      cases pending <;> simp [CodePoint.sources, flush]
    have hc : (c == carriageReturn) = false := by simpa using hr
    rw [run_cons, CodePoint.sources_append, hc, ih]
    cases pending with
    | false => simp [step_other c hr, CodePoint.sources]
    | true =>
      by_cases hn : c = '\n'
      · simp [step, hn, CodePoint.sources]
      · simp [step, flush, hr, hn, CodePoint.sources]

theorem sources_filter (text : String) :
    CodePoint.sources (filterChunks [text]) = text.toList := by
  simp [filter_eq_run, sources_run]

theorem head_run_pending (text : List Char) :
    ∀ cp ∈ (run true text).head?, cp.source ≠ ['\n'] := by
  by_cases h : text.head? = some '\n'
  · obtain ⟨rest, rfl⟩ := List.head?_eq_some_iff.mp h
    simp [run_pending_newline]
  · have hne : carriageReturn ≠ '\n' := by decide
    simp [run_pending text h, hne]

theorem isFiltered_run (pending : Bool) (text : List Char) : IsFiltered (run pending text) := by
  induction text generalizing pending with
  | nil =>
    cases pending
    · exact .nil
    · exact .cons .carriageReturn .nil (by simp)
  | cons c text ih =>
    -- What a carriage return leaves pending is decided by the next character.
    cases pending with
    | false =>
      by_cases hr : c = carriageReturn
      · subst hr
        rw [run_return]
        exact ih true
      · rw [run_other c text hr]
        exact .cons_of_ne (.other c hr) (ih false) (by simpa using hr)
    | true =>
      by_cases hn : c = '\n'
      · subst hn
        rw [run_pending_newline]
        exact .cons_of_ne .lineEnd (ih false) (by simp)
      rw [run_pending _ (by simpa using hn)]
      by_cases hr : c = carriageReturn
      · subst hr
        rw [run_return]
        exact .cons .carriageReturn (ih true) fun cp hcp hp => head_run_pending text cp hcp hp.2
      · rw [run_other c text hr]
        refine .cons .carriageReturn (.cons_of_ne (.other c hr) (ih false) (by simpa using hr)) ?_
        intro cp hcp hp
        obtain rfl : _ = cp := by simpa using hcp
        exact hn (by simpa using hp.2)

theorem isFiltered_filter (text : String) : IsFiltered (filterChunks [text]) := by
  rw [filter_eq_run]
  exact isFiltered_run false _

/-- Only a code point made from a newline alone has a source that starts with one. -/
theorem head_sources {cps : List CodePoint} (h : IsFiltered cps)
    (hn : (CodePoint.sources cps).head? = some '\n') :
    ∃ cp ∈ cps.head?, cp.source = ['\n'] := by
  cases cps with
  | nil => simp [CodePoint.sources] at hn
  | cons cp cps =>
    refine ⟨cp, by simp, ?_⟩
    have hne : carriageReturn ≠ '\n' := by decide
    cases h.each cp (by simp) with
    | lineEnd => simp [CodePoint.sources, hne] at hn
    | carriageReturn => simp [CodePoint.sources, hne] at hn
    | other c hc => simpa [CodePoint.sources] using hn

/-- Filtering the text of filtered code points gives them back. -/
theorem run_sources {cps : List CodePoint} (h : IsFiltered cps) :
    run false (CodePoint.sources cps) = cps := by
  induction cps with
  | nil => rfl
  | cons cp cps ih =>
    have hrest := ih h.tail
    change run false (cp.source ++ CodePoint.sources cps) = cp :: cps
    cases h.each cp (by simp) with
    | lineEnd =>
      rw [List.cons_append, List.cons_append, List.nil_append, run_return, run_pending_newline,
        hrest]
    | carriageReturn =>
      rw [List.cons_append, List.nil_append, run_return, run_pending, hrest]
      intro hn
      obtain ⟨next, hnext, hsource⟩ := head_sources h.tail hn
      obtain ⟨rest, rfl⟩ := List.head?_eq_some_iff.mp hnext
      exact List.rel_of_isChain_cons_cons h.chain ⟨rfl, hsource⟩
    | other c hc => rw [List.cons_append, List.nil_append, run_other c _ hc, hrest]

theorem run_append {s t : List Char}
    (h : s.getLast? ≠ some carriageReturn ∨ t.head? ≠ some '\n') :
    run false (s ++ t) = run false s ++ run false t := by
  have hpending : (feed false s).1 = (s.getLast?.map (· == carriageReturn)).getD false := by
    simp [feed]
  have hcut : run false (s ++ t) = (feed false s).2 ++ run (feed false s).1 t := by
    simp [run, feed_append]
  have hfront : run false s = (feed false s).2 ++ flush (feed false s).1 := rfl
  rw [hcut, hfront, List.append_assoc]
  cases hreturn : (feed false s).1 with
  | false => rfl
  | true =>
    have hlast : s.getLast? = some carriageReturn := by
      rw [hreturn] at hpending
      cases hs : s.getLast? <;> simp_all
    rw [run_pending t (h.resolve_left fun hne => hne hlast)]
    rfl

def chars (text : List Char) : List Char := (run false text).map CodePoint.char

@[simp] theorem chars_nil : chars [] = [] := rfl

theorem chars_append {s t : List Char}
    (h : s.getLast? ≠ some carriageReturn ∨ t.head? ≠ some '\n') :
    chars (s ++ t) = chars s ++ chars t := by
  simp [chars, run_append h]

theorem map_char_filter (text : String) :
    (filterChunks [text]).map CodePoint.char = chars text.toList := by
  rw [filter_eq_run, chars]

def replaceAny (c : Char) : Char := if c = carriageReturn then '\n' else replace c

theorem mem_chars {text : List Char} {c : Char} :
    c ∈ chars text ↔ ∃ d ∈ text, replaceAny d = c := by
  have hnewline : replaceAny '\n' = '\n' := by decide
  have hreturn : replaceAny carriageReturn = '\n' := by decide
  have hsources : CodePoint.sources (run false text) = text := by simp [sources_run]
  have hmem (d : Char) : d ∈ text ↔ ∃ cp ∈ run false text, d ∈ cp.source := by
    rw [← List.mem_flatMap]
    exact iff_of_eq (congrArg (d ∈ ·) hsources.symm)
  rw [chars, List.mem_map]
  constructor
  · rintro ⟨cp, hcp, rfl⟩
    cases (isFiltered_run false text).each cp hcp with
    | lineEnd => exact ⟨carriageReturn, (hmem _).2 ⟨_, hcp, by simp⟩, hreturn⟩
    | carriageReturn => exact ⟨carriageReturn, (hmem _).2 ⟨_, hcp, by simp⟩, hreturn⟩
    | other d hd => exact ⟨d, (hmem _).2 ⟨_, hcp, by simp⟩, if_neg hd⟩
  · rintro ⟨d, hd, rfl⟩
    obtain ⟨cp, hcp, hsource⟩ := (hmem d).1 hd
    refine ⟨cp, hcp, ?_⟩
    cases (isFiltered_run false text).each cp hcp with
    | lineEnd =>
      have hends : d = carriageReturn ∨ d = '\n' := by simpa using hsource
      rcases hends with rfl | rfl
      · exact hreturn.symm
      · exact hnewline.symm
    | carriageReturn =>
      obtain rfl : d = carriageReturn := by simpa using hsource
      exact hreturn.symm
    | other e he =>
      obtain rfl : d = e := by simpa using hsource
      exact (if_neg he).symm

/-- Which characters there are does not depend on where a text is cut. -/
theorem mem_chars_append {s t : List Char} {c : Char} :
    c ∈ chars (s ++ t) ↔ c ∈ chars s ∨ c ∈ chars t := by
  simp only [mem_chars, List.mem_append, or_and_right, exists_or]

end Filter

def isPlain (c : Char) : Bool := c != Filter.carriageReturn && Filter.replace c == c

theorem isPlain_iff {c : Char} :
    isPlain c ↔ c ≠ Filter.carriageReturn ∧ Filter.replace c = c := by
  simp [isPlain]

theorem isPlain_of_isIdent {c : Char} (h : isIdent c) : isPlain c := by
  have hne (d : Char) (hd : isIdent d = false) : c ≠ d := by
    rintro rfl
    rw [hd] at h
    cases h
  rw [isPlain_iff, Filter.replace, if_neg (hne _ (by decide)), if_neg (hne _ (by decide))]
  exact ⟨hne _ (by decide), rfl⟩

theorem Filter.chars_plain_cons {c : Char} (h : isPlain c) (t : List Char) :
    chars (c :: t) = c :: chars t := by
  obtain ⟨hreturn, hreplace⟩ := isPlain_iff.1 h
  have hcons : chars (c :: t) = replace c :: chars t := by
    rw [chars, run_other c _ hreturn]
    rfl
  rw [hcons, hreplace]

/-- Filtering leaves plain text in front of another as it is. -/
theorem Filter.chars_plain_append {s : List Char} (h : ∀ c ∈ s, isPlain c) (t : List Char) :
    chars (s ++ t) = s ++ chars t := by
  induction s with
  | nil => rfl
  | cons c s ih =>
    obtain ⟨hc, hs⟩ := List.forall_mem_cons.1 h
    rw [List.cons_append, chars_plain_cons hc, ih hs, List.cons_append]

def points (text : List Char) : List CodePoint := text.map fun c => ⟨c, [c]⟩

theorem filter_points {text : List Char} (h : text.all isPlain) :
    filterChunks [String.ofList text] = points text := by
  rw [Filter.filter_eq_run, String.toList_ofList]
  induction text with
  | nil => rfl
  | cons c text ih =>
    simp only [List.all_cons, Bool.and_eq_true, isPlain, bne_iff_ne, beq_iff_eq] at h
    rw [Filter.run_other c text h.1.1, h.1.2, ih h.2]
    rfl

theorem map_char_points (text : List Char) : (points text).map CodePoint.char = text := by
  simp [points, Function.comp_def]

theorem sources_points (text : List Char) : CodePoint.sources (points text) = text := by
  induction text with
  | nil => rfl
  | cons c text ih => simpa [points, CodePoint.sources] using ih

end StyleValue
