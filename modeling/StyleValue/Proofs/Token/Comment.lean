import StyleValue.Proofs.Text.Filter
import StyleValue.Token.Name

/-!
# Comments

A comment runs from its opening mark to the first closing mark after it, or to the end of the text.
The scanner of comments gives up exactly a sequence of comments, all of them closed unless it says
otherwise. Marks are not touched by the filter, so that the same is true of the unfiltered text.
-/

set_option autoImplicit false

namespace StyleValue

structure Comment where
  body : List Char
  isClosed : Bool
  endless : ¬ ['*', '/'] <:+: body

namespace Comment

def text (c : Comment) : List Char :=
  '/' :: '*' :: (c.body ++ if c.isClosed then ['*', '/'] else [])

def texts (cs : List Comment) : List Char := cs.flatMap text

@[simp] theorem texts_nil : texts [] = [] := rfl

@[simp] theorem texts_cons (c : Comment) (cs : List Comment) :
    texts (c :: cs) = c.text ++ texts cs := rfl

end Comment

namespace Lexer

theorem not_infix_nil : ¬ ['*', '/'] <:+: ([] : List Char) := by
  simp

/-- An end of a comment is at the front of a text, or in what follows its first character. -/
theorem end_infix_cons (c : Char) (text : List Char) :
    ['*', '/'] <:+: c :: text ↔ (c = '*' ∧ text.head? = some '/') ∨ ['*', '/'] <:+: text := by
  rw [List.infix_cons_iff]
  refine or_congr_left ?_
  cases text with
  | nil => simp
  | cons d text => simp [List.cons_prefix_cons, eq_comm]

theorem afterComment?_eq_none {text : List Char} (h : afterComment? text = none) :
    ¬ ['*', '/'] <:+: text := by
  fun_induction afterComment? text with
  | case1 => exact not_infix_nil
  | case2 => simp at h
  | case3 c rest hne ih =>
    rw [end_infix_cons]
    rintro (⟨rfl, hslash⟩ | hin)
    · obtain ⟨others, rfl⟩ := List.head?_eq_some_iff.mp hslash
      exact hne others rfl rfl
    · exact ih h hin

theorem afterComment?_eq_some {text rest : List Char} (h : afterComment? text = some rest) :
    ∃ body, text = body ++ '*' :: '/' :: rest ∧ ¬ ['*', '/'] <:+: body := by
  fun_induction afterComment? text with
  | case1 => simp at h
  | case2 rest' =>
    obtain rfl := Option.some.inj h
    exact ⟨[], rfl, not_infix_nil⟩
  | case3 c others hne ih =>
    obtain ⟨body, rfl, hbody⟩ := ih h
    refine ⟨c :: body, rfl, ?_⟩
    rw [end_infix_cons]
    rintro (⟨rfl, hslash⟩ | hin)
    · cases body with
      | nil => simp at hslash
      | cons d body =>
        obtain rfl : d = '/' := by simpa using hslash
        exact hne _ rfl rfl
    · exact hbody hin

theorem comments_other {text : List Char} (h : ∀ body, text ≠ '/' :: '*' :: body) :
    comments text = ⟨(), text, []⟩ := by
  rw [comments.eq_def]
  split
  · rename_i body
    exact absurd rfl (h body)
  · rfl

theorem comments_closed {body rest : List Char} (h : afterComment? body = some rest) :
    comments ('/' :: '*' :: body) = comments rest := by
  rw [comments]
  split
  · rename_i after hafter
    rw [h] at hafter
    rw [Option.some.inj hafter]
  · rename_i hafter
    rw [h] at hafter
    cases hafter

theorem comments_endless {body : List Char} (h : afterComment? body = none) :
    comments ('/' :: '*' :: body) = ⟨(), [], [.unterminatedComment]⟩ := by
  rw [comments]
  split
  · rename_i hafter
    rw [h] at hafter
    cases hafter
  · rfl

/-- What the scanner skips is comments, of which only the last may lack its end. -/
theorem comments_skips (text : List Char) :
    ∃ cs : List Comment, text = Comment.texts cs ++ (comments text).rest ∧
      (∀ c ∈ cs.dropLast, c.isClosed) ∧
      ((∃ c ∈ cs, c.isClosed = false) ↔ .unterminatedComment ∈ (comments text).reports) := by
  fun_induction comments text with
  | case1 body rest hafter ih =>
    obtain ⟨cs, hcs, hclosed, hreport⟩ := ih
    obtain ⟨content, rfl, hcontent⟩ := afterComment?_eq_some hafter
    refine ⟨⟨content, true, hcontent⟩ :: cs, ?_, ?_, by simpa using hreport⟩
    · simpa [Comment.text] using hcs
    · intro c hc
      cases cs with
      | nil => simp at hc
      | cons d cs =>
        rw [List.dropLast_cons_cons, List.mem_cons] at hc
        rcases hc with rfl | hc
        · rfl
        · exact hclosed c hc
  | case2 body hafter =>
    refine ⟨[⟨body, false, afterComment?_eq_none hafter⟩], ?_, ?_, ?_⟩
    · simp [Comment.text]
    · simp
    · simp
  | case3 text hnone => exact ⟨[], by simp⟩

theorem comments_rest_of_report (text : List Char) (h : (comments text).reports ≠ []) :
    (comments text).rest = [] := by
  fun_induction comments text with
  | case1 body rest hafter ih => exact ih h
  | case2 => rfl
  | case3 => simp at h

end Lexer

namespace CodePoint

/-- The marks of comments are made of characters that stand for themselves. -/
theorem IsFiltered.mark_iff {cp : CodePoint} (h : cp.IsFiltered) {d : Char}
    (hd : d = '*' ∨ d = '/') : cp.char = d ↔ cp.source = [d] := by
  have hn : d ≠ '\n' := by rcases hd with rfl | rfl <;> decide
  have hr : d ≠ Filter.carriageReturn := by rcases hd with rfl | rfl <;> decide
  cases h with
  | lineEnd => simp [hn.symm]
  | carriageReturn => simp [hn.symm, hr.symm]
  | other c hc =>
    have hf : d ≠ Filter.formFeed := by rcases hd with rfl | rfl <;> decide
    have hz : d ≠ Filter.nul := by rcases hd with rfl | rfl <;> decide
    have hp : d ≠ replacementChar := by rcases hd with rfl | rfl <;> decide
    simp only [Filter.replace, List.cons.injEq, and_true]
    split_ifs with h1 h2
    · simp [hn.symm, h1, hf.symm]
    · simp [hp.symm, h2, hz.symm]
    · rfl

theorem IsFiltered.head_mark_iff {cp : CodePoint} (h : cp.IsFiltered) {d : Char}
    (hd : d = '*' ∨ d = '/') (others : List Char) :
    (cp.source ++ others).head? = some d ↔ cp.source = [d] := by
  have hr : Filter.carriageReturn ≠ d := by rcases hd with rfl | rfl <;> decide
  cases h with
  | lineEnd => simp [hr]
  | carriageReturn => simp [hr]
  | other c hc => simp

end CodePoint

theorem head_sources_mark {cps : List CodePoint} (h : IsFiltered cps) {d : Char}
    (hd : d = '*' ∨ d = '/') :
    (CodePoint.sources cps).head? = some d ↔ (cps.map CodePoint.char).head? = some d := by
  cases cps with
  | nil => simp [CodePoint.sources]
  | cons cp cps =>
    have hcp := h.each cp (by simp)
    rw [List.map_cons, List.head?_cons, Option.some.injEq, hcp.mark_iff hd]
    exact hcp.head_mark_iff hd _

/-- The unfiltered text holds an end of a comment where the filtered text does. -/
theorem end_infix_sources {cps : List CodePoint} (h : IsFiltered cps)
    (hin : ['*', '/'] <:+: CodePoint.sources cps) : ['*', '/'] <:+: cps.map CodePoint.char := by
  induction cps with
  | nil => simp [CodePoint.sources] at hin
  | cons cp cps ih =>
    have hr : Filter.carriageReturn ≠ '*' := by decide
    have hcp := h.each cp (by simp)
    change ['*', '/'] <:+: cp.source ++ CodePoint.sources cps at hin
    rw [List.map_cons, Lexer.end_infix_cons]
    cases hcp with
    | lineEnd =>
      simp only [List.cons_append, List.nil_append, Lexer.end_infix_cons] at hin
      exact .inr (ih h.tail (by simpa [hr] using hin))
    | carriageReturn =>
      simp only [List.cons_append, List.nil_append, Lexer.end_infix_cons] at hin
      exact .inr (ih h.tail (by simpa [hr] using hin))
    | other c hc =>
      rw [List.cons_append, List.nil_append, Lexer.end_infix_cons] at hin
      rcases hin with ⟨rfl, hslash⟩ | hin
      · exact .inl ⟨rfl, (head_sources_mark h.tail (.inr rfl)).mp hslash⟩
      · exact .inr (ih h.tail hin)

namespace Comment

theorem exists_text_eq_sources {cps : List CodePoint} (h : IsFiltered cps) (c : Comment)
    (hc : cps.map CodePoint.char = c.text) :
    ∃ d : Comment, CodePoint.sources cps = d.text ∧ d.isClosed = c.isClosed := by
  have mark : ∀ cp ∈ cps, ∀ d, d = '*' ∨ d = '/' → cp.char = d → cp.source = [d] :=
    fun cp hcp d hd => ((h.each cp hcp).mark_iff hd).mp
  obtain ⟨slash, cps, rfl, hslash, hc⟩ := List.map_eq_cons_iff.mp hc
  obtain ⟨star, cps, rfl, hstar, hc⟩ := List.map_eq_cons_iff.mp hc
  obtain ⟨body, finish, rfl, hbody, hfinish⟩ := List.map_eq_append_iff.mp hc
  have hend : CodePoint.sources finish = if c.isClosed then ['*', '/'] else [] := by
    cases hclosed : c.isClosed with
    | false => simp_all [CodePoint.sources]
    | true =>
      rw [hclosed, if_pos rfl] at hfinish
      obtain ⟨star', rest, rfl, hstar', hrest⟩ := List.map_eq_cons_iff.mp hfinish
      obtain ⟨slash', rest, rfl, hslash', hrest⟩ := List.map_eq_cons_iff.mp hrest
      obtain rfl := List.map_eq_nil_iff.mp hrest
      simp [CodePoint.sources, mark star' (by simp) _ (.inl rfl) hstar',
        mark slash' (by simp) _ (.inr rfl) hslash']
  refine ⟨⟨CodePoint.sources body, c.isClosed, ?_⟩, ?_, rfl⟩
  · intro hin
    have hpart : IsFiltered body := h.of_infix ⟨[slash, star], finish, by simp⟩
    exact c.endless (hbody ▸ end_infix_sources hpart hin)
  · have hfront : CodePoint.sources (slash :: star :: (body ++ finish)) =
        slash.source ++ (star.source ++ CodePoint.sources (body ++ finish)) := rfl
    rw [hfront, CodePoint.sources_append, hend, mark slash (by simp) _ (.inr rfl) hslash,
      mark star (by simp) _ (.inl rfl) hstar]
    rfl

theorem exists_texts_eq_sources {cps : List CodePoint} (h : IsFiltered cps) (cs : List Comment)
    (hcs : cps.map CodePoint.char = texts cs) :
    ∃ ds : List Comment, CodePoint.sources cps = texts ds ∧
      ds.map isClosed = cs.map isClosed := by
  induction cs generalizing cps with
  | nil =>
    obtain rfl := List.map_eq_nil_iff.mp hcs
    exact ⟨[], rfl, rfl⟩
  | cons c cs ih =>
    obtain ⟨first, others, rfl, hfirst, hothers⟩ := List.map_eq_append_iff.mp hcs
    obtain ⟨d, hd, hclosed⟩ :=
      exists_text_eq_sources (h.of_infix (List.prefix_append first others).isInfix) c hfirst
    obtain ⟨ds, hds, hall⟩ :=
      ih (h.of_infix (List.suffix_append first others).isInfix) hothers
    refine ⟨d :: ds, ?_, ?_⟩
    · rw [CodePoint.sources_append, hd, hds, texts_cons]
    · simp [hclosed, hall]

end Comment

end StyleValue
