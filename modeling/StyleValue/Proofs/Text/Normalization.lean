import StyleValue.Proofs.Text.Filter
import StyleValue.Proofs.Token.Stream

/-!
# What a text is normalized to

A line end of two characters becomes one newline, and so do a carriage return and a form feed that
stand alone; a NUL and a surrogate become the replacement character. The filter does this in one
pass over code points, remembering no more than whether a carriage return is pending, and keeps the
text with what it makes of it. What it gives is normalized already, so the tokens of a text are
those of the normalized text.
-/

set_option autoImplicit false

namespace StyleValue

inductive RawPoint
  | char (c : Char)
  | surrogate (ordinal : ℕ) (h : Ordinal.isSurrogate ordinal)
deriving DecidableEq

namespace RawPoint

def carriageReturn : RawPoint := .char Filter.carriageReturn

def newline : RawPoint := .char '\n'

def replace : RawPoint → Char
  | .char c => Filter.replace c
  | .surrogate _ _ => replacementChar

def shown : RawPoint → Char
  | .char c => c
  | .surrogate _ _ => replacementChar

def ofText (text : String) : List RawPoint := text.toList.map .char

def joined : List RawPoint → List RawPoint
  | .char '\r' :: .char '\n' :: text => .char '\n' :: joined text
  | p :: text => p :: joined text
  | [] => []

def normal : RawPoint → Char
  | .char '\r' | .char '\x0c' => '\n'
  | .char '\x00' | .surrogate _ _ => '\ufffd'
  | .char c => c

def normalized (text : List RawPoint) : List Char := (joined text).map normal

example : normalized (ofText "\r\r\n\r\x0c\r\x00") = "\n\n\n\n\n\ufffd".toList := by decide

end RawPoint

structure Vended where
  char : Char
  source : List RawPoint
deriving DecidableEq

def Vended.codePoint (v : Vended) : CodePoint := ⟨v.char, v.source.map RawPoint.shown⟩

namespace Filter

open RawPoint (newline normal joined normalized)

def vendPending (pending : Bool) : List Vended :=
  if pending then [⟨'\n', [.carriageReturn]⟩] else []

def vend (pending : Bool) : List RawPoint → List Vended
  | [] => vendPending pending
  | p :: text =>
    if pending && p = newline then ⟨'\n', [.carriageReturn, newline]⟩ :: vend false text
    else vendPending pending ++
      if p = .carriageReturn then vend true text else ⟨p.replace, [p]⟩ :: vend false text

variable {pending : Bool} {p : RawPoint} {text : List RawPoint}

theorem vend_lineEnd (text : List RawPoint) : vend false (.carriageReturn :: newline :: text) =
    ⟨'\n', [.carriageReturn, newline]⟩ :: vend false text := by
  simp [vend, vendPending]

theorem normal_char (c : Char) : normal (.char c) = replaceAny c := by
  unfold normal
  split
  · next h => exact (congrArg replaceAny (RawPoint.char.inj h)).symm
  · next h => exact (congrArg replaceAny (RawPoint.char.inj h)).symm
  · next h => exact (congrArg replaceAny (RawPoint.char.inj h)).symm
  · next h => cases h
  · next d hreturn hfeed hnul h =>
    obtain rfl := RawPoint.char.inj h
    have hfeed : c ≠ formFeed := hfeed
    rw [replaceAny, if_neg (show c ≠ carriageReturn from hreturn), replace, if_neg hfeed,
      if_neg (show c ≠ nul from hnul)]

theorem replace_eq_normal (h : p ≠ .carriageReturn) : p.replace = normal p := by
  cases p with
  | surrogate => rfl
  | char c =>
    have hreturn : c ≠ carriageReturn := fun hc => h (congrArg RawPoint.char hc)
    rw [normal_char, replaceAny, if_neg hreturn]
    rfl

theorem vend_pending (h : text.head? ≠ some newline) :
    vend true text = ⟨'\n', [.carriageReturn]⟩ :: vend false text := by
  cases text with
  | nil => rfl
  | cons q text =>
    have hq : q ≠ newline := by simpa using h
    simp [vend, vendPending, hq]

theorem vend_point (h : p ≠ .carriageReturn ∨ text.head? ≠ some newline) :
    vend false (p :: text) = ⟨normal p, [p]⟩ :: vend false text := by
  by_cases hreturn : p = .carriageReturn
  · have hnormal : normal .carriageReturn = '\n' := rfl
    subst hreturn
    rw [hnormal, ← vend_pending (h.resolve_left fun hne => hne rfl)]
    simp [vend, vendPending]
  · simp [vend, vendPending, hreturn, replace_eq_normal hreturn]

theorem joined_lineEnd (text : List RawPoint) :
    joined (.carriageReturn :: newline :: text) = newline :: joined text := rfl

theorem joined_point (h : p ≠ .carriageReturn ∨ text.head? ≠ some newline) :
    joined (p :: text) = p :: joined text := by
  rw [joined]
  rintro others rfl rfl
  rcases h with h | h
  · exact h rfl
  · exact h rfl

/-- What holds of the empty text and, if it holds of a text, of that text behind a line end of two
characters and behind any other code point, holds of every text and what is vended for it. -/
theorem vend_induction {motive : List RawPoint → List Vended → Prop} (nil : motive [] [])
    (lineEnd : ∀ text, motive text (vend false text) →
      motive (.carriageReturn :: newline :: text)
        (⟨'\n', [.carriageReturn, newline]⟩ :: vend false text))
    (point : ∀ p text, p ≠ .carriageReturn ∨ text.head? ≠ some newline →
      motive text (vend false text) → motive (p :: text) (⟨normal p, [p]⟩ :: vend false text))
    (text : List RawPoint) : motive text (vend false text) := by
  fun_induction joined text with
  | case1 text ih => exact vend_lineEnd text ▸ lineEnd text ih
  | case2 p text hpair ih =>
    have halone : p ≠ .carriageReturn ∨ text.head? ≠ some newline := by
      by_contra! hnot
      obtain ⟨others, rfl⟩ := List.head?_eq_some_iff.1 hnot.2
      exact hpair others hnot.1 rfl
    exact vend_point halone ▸ point p text halone ih
  | case3 => exact nil

theorem map_char_vend (text : List RawPoint) :
    (vend false text).map Vended.char = normalized text := by
  unfold normalized
  induction text using vend_induction with
  | nil => rfl
  | lineEnd text ih =>
    rw [joined_lineEnd, List.map_cons, List.map_cons, ih]
    rfl
  | point p text halone ih => rw [joined_point halone, List.map_cons, List.map_cons, ih]

theorem flatMap_source_vend (text : List RawPoint) :
    (vend false text).flatMap Vended.source = text := by
  induction text using vend_induction with
  | nil => rfl
  | lineEnd text ih => rw [List.flatMap_cons, ih]; rfl
  | point p text halone ih => rw [List.flatMap_cons, ih]; rfl

theorem source_ne_nil (text : List RawPoint) : ∀ v ∈ vend false text, v.source ≠ [] := by
  induction text using vend_induction with
  | nil => simp
  | lineEnd text ih => exact List.forall_mem_cons.2 ⟨by simp, ih⟩
  | point p text halone ih => exact List.forall_mem_cons.2 ⟨by simp, ih⟩

theorem isPlain_replaceAny (c : Char) : isPlain (replaceAny c) := by
  have hnewline : isPlain '\n' := by decide
  have hreplacement : isPlain replacementChar := by decide
  unfold replaceAny replace
  split_ifs with hreturn hfeed hnul
  · exact hnewline
  · exact hnewline
  · exact hreplacement
  · rw [isPlain_iff, replace, if_neg hfeed, if_neg hnul]
    exact ⟨hreturn, rfl⟩

theorem isPlain_normal (p : RawPoint) : isPlain (normal p) := by
  cases p with
  | char c =>
    rw [normal_char]
    exact isPlain_replaceAny c
  | surrogate => exact (by decide : isPlain replacementChar)

theorem isPlain_of_mem_vend {c : Char} (h : c ∈ (vend false text).map Vended.char) :
    isPlain c := by
  rw [map_char_vend, normalized] at h
  obtain ⟨p, -, rfl⟩ := List.mem_map.1 h
  exact isPlain_normal p

theorem vend_plain {chars : List Char} (h : ∀ c ∈ chars, isPlain c) :
    vend false (chars.map .char) = chars.map fun c => ⟨c, [.char c]⟩ := by
  induction chars with
  | nil => rfl
  | cons c chars ih =>
    obtain ⟨hc, hchars⟩ := List.forall_mem_cons.1 h
    obtain ⟨hreturn, hreplace⟩ := isPlain_iff.1 hc
    have hnormal : normal (.char c) = c := by
      rw [normal_char, replaceAny, if_neg hreturn, hreplace]
    have hpoint : RawPoint.char c ≠ .carriageReturn := fun heq => hreturn (RawPoint.char.inj heq)
    rw [List.map_cons, vend_point (.inl hpoint), ih hchars, hnormal, List.map_cons]

theorem map_codePoint_vendPending (pending : Bool) :
    (vendPending pending).map Vended.codePoint = flush pending := by
  cases pending <;> rfl

theorem map_codePoint_vend (pending : Bool) (chars : List Char) :
    (vend pending (chars.map .char)).map Vended.codePoint = run pending chars := by
  induction chars generalizing pending with
  | nil => exact map_codePoint_vendPending pending
  | cons c chars ih =>
    have hnewline : RawPoint.char c = newline ↔ c = '\n' := by simp [newline]
    have hreturn : RawPoint.char c = .carriageReturn ↔ c = carriageReturn := by
      simp [RawPoint.carriageReturn]
    rw [List.map_cons, vend, run_cons, step]
    simp only [hnewline, hreturn]
    by_cases hend : pending && c = '\n'
    · have hother : (c == carriageReturn) = false := by
        simp only [Bool.and_eq_true, decide_eq_true_eq] at hend
        rw [hend.2]
        decide
      rw [if_pos hend, if_pos hend, List.map_cons, ih, hother]
      rfl
    · rw [if_neg hend, if_neg hend, List.map_append, map_codePoint_vendPending]
      by_cases hc : c = carriageReturn
      · rw [if_pos hc, if_pos hc, ih, hc, beq_self_eq_true]
      · have hother : (c == carriageReturn) = false := by simpa using hc
        rw [if_neg hc, if_neg hc, List.map_cons, ih, hother, List.append_assoc]
        rfl

/-- For a text without surrogates, in chunks, the filter vends its code points. -/
theorem filterChunks_eq_vend (texts : List String) : filterChunks texts =
    (vend false (texts.map RawPoint.ofText).flatten).map Vended.codePoint := by
  have htexts : (texts.map RawPoint.ofText).flatten =
      (texts.map String.toList).flatten.map .char := by
    rw [List.map_flatten, List.map_map]
    rfl
  rw [filterChunks_eq_run, htexts, map_codePoint_vend]

end Filter

def TokenStream.bare (s : TokenStream) : TokenStream :=
  { s with pulls := s.pulls.map fun p => { p with token := { p.token with source := "" } } }

theorem TokenStream.bare_cons (s : TokenStream) (p : Pull) :
    (s.cons p).bare = s.bare.cons ⟨p.reports, p.token.kind, ""⟩ := rfl

section Bare

variable {cps others : List CodePoint} {cp : CodePoint} {rangesAllowed : Bool}

theorem map_char_lastCodePoints {a b : List CodePoint}
    (h : a.map CodePoint.char = b.map CodePoint.char) (text : List Char) :
    (lastCodePoints a text).map CodePoint.char = (lastCodePoints b text).map CodePoint.char := by
  have hlength : a.length = b.length := by simpa using congrArg List.length h
  rw [lastCodePoints, lastCodePoints, List.map_drop, List.map_drop, h, hlength]

theorem map_char_tokenPoints {a b : List CodePoint}
    (h : a.map CodePoint.char = b.map CodePoint.char) :
    (tokenPoints a).map CodePoint.char = (tokenPoints b).map CodePoint.char := by
  rw [tokenPoints, tokenPoints, h, map_char_lastCodePoints h]

theorem commentReports_congr {a b : List CodePoint}
    (h : a.map CodePoint.char = b.map CodePoint.char) : commentReports a = commentReports b := by
  rw [commentReports, commentReports, h]

/-- Where the next token starts, and which one it is, does not depend on sources. -/
theorem exists_tokenPoints (rangesAllowed : Bool) {a b : List CodePoint}
    (h : a.map CodePoint.char = b.map CodePoint.char) (hmore : tokenPoints a = cp :: others) :
    ∃ cp' others', tokenPoints b = cp' :: others' ∧
      others.map CodePoint.char = others'.map CodePoint.char ∧
      scanPoints rangesAllowed cp' others' = scanPoints rangesAllowed cp others := by
  have hpoints := map_char_tokenPoints h
  rw [hmore, List.map_cons] at hpoints
  obtain ⟨cp', others', hmore', hchar, hothers⟩ := List.map_eq_cons_iff.1 hpoints.symm
  exact ⟨cp', others', hmore', hothers.symm, by rw [scanPoints, scanPoints, hchar, hothers]⟩

/-- Tokens are formed of characters; what these were filtered from makes no difference. -/
theorem bare_lex_congr {a b : List CodePoint}
    (h : a.map CodePoint.char = b.map CodePoint.char) :
    (lex rangesAllowed a).bare = (lex rangesAllowed b).bare := by
  induction a using lex_induction rangesAllowed generalizing b with
  | finish a hend =>
    have hpoints := map_char_tokenPoints h
    rw [hend, List.map_nil, eq_comm, List.map_eq_nil_iff] at hpoints
    rw [lex_end hend, lex_end hpoints, commentReports_congr h]
  | fault a cp others fault hmore hvalue =>
    obtain ⟨cp', others', hmore', -, hscan⟩ := exists_tokenPoints rangesAllowed h hmore
    rw [lex_fault hmore hvalue, lex_fault hmore' (hscan.symm ▸ hvalue), hscan,
      commentReports_congr h]
  | token a cp others kind hmore hvalue ih =>
    obtain ⟨cp', others', hmore', hothers, hscan⟩ := exists_tokenPoints rangesAllowed h hmore
    rw [lex_token hmore hvalue, lex_token hmore' (hscan.symm ▸ hvalue), hscan,
      commentReports_congr h, TokenStream.bare_cons, TokenStream.bare_cons,
      ih (map_char_lastCodePoints hothers _)]

end Bare

namespace Filter

open RawPoint

/-- What the filter vends for a text in chunks: the normalized text, whose sources are the text,
none of them empty. Filtered once more, each character of it stands for itself, and the tokens are
those of the normalized text, whatever the text was that they were formed of. -/
theorem vend_normalizes (rangesAllowed : Bool) (chunks : List (List RawPoint)) :
    (vend false chunks.flatten).map Vended.char = normalized chunks.flatten ∧
    (vend false chunks.flatten).flatMap Vended.source = chunks.flatten ∧
    (∀ v ∈ vend false chunks.flatten, v.source ≠ []) ∧
    vend false ((normalized chunks.flatten).map .char) =
      (normalized chunks.flatten).map (fun c => ⟨c, [.char c]⟩) ∧
    (lex rangesAllowed ((vend false chunks.flatten).map Vended.codePoint)).bare =
      (lexChunks rangesAllowed [String.ofList (normalized chunks.flatten)]).bare ∧
    ∀ texts : List String, filterChunks texts =
      (vend false (texts.map ofText).flatten).map Vended.codePoint := by
  have hplain (c : Char) (hc : c ∈ normalized chunks.flatten) : isPlain c :=
    isPlain_of_mem_vend (map_char_vend chunks.flatten ▸ hc)
  refine ⟨map_char_vend _, flatMap_source_vend _, source_ne_nil _, vend_plain hplain, ?_,
    filterChunks_eq_vend⟩
  rw [lexChunks, filter_points (List.all_eq_true.2 hplain)]
  apply bare_lex_congr
  rw [map_char_points, ← map_char_vend, List.map_map]
  rfl

end Filter

end StyleValue
