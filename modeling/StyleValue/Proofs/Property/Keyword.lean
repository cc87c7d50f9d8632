import StyleValue.Proofs.Failure
import StyleValue.Proofs.Text.Lowercase
import StyleValue.Proofs.Token.Boundary.Token
import StyleValue.Property.Basic

/-!
# Keywords

Keywords, units and the names of functions are looked up in lowercase. So they are found in whatever
case of the ASCII alphabet they are written in, and a keyword with a `k` is also found where the
Kelvin sign stands for that letter. Nothing else is taken for a keyword.
-/

set_option autoImplicit false

namespace StyleValue

section Tables

variable {α : Type} {property : String → Prop} {table : String → Option α}

def AllKeywords (property : String → Prop) (table : String → Option α) : Prop :=
  ∀ w, (table w).isSome → property w

/-- A table does not tell two texts apart that are equal to the same keywords. -/
theorem AllKeywords.congr (h : AllKeywords property table) {u v : String}
    (hsame : ∀ w, property w → (u = w ↔ v = w)) : table u = table v := by
  cases hu : table u with
  | some a =>
    have hproperty : property u := h u (by rw [hu]; rfl)
    rw [← hu, (hsame u hproperty).1 rfl]
  | none =>
    cases hv : table v with
    | some a =>
      have hproperty : property v := h v (by rw [hv]; rfl)
      rw [← hv, ← hu, (hsame v hproperty).2 rfl]
    | none => rfl

theorem AllKeywords.lookup_lowercase (h : AllKeywords InAscii table) (s : String) :
    table (lowercase s) = table (foldLetters s) :=
  h.congr fun _ hw => lowercase_eq_iff hw s

theorem AllKeywords.lookup_lowercase_ascii (h : AllKeywords InAsciiWithoutK table) (s : String) :
    table (lowercase s) = table (foldAscii s) :=
  h.congr fun _ hw => hw.lowercase_eq_iff s

end Tables

theorem Color.keywords : AllKeywords InAscii Color.ofName? := by
  have hall : ∀ entry ∈ Color.names, InAscii entry.1 := by decide +kernel
  intro w h
  have hlookup : (Color.names.lookup w).isSome := by
    cases hnone : Color.names.lookup w with
    | some n => rfl
    | none => simp [Color.ofName?, hnone] at h
  obtain ⟨entry, hentry, hw⟩ := List.lookup_isSome_iff.1 hlookup
  rw [beq_iff_eq.1 hw]
  exact hall entry hentry

theorem ChannelFunction.keywords : AllKeywords InAscii ChannelFunction.ofName? := by
  intro w h
  unfold ChannelFunction.ofName? at h
  split at h <;> first | decide | cases h

theorem ColorSpace.keywords : AllKeywords InAsciiWithoutK ColorSpace.ofName? := by
  intro w h
  unfold ColorSpace.ofName? at h
  split at h <;> first | decide | cases h

theorem ImageFunction.keywords : AllKeywords InAscii ImageFunction.ofName? := by
  intro w h
  unfold ImageFunction.ofName? at h
  split at h <;> first | decide | cases h

theorem PaintLayer.keywords : AllKeywords InAscii PaintLayer.ofName? := by
  intro w h
  unfold PaintLayer.ofName? at h
  split at h <;> first | decide | cases h

theorem degreesPerUnit_keywords : AllKeywords InAsciiWithoutK degreesPerUnit? := by
  intro w h
  unfold degreesPerUnit? at h
  split at h <;> first | decide | cases h

theorem LengthPercentage.keywords :
    AllKeywords InAsciiWithoutK LengthPercentage.pixelsPerUnit? := by
  intro w h
  unfold LengthPercentage.pixelsPerUnit? at h
  split at h <;> first | decide | cases h

theorem ComponentValue.isKeyword_ident (s source w : String) :
    (ComponentValue.token ⟨.ident s, source⟩).isKeyword w ↔ lowercase s = w := by
  rw [isKeyword, keyword?, beq_iff_eq, Option.some_inj]

/-- What starts with a name and a parenthesis is a function unless the name is `url`. -/
theorem Lexer.identLike_isFunction_iff {s : String} {text rest : List Char}
    {reports : List LexicalError} (h : name text = ⟨s.toList, '(' :: rest, reports⟩) :
    (identLike text).value = .function s ↔ lowercase s ≠ "url" := by
  rw [identLike_function h, String.ofList_toList]
  split
  · next hurl =>
    have hkind (value : Option (List Char)) : urlKind value ≠ .function s := by
      cases value <;> exact TokenKind.noConfusion
    simp [hurl, hkind]
  · next hurl => simp [hurl]

/-- The keywords that a text is taken for, and what the tables have for it: those of the text with
its letters folded. The ASCII rule alone does for a keyword without a `k`. -/
theorem keywords_folded (s : String) :
    (∀ source w, InAscii w →
      ((ComponentValue.token ⟨.ident s, source⟩).isKeyword w ↔ foldLetters s = w)) ∧
    (∀ source w, InAsciiWithoutK w →
      ((ComponentValue.token ⟨.ident s, source⟩).isKeyword w ↔ foldAscii s = w)) ∧
    Color.ofName? (lowercase s) = Color.ofName? (foldLetters s) ∧
    ChannelFunction.ofName? (lowercase s) = ChannelFunction.ofName? (foldLetters s) ∧
    (lowercase s = "color" ↔ foldAscii s = "color") ∧
    ColorSpace.ofName? (lowercase s) = ColorSpace.ofName? (foldAscii s) ∧
    ImageFunction.ofName? (lowercase s) = ImageFunction.ofName? (foldLetters s) ∧
    PaintLayer.ofName? (lowercase s) = PaintLayer.ofName? (foldLetters s) ∧
    degreesPerUnit? (lowercase s) = degreesPerUnit? (foldAscii s) ∧
    LengthPercentage.pixelsPerUnit? (lowercase s) =
      LengthPercentage.pixelsPerUnit? (foldAscii s) ∧
    ∀ text rest reports, Lexer.name text = ⟨s.toList, '(' :: rest, reports⟩ →
      ((Lexer.identLike text).value = .function s ↔ foldAscii s ≠ "url") := by
  have hcolor : InAsciiWithoutK "color" := by decide
  have hurl : InAsciiWithoutK "url" := by decide
  refine ⟨?_, ?_, Color.keywords.lookup_lowercase s, ChannelFunction.keywords.lookup_lowercase s,
    hcolor.lowercase_eq_iff s, ColorSpace.keywords.lookup_lowercase_ascii s,
    ImageFunction.keywords.lookup_lowercase s, PaintLayer.keywords.lookup_lowercase s,
    degreesPerUnit_keywords.lookup_lowercase_ascii s,
    LengthPercentage.keywords.lookup_lowercase_ascii s, ?_⟩
  · intro source w hw
    rw [ComponentValue.isKeyword_ident, lowercase_eq_iff hw]
  · intro source w hw
    rw [ComponentValue.isKeyword_ident, hw.lowercase_eq_iff]
  · intro text rest reports h
    rw [Lexer.identLike_isFunction_iff h, ne_eq, hurl.lowercase_eq_iff]

/-- An identifier in capitals, one of them the Kelvin sign, one without a `k`, and a URL whose name
ends in an escape. -/
theorem keywords_folded_inherit :
    (InAscii "black" ∧ foldLetters "BLAC\u212a" = "black" ∧
      (ComponentValue.token ⟨.ident "BLAC\u212a", "BLAC\u212a"⟩).isKeyword "black") ∧
    (InAsciiWithoutK "inherit" ∧ foldAscii "INHERIT" = "inherit" ∧
      (ComponentValue.token ⟨.ident "INHERIT", "INHERIT"⟩).isKeyword "inherit") ∧
    Lexer.name "UR\\4c(".toList = ⟨"URL".toList, ['('], []⟩ ∧
      (Lexer.identLike "UR\\4c(".toList).value ≠ .function "URL" := by
  have hblack : InAscii "black" ∧ foldLetters "BLAC\u212a" = "black" := by decide +kernel
  have hinherit : InAsciiWithoutK "inherit" ∧ foldAscii "INHERIT" = "inherit" := by decide +kernel
  have hescape : Lexer.escape ['4', 'c', '('] = ⟨'L', ['('], []⟩ := by rfl
  have hname : Lexer.name "UR\\4c(".toList = ⟨"URL".toList, ['('], []⟩ := by
    show Lexer.name ['U', 'R', '\\', '4', 'c', '('] = _
    rw [Lexer.name_ident _ (by decide), Lexer.name_ident _ (by decide),
      Lexer.name_escape _ (by decide), hescape, Lexer.name_stop (Lexer.endsName_parenthesis [])]
    rfl
  have hurl : foldAscii "URL" = "url" := by decide +kernel
  refine ⟨⟨hblack.1, hblack.2, ?_⟩, ⟨hinherit.1, hinherit.2, ?_⟩, hname, ?_⟩
  · exact ((keywords_folded _).1 _ _ hblack.1).2 hblack.2
  · exact ((keywords_folded _).2.1 _ _ hinherit.1).2 hinherit.2
  · intro hvalue
    have hfold := (keywords_folded "URL").2.2.2.2.2.2.2.2.2.2 _ _ _ hname
    exact hfold.1 hvalue hurl

/-- With a Kelvin sign for its last letter a text is taken for `black`, which the ASCII rule does
not make of it. -/
theorem keyword_black_of_kelvinSign :
    InAscii "black" ∧ foldAscii "blac\u212a" ≠ "black" ∧
      (ComponentValue.token ⟨.ident "blac\u212a", "blac\u212a"⟩).isKeyword "black" ∧
      (Color.ofText "blac\u212a").events = [] ∧
      (Color.ofText "blac\u212a").result = .ok (Color.ofInt 0x000000ff) := by
  decide +kernel

end StyleValue
