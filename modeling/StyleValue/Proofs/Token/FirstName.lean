import StyleValue.Proofs.Token.Remainder

/-!
# Names are the longest names

A text starts with an identifier, a function or a URL if it starts with a name. The longest one is
taken and decoded; what it makes depends on whether a parenthesis follows it, and whether it reads
`url`.
-/

set_option autoImplicit false

namespace StyleValue

open Grammar

open Lexer

variable {cps rest : List CodePoint}

inductive BeginsNamed (cps : List CodePoint) (p r value : List Char) : Prop
  | ident (alone : r.head? ≠ some '(')
    (begins : Begins false cps p (.ident (String.ofList value)))
  | url {others argument : List Char} {kind : TokenKind} (call : r = '(' :: others)
    (keyword : lowercase (String.ofList value) = "url") (isPrefix : argument <+: others)
    (isUrl : kind = .badUrl ∨ ∃ url, kind = .url url)
    (begins : Begins false cps (p ++ '(' :: argument) kind)
  | function {others : List Char} (call : r = '(' :: others)
    (keyword : lowercase (String.ofList value) ≠ "url")
    (begins : Begins false cps (p ++ ['(']) (.function (String.ofList value)))

theorem BeginsNamed.isNamed {p r value : List Char} (h : BeginsNamed cps p r value) :
    ∃ kind, firstKind? false cps = some kind ∧ kind.IsNamed := by
  cases h with
  | ident _ begins => exact ⟨_, begins.firstKind?, .ident _⟩
  | url _ _ _ isUrl begins =>
    refine ⟨_, begins.firstKind?, ?_⟩
    rcases isUrl with rfl | ⟨url, rfl⟩
    · exact .badUrl
    · exact .url url
  | function _ _ begins => exact ⟨_, begins.firstKind?, .function _⟩

/-- A text that starts with a name is read as one, unless a mark closes a comment there. -/
theorem scanPoints_name {cp : CodePoint} {others : List CodePoint}
    (hclose : ¬ ['-', '-', '>'] <+: cp.char :: others.map CodePoint.char)
    (hname : startsName (cp.char :: others.map CodePoint.char)) :
    scanPoints false cp others = (identLike (cp.char :: others.map CodePoint.char)).map .ok := by
  have hchosen : Start.Chosen cp.char (others.map CodePoint.char) .name := by
    refine .name (by simp [not_starts_of_startsName hname]) ?_ hname
    rintro ⟨hdash, hmark⟩
    refine hclose ⟨(others.map CodePoint.char).drop 2, ?_⟩
    rw [hdash, ← List.take_append_drop 2 (others.map CodePoint.char), hmark]
    rfl
  rw [scanPoints, token_eq_scan, hchosen.of_eq]
  rfl

theorem begins_name (hrest : AfterComments cps rest)
    (hclose : ¬ ['-', '-', '>'] <+: rest.map CodePoint.char)
    (hname : startsName (rest.map CodePoint.char)) :
    ∃ p r value, rest.map CodePoint.char = p ++ r ∧
      IsLongest (namesOf (rest.map CodePoint.char)) p (rest.map CodePoint.char) ∧
      Decodes p value ∧ BeginsNamed cps p r value := by
  obtain ⟨p, hsplit, hlong, hdecodes⟩ := exists_longest_name (rest.map CodePoint.char)
  obtain ⟨cp, others, rfl⟩ : ∃ cp others, rest = cp :: others := by
    cases rest with
    | nil => cases hname
    | cons cp others => exact ⟨cp, others, rfl⟩
  rw [List.map_cons] at hclose hname hsplit hlong hdecodes ⊢
  have hpoints := scanPoints_name hclose hname
  have hp : p ≠ [] := ne_nil_of_startsName hname hsplit
  refine ⟨p, _, _, hsplit, hlong, hdecodes, ?_⟩
  by_cases hparen : (name (cp.char :: others.map CodePoint.char)).rest.head? = some '('
  · obtain ⟨after, hafter⟩ := List.head?_eq_some_iff.mp hparen
    rw [hafter] at hsplit ⊢
    rw [identLike_function (by rw [← hafter])] at hpoints
    by_cases hurl :
        lowercase (String.ofList (name (cp.char :: others.map CodePoint.char)).value) = "url"
    · rw [if_pos hurl] at hpoints
      obtain ⟨argument, hargument⟩ := url_suffix after
      have hkind : urlKind (url after).value = .badUrl ∨
          ∃ value, urlKind (url after).value = .url value := by
        cases (url after).value with
        | none => exact .inl rfl
        | some value => exact .inr ⟨_, rfl⟩
      have hcut : cp.char :: others.map CodePoint.char =
          (p ++ '(' :: argument) ++ (url after).rest := by
        rw [hsplit, List.append_assoc, List.cons_append, hargument]
      exact .url rfl hurl ⟨_, hargument⟩ hkind
        (begins_of_scan hrest (by rw [hpoints]; rfl) hcut (by simp) (by rw [hpoints]; rfl))
    · rw [if_neg hurl] at hpoints
      have hcut : cp.char :: others.map CodePoint.char = (p ++ ['(']) ++ after := by
        rw [hsplit, List.append_assoc, List.singleton_append]
      exact .function rfl hurl
        (begins_of_scan hrest (by rw [hpoints]; rfl) hcut (by simp) (by rw [hpoints]; rfl))
  · rw [identLike_ident hparen] at hpoints
    exact .ident hparen
      (begins_of_scan hrest (by rw [hpoints]; rfl) hsplit hp (by rw [hpoints]; rfl))

/-- Where ranges are not allowed, the first token of a text is an identifier, a function or a URL if
and only if the text starts as names do. It takes the longest name and decodes it: an identifier if
no parenthesis follows, a URL if one does and the name is `url`, whatever the case of its letters,
and otherwise a function, with the parenthesis and nothing else. -/
theorem tokens_of_longest_names (hrest : AfterComments cps rest)
    (hclose : ¬ ['-', '-', '>'] <+: rest.map CodePoint.char) :
    ((∃ kind, firstKind? false cps = some kind ∧ kind.IsNamed) ↔
      StartsIdent (rest.map CodePoint.char)) ∧
    (StartsIdent (rest.map CodePoint.char) → ∃ p r value, rest.map CodePoint.char = p ++ r ∧
      IsLongest (namesOf (rest.map CodePoint.char)) p (rest.map CodePoint.char) ∧
      Decodes p value ∧ BeginsNamed cps p r value) := by
  rw [← startsName_iff]
  refine ⟨⟨?_, ?_⟩, begins_name hrest hclose⟩
  · rintro ⟨kind, hfirst, hkind⟩
    cases rest with
    | nil =>
      rw [firstKind?_of_end hrest] at hfirst
      cases hfirst
    | cons cp others => exact startsName_of_isNamed ((firstKind?_of_scan hrest).1 hfirst) hkind
  · intro hname
    obtain ⟨p, r, value, -, -, -, hbegins⟩ := begins_name hrest hclose hname
    exact hbegins.isNamed

/-- A second hyphen that is escaped, with the space that ends the escape. -/
theorem function_of_escaped_hyphen :
    Begins false (filter "/**/-\\2d x(1)") "-\\2d x(".toList (.function "--x") := by
  have hrest : AfterComments (filter "/**/-\\2d x(1)") (filter "-\\2d x(1)") :=
    afterComments_iff.2 (by decide +kernel)
  have hstart : StartsIdent ((filter "-\\2d x(1)").map CodePoint.char) :=
    startsName_iff.1 (by decide +kernel)
  obtain ⟨p, r, value, hsplit, hlong, hdecodes, hbegins⟩ :=
    (tokens_of_longest_names hrest (by decide +kernel)).2 hstart
  -- The name, and what it stands for, as the scanner of names finds them.
  obtain ⟨q, hsplit', hlong', hdecodes'⟩ :=
    exists_longest_name ((filter "-\\2d x(1)").map CodePoint.char)
  obtain rfl := hlong.unique hlong'
  obtain rfl := List.append_cancel_left (hsplit'.symm.trans hsplit)
  obtain rfl := (name_of_decodes hdecodes).symm.trans (name_of_decodes hdecodes')
  have hrest : (name ((filter "-\\2d x(1)").map CodePoint.char)).rest = "(1)".toList := by
    decide +kernel
  have hvalue : (name ((filter "-\\2d x(1)").map CodePoint.char)).value = "--x".toList := by
    decide +kernel
  rw [hrest] at hsplit hbegins
  rw [hvalue] at hbegins
  obtain rfl : p = "-\\2d x".toList :=
    List.append_cancel_right (hsplit.symm.trans (by decide +kernel))
  cases hbegins with
  | ident alone => exact absurd rfl alone
  | url _ keyword => exact absurd keyword (by decide +kernel)
  | function _ _ begins => exact begins

/-- A comment before the name, which the text does not start with then. -/
theorem name_after_comment :
    firstKind? false (filter "/**/a") = some (.ident "a") ∧
      ¬ ['-', '-', '>'] <+: (filter "/**/a").map CodePoint.char ∧
      ¬ StartsIdent ((filter "/**/a").map CodePoint.char) := by
  rw [← startsName_iff]
  decide +kernel

end StyleValue
