import Mathlib.Computability.Language
import StyleValue.Proofs.Token.Boundary.Numeral

/-!
# The languages of numerals and names

The texts that numerals and names are written as, as regular languages, and what it is for a prefix
of a text to be the longest in a language. The characters that a name stands for are those of its
text with all escapes resolved.
-/

set_option autoImplicit false

open scoped Computability

namespace StyleValue

structure IsLongest (language : Language Char) (p text : List Char) : Prop where
  mem : p ∈ language
  isPrefix : p <+: text
  longest : ∀ q ∈ language, q <+: text → q.length ≤ p.length

theorem IsLongest.unique {language : Language Char} {p q text : List Char}
    (hp : IsLongest language p text) (hq : IsLongest language q text) : p = q := by
  have hlength := Nat.le_antisymm (hq.longest p hp.mem hp.isPrefix) (hp.longest q hq.mem hq.isPrefix)
  exact (List.prefix_of_prefix_length_le hp.isPrefix hq.isPrefix hlength.le).eq_of_length hlength

/-- A text spells one numeral at most. -/
theorem Numeral.Spelling.unique {m n : Numeral} {text : List Char} (hm : Spelling m text)
    (hn : Spelling n text) : m = n := by
  have hends (k : Numeral) : Ends k [] := ⟨by simp, fun _ => rfl, fun _ => rfl⟩
  have heq := (scan_spelling hm (hends m)).symm.trans (scan_spelling hn (hends n))
  exact congrArg Prod.fst heq

theorem Numeral.Spelling.ne_nil {n : Numeral} {text : List Char} (h : Spelling n text) :
    text ≠ [] := by
  rintro rfl
  exact absurd (starts_spelling h []) (by decide)

namespace Grammar

def one (p : Char → Bool) : Language Char := {text | ∃ c, p c ∧ text = [c]}

def optional (language : Language Char) : Language Char := 1 + language

theorem mem_one {p : Char → Bool} {text : List Char} : text ∈ one p ↔ ∃ c, p c ∧ text = [c] :=
  Iff.rfl

theorem mem_optional {language : Language Char} {text : List Char} :
    text ∈ optional language ↔ text = [] ∨ text ∈ language := by
  rw [optional, Language.mem_add, Language.mem_one]

theorem mem_one_mul {p : Char → Bool} {language : Language Char} {text : List Char} :
    text ∈ one p * language ↔ ∃ c others, p c ∧ others ∈ language ∧ text = c :: others := by
  rw [Language.mem_mul]
  constructor
  · rintro ⟨first, ⟨c, hc, rfl⟩, others, hothers, rfl⟩
    exact ⟨c, others, hc, hothers, rfl⟩
  · rintro ⟨c, others, hc, hothers, rfl⟩
    exact ⟨[c], ⟨c, hc, rfl⟩, others, hothers, rfl⟩

theorem mem_kstar_iff {language : Language Char} {text : List Char} :
    text ∈ language∗ ↔ text = [] ∨ text ∈ language * language∗ := by
  rw [← Language.mem_one, ← Language.mem_add, Language.one_add_self_mul_kstar_eq_kstar]

theorem mem_kstar_one {p : Char → Bool} {text : List Char} :
    text ∈ (one p)∗ ↔ ∀ c ∈ text, p c := by
  induction text with
  | nil => simp [Language.nil_mem_kstar]
  | cons c text ih =>
    rw [mem_kstar_iff, mem_one_mul]
    simp [ih]

def digits : Language Char := one isDigit * (one isDigit)∗

def sign : Language Char := optional (one fun c => c = '+' || c = '-')

def fraction : Language Char := one (· = '.') * digits

def exponent : Language Char := one (fun c => c = 'e' || c = 'E') * (sign * digits)

def integer : Language Char := sign * digits

/-- `[+-]?(\d+(\.\d+)?|\.\d+)([eE][+-]?\d+)?` -/
def numeral : Language Char :=
  sign * ((digits * optional fraction + fraction) * optional exponent)

section Parts

open Numeral

variable {text : List Char}

theorem mem_digits : text ∈ digits ↔ (∀ c ∈ text, isDigit c) ∧ text ≠ [] := by
  rw [digits, mem_one_mul]
  simp only [mem_kstar_one]
  constructor
  · rintro ⟨c, others, hc, hothers, rfl⟩
    exact ⟨by simpa [hc] using hothers, by simp⟩
  · rintro ⟨hall, hne⟩
    obtain ⟨c, others, rfl⟩ := List.exists_cons_of_ne_nil hne
    exact ⟨c, others, hall c (by simp), fun d hd => hall d (by simp [hd]), rfl⟩

theorem mem_sign : text ∈ sign ↔ ∃ negative, SignSpelling negative text := by
  rw [sign, mem_optional, mem_one]
  constructor
  · rintro (rfl | ⟨c, hc, rfl⟩)
    · exact ⟨_, .none⟩
    · simp only [Bool.or_eq_true, decide_eq_true_eq] at hc
      rcases hc with rfl | rfl
      · exact ⟨_, .plus⟩
      · exact ⟨_, .minus⟩
  · rintro ⟨negative, h⟩
    cases h <;> simp

theorem mem_fraction :
    text ∈ fraction ↔ ∃ value, FractionSpelling (some value) text := by
  rw [fraction, mem_one_mul]
  constructor
  · rintro ⟨c, value, hc, hvalue, rfl⟩
    obtain rfl : c = '.' := by simpa using hc
    obtain ⟨hall, hne⟩ := mem_digits.1 hvalue
    exact ⟨value, .digits hall hne⟩
  · rintro ⟨value, h⟩
    cases h with
    | digits hall hne => exact ⟨'.', value, rfl, mem_digits.2 ⟨hall, hne⟩, rfl⟩

theorem mem_optional_fraction :
    text ∈ optional fraction ↔ ∃ value, FractionSpelling value text := by
  rw [mem_optional, mem_fraction]
  constructor
  · rintro (rfl | ⟨value, h⟩)
    · exact ⟨none, .none⟩
    · exact ⟨some value, h⟩
  · rintro ⟨value, h⟩
    cases value with
    | none =>
      cases h
      exact .inl rfl
    | some value => exact .inr ⟨value, h⟩

theorem mem_optional_exponent :
    text ∈ optional exponent ↔ ∃ value, ExponentSpelling value text := by
  rw [mem_optional, exponent, mem_one_mul]
  constructor
  · rintro (rfl | ⟨mark, others, hmark, hothers, rfl⟩)
    · exact ⟨_, .none⟩
    · obtain ⟨sign, hsign, value, hvalue, rfl⟩ := Language.mem_mul.1 hothers
      obtain ⟨negative, hsigned⟩ := mem_sign.1 hsign
      obtain ⟨hall, hne⟩ := mem_digits.1 hvalue
      exact ⟨_, .digits (by simpa using hmark) hsigned hall hne⟩
  · rintro ⟨value, h⟩
    cases h with
    | none => exact .inl rfl
    | digits hmark hsigned hall hne =>
      refine .inr ⟨_, _, by simpa using hmark, ?_, rfl⟩
      exact Language.append_mem_mul (mem_sign.2 ⟨_, hsigned⟩) (mem_digits.2 ⟨hall, hne⟩)

/-- The language of numerals is that of their spellings. -/
theorem mem_numeral : text ∈ numeral ↔ ∃ n, Spelling n text := by
  rw [numeral]
  constructor
  · intro h
    obtain ⟨sign, hsign, unsigned, hunsigned, rfl⟩ := Language.mem_mul.1 h
    obtain ⟨mantissa, hmantissa, exponent, hexponent, rfl⟩ := Language.mem_mul.1 hunsigned
    obtain ⟨negative, hsigned⟩ := mem_sign.1 hsign
    obtain ⟨power, hscaled⟩ := mem_optional_exponent.1 hexponent
    rcases (Language.mem_add _ _ _).1 hmantissa with hboth | hpoint
    · obtain ⟨whole, hwhole, fraction, hfraction, rfl⟩ := Language.mem_mul.1 hboth
      obtain ⟨hall, hne⟩ := mem_digits.1 hwhole
      obtain ⟨value, hfractional⟩ := mem_optional_fraction.1 hfraction
      rw [List.append_assoc]
      exact ⟨_, .parts hsigned hall hfractional hscaled (.inl hne)⟩
    · obtain ⟨value, hfractional⟩ := mem_fraction.1 hpoint
      have hnone : ∀ c ∈ ([] : List Char), isDigit c := by simp
      exact ⟨_, .parts hsigned hnone hfractional hscaled (.inr (by simp))⟩
  · rintro ⟨n, h⟩
    cases h with
    | @parts negative whole sign fraction exponent value power hsigned hall hfractional hscaled
        hnonempty =>
      refine Language.append_mem_mul (mem_sign.2 ⟨_, hsigned⟩) ?_
      rw [← List.append_assoc]
      refine Language.append_mem_mul ?_ (mem_optional_exponent.2 ⟨_, hscaled⟩)
      by_cases hwhole : whole = []
      · subst hwhole
        obtain ⟨digits, rfl⟩ := Option.ne_none_iff_exists'.1 (hnonempty.resolve_left (by simp))
        exact .inr (mem_fraction.2 ⟨digits, hfractional⟩)
      · exact .inl (Language.append_mem_mul (mem_digits.2 ⟨hall, hwhole⟩)
          (mem_optional_fraction.2 ⟨value, hfractional⟩))

/-- A spelling is that of an integer if it has neither fraction nor exponent. -/
theorem mem_integer {n : Numeral} (h : Spelling n text) : text ∈ integer ↔ n.isInteger := by
  rw [integer]
  constructor
  · intro hmem
    obtain ⟨sign, hsign, digits, hdigits, rfl⟩ := Language.mem_mul.1 hmem
    obtain ⟨negative, hsigned⟩ := mem_sign.1 hsign
    obtain ⟨hall, hne⟩ := mem_digits.1 hdigits
    have hspelling : Spelling ⟨negative, digits, none, none⟩ (sign ++ (digits ++ ([] ++ []))) :=
      .parts hsigned hall .none .none (.inl hne)
    rw [List.append_nil, List.append_nil] at hspelling
    rw [h.unique hspelling]
    rfl
  · intro hinteger
    simp only [isInteger, Bool.and_eq_true, Option.isNone_iff_eq_none] at hinteger
    cases h with
    | @parts negative whole sign fraction exponent value power hsigned hall hfractional hscaled
        hnonempty =>
      obtain ⟨rfl, rfl⟩ : value = none ∧ power = none := hinteger
      cases hfractional
      cases hscaled
      rw [List.append_nil, List.append_nil]
      exact Language.append_mem_mul (mem_sign.2 ⟨_, hsigned⟩)
        (mem_digits.2 ⟨hall, hnonempty.resolve_right (by simp)⟩)

end Parts

def ordinal : Language Char :=
  {digits | (∀ c ∈ digits, isHexDigit c) ∧ digits ≠ [] ∧ digits.length ≤ 6}

/-- `\\[0-9A-Fa-f]{1,6}[\n\t ]?` -/
def ordinalEscape : Language Char :=
  one (· = '\\') * (ordinal * optional (one isWhitespace))

/-- `\\[^0-9A-Fa-f\n]` -/
def charEscape : Language Char := one (· = '\\') * one fun c => !isHexDigit c && !isNewline c

def namePart : Language Char := one isIdent + ordinalEscape + charEscape

def names : Language Char := namePart∗

def endingName (text : List Char) : Language Char :=
  {p | p = text ∧ p ∈ names * one (· = '\\')}

def namesOf (text : List Char) : Language Char := names + endingName text

theorem mem_namePart {text : List Char} : text ∈ namePart ↔
    (∃ c, isIdent c ∧ text = [c]) ∨
    (∃ digits space, (∀ c ∈ digits, isHexDigit c) ∧ digits ≠ [] ∧ digits.length ≤ 6 ∧
      (space = [] ∨ ∃ w, isWhitespace w ∧ space = [w]) ∧ text = '\\' :: (digits ++ space)) ∨
    ∃ c, isHexDigit c = false ∧ isNewline c = false ∧ text = ['\\', c] := by
  rw [namePart, Language.mem_add, Language.mem_add, or_assoc, mem_one, ordinalEscape, mem_one_mul,
    charEscape, mem_one_mul]
  refine or_congr_right (or_congr ?_ ?_)
  · constructor
    · rintro ⟨c, others, hc, hothers, rfl⟩
      obtain ⟨digits, ⟨hall, hne, hmost⟩, space, hspace, rfl⟩ := Language.mem_mul.1 hothers
      obtain rfl : c = '\\' := by simpa using hc
      exact ⟨digits, space, hall, hne, hmost, mem_optional.1 hspace, rfl⟩
    · rintro ⟨digits, space, hall, hne, hmost, hspace, rfl⟩
      exact ⟨_, _, rfl, Language.append_mem_mul ⟨hall, hne, hmost⟩ (mem_optional.2 hspace), rfl⟩
  · constructor
    · rintro ⟨c, others, hc, ⟨d, hd, rfl⟩, rfl⟩
      obtain rfl : c = '\\' := by simpa using hc
      exact ⟨d, by simpa using hd⟩
    · rintro ⟨c, hhex, hnewline, rfl⟩
      exact ⟨_, _, rfl, ⟨c, by simp [hhex, hnewline], rfl⟩, rfl⟩

theorem mem_names_iff {text : List Char} :
    text ∈ names ↔ text = [] ∨ ∃ part ∈ namePart, ∃ others ∈ names, part ++ others = text := by
  rw [names, mem_kstar_iff, Language.mem_mul]

theorem nil_mem_names : [] ∈ names := mem_names_iff.2 (.inl rfl)

theorem cons_mem_names {part others : List Char} (hpart : part ∈ namePart)
    (hothers : others ∈ names) : part ++ others ∈ names :=
  mem_names_iff.2 (.inr ⟨part, hpart, others, hothers, rfl⟩)

theorem cons_mem_namesOf {part p rest : List Char} (hpart : part ∈ namePart)
    (h : p ∈ namesOf rest) : part ++ p ∈ namesOf (part ++ rest) := by
  rcases (Language.mem_add _ _ _).1 h with hname | ⟨rfl, hending⟩
  · exact .inl (cons_mem_names hpart hname)
  · obtain ⟨body, hbody, slash, hslash, rfl⟩ := Language.mem_mul.1 hending
    refine .inr ⟨rfl, ?_⟩
    rw [← List.append_assoc]
    exact Language.append_mem_mul (cons_mem_names hpart hbody) hslash

/-- A name starts with a code point of a name, without which it is a name still, or with a
backslash. -/
theorem head_of_mem_names {c : Char} {text : List Char} (h : c :: text ∈ names) :
    isIdent c ∧ text ∈ names ∨ c = '\\' := by
  obtain hnil | ⟨part, hpart, others, hothers, heq⟩ := mem_names_iff.1 h
  · cases hnil
  rcases mem_namePart.1 hpart with ⟨d, hd, rfl⟩ | ⟨digits, space, -, -, -, -, rfl⟩ | ⟨d, -, -, rfl⟩
  · obtain ⟨rfl, rfl⟩ := List.cons.inj heq
    exact .inl ⟨hd, hothers⟩
  · exact .inr (List.cons.inj heq).1.symm
  · exact .inr (List.cons.inj heq).1.symm

inductive Decodes : List Char → List Char → Prop
  | nil : Decodes [] []
  | ident {c : Char} {text value : List Char} (part : isIdent c) (others : Decodes text value) :
    Decodes (c :: text) (c :: value)
  | ordinal {digits space text value : List Char} (all : ∀ c ∈ digits, isHexDigit c)
    (nonempty : digits ≠ []) (most : digits.length ≤ 6)
    (greedy : digits.length = 6 ∨ ∀ c ∈ (space ++ text).head?, isHexDigit c = false)
    (spaced : space = [] ∨ ∃ w, isWhitespace w ∧ space = [w]) (others : Decodes text value) :
    Decodes ('\\' :: (digits ++ (space ++ text))) (charOfOrdinal (ofHexDigits digits) :: value)
  | char {c : Char} {text value : List Char} (plain : isHexDigit c = false)
    (kept : isNewline c = false) (others : Decodes text value) :
    Decodes ('\\' :: c :: text) (c :: value)
  | endOfInput : Decodes ['\\'] [replacementChar]

theorem Decodes.head {text value : List Char} (h : Decodes text value) :
    ∀ c ∈ text.head?, isIdent c ∨ c = '\\' := by
  cases h with
  | nil => simp
  | ident part => simp [part]
  | ordinal => simp
  | char => simp
  | endOfInput => simp

end Grammar

end StyleValue
