import StyleValue.Proofs.Color.Unpacking
import StyleValue.Proofs.Token.Escape

/-!
# Hex colors

Eight hexadecimal digits are the number of a color, six that of an opaque one, and with three or
four each digit stands for two. The alpha becomes a fraction and is packed again, which gives back
every byte. After a hash sign the digits are a single token, also where they look like a number or
an exponent, so a text of them is the color that they denote.
-/

set_option autoImplicit false

namespace StyleValue

namespace Color

def hexLetters : List Char := "0123456789abcdef".toList

def hexAlphabet : List Char := "0123456789abcdefABCDEF".toList

def hexNumber (digits : List Char) : Nat :=
  Nat.ofDigits 16 (digits.reverse.map fun d => hexLetters.idxOf d.toLower)

def hexDigits : Nat → Nat → List Char
  | 0, _ => []
  | count + 1, n => hexDigits count (n / 16) ++ [Nat.digitChar (n % 16)]

structure IsHexColor (digits : List Char) : Prop where
  hex : ∀ d ∈ digits, d ∈ hexAlphabet
  length : digits.length ∈ [3, 4, 6, 8]

theorem isHexDigit_iff {c : Char} : isHexDigit c ↔ c ∈ hexAlphabet := by
  have hascii : ∀ n < 128, Ordinal.isHexDigit n → Char.ofNat n ∈ hexAlphabet := by decide
  -- By Booleans, since a search for all characters of a list may try all characters there are.
  have halphabet : hexAlphabet.all isHexDigit := by decide
  refine ⟨fun h => ?_, List.all_eq_true.1 halphabet c⟩
  have hlt : c.toNat < 128 := by
    simp only [isHexDigit, Ordinal.isHexDigit, Ordinal.isDigit, Bool.or_eq_true, Bool.and_eq_true,
      decide_eq_true_eq] at h
    omega
  rw [← Char.ofNat_toNat c]
  exact hascii _ hlt h

theorem all_isHexDigit_iff {digits : List Char} :
    digits.all isHexDigit ↔ ∀ d ∈ digits, d ∈ hexAlphabet := by
  simp [List.all_eq_true, isHexDigit_iff]

theorem hexValue_eq {c : Char} (h : c ∈ hexAlphabet) :
    hexValue c = hexLetters.idxOf c.toLower := by
  have hall : hexAlphabet.all fun d => hexValue d == hexLetters.idxOf d.toLower := by decide
  exact beq_iff_eq.1 (List.all_eq_true.1 hall c h)

theorem hexValue_lt {c : Char} (h : c ∈ hexAlphabet) : hexValue c < 16 := by
  have hall : hexAlphabet.all fun d => decide (hexValue d < 16) := by decide
  exact of_decide_eq_true (List.all_eq_true.1 hall c h)

theorem hexNumber_append_singleton (digits : List Char) (d : Char) :
    hexNumber (digits ++ [d]) = hexLetters.idxOf d.toLower + 16 * hexNumber digits := by
  simp [hexNumber, Nat.ofDigits_cons]

theorem hexAlphabet_digitChar : ∀ n < 16, Nat.digitChar n ∈ hexAlphabet ∧
    hexLetters.idxOf (Nat.digitChar n).toLower = n := by
  decide

theorem length_hexDigits (count n : Nat) : (hexDigits count n).length = count := by
  induction count generalizing n with
  | zero => rfl
  | succ count ih => simp [hexDigits, ih]

theorem mem_hexAlphabet_of_mem_hexDigits {count n : Nat} {d : Char} (h : d ∈ hexDigits count n) :
    d ∈ hexAlphabet := by
  induction count generalizing n with
  | zero => cases h
  | succ count ih =>
    rcases List.mem_append.1 h with h | h
    · exact ih h
    · rw [List.mem_singleton.1 h]
      exact (hexAlphabet_digitChar _ (Nat.mod_lt n (by decide))).1

theorem hexNumber_hexDigits (count n : Nat) : hexNumber (hexDigits count n) = n % 16 ^ count := by
  induction count generalizing n with
  | zero => simp [hexDigits, hexNumber, Nat.mod_one]
  | succ count ih =>
    rw [hexDigits, hexNumber_append_singleton, ih,
      (hexAlphabet_digitChar _ (Nat.mod_lt n (by decide))).2, pow_succ', Nat.mod_mul]

theorem ofHexDigits_eq_hexNumber {digits : List Char} (h : ∀ d ∈ digits, d ∈ hexAlphabet) :
    ofHexDigits digits = hexNumber digits := by
  rw [ofHexDigits_eq_ofDigits, hexNumber]
  congr 1
  apply List.map_congr_left
  intro d hd
  exact hexValue_eq (h d (List.mem_reverse.1 hd))

def twoByTwo : List Char → List (List Char)
  | high :: low :: rest => [high, low] :: twoByTwo rest
  | _ => []

def hexPairs? (digits : List Char) : Option (List (List Char)) :=
  if digits.length = 3 ∨ digits.length = 4 then some (digits.map fun d => [d, d])
  else if digits.length = 6 ∨ digits.length = 8 then some (twoByTwo digits)
  else none

def packHex? (digits : List Char) : Computed (Option Color) :=
  match if digits.all isHexDigit then hexPairs? digits else none with
  | none => .ok none
  | some pairs =>
    match ((pairs ++ [['f', 'f']]).take 4).map ofHexDigits with
    | [r, g, b, a] => do
      return some (← pack (.integer r) (.integer g) (.integer b) (← (Number.integer a).div 255))
    | _ => .ok none

inductive HexShape : List Char → Prop
  | three (r g b : Char) : HexShape [r, g, b]
  | four (r g b a : Char) : HexShape [r, g, b, a]
  | six (r r' g g' b b' : Char) : HexShape [r, r', g, g', b, b']
  | eight (r r' g g' b b' a a' : Char) : HexShape [r, r', g, g', b, b', a, a']

theorem hexShape_of_length : ∀ {digits : List Char}, digits.length ∈ [3, 4, 6, 8] → HexShape digits
  | [r, g, b], _ => .three r g b
  | [r, g, b, a], _ => .four r g b a
  | [r, r', g, g', b, b'], _ => .six r r' g g' b b'
  | [r, r', g, g', b, b', a, a'], _ => .eight r r' g g' b b' a a'
  | [], h | [_], h | [_, _], h | [_, _, _, _, _], h | [_, _, _, _, _, _, _], h => by simp at h
  | _ :: _ :: _ :: _ :: _ :: _ :: _ :: _ :: _ :: _, h => by simp at h

theorem ofHex?_eq_none {digits : List Char} (h : ¬ IsHexColor digits) : ofHex? digits = none := by
  by_cases hall : digits.all isHexDigit
  · have hlength : digits.length ∉ [3, 4, 6, 8] := fun hlength =>
      h ⟨all_isHexDigit_iff.1 hall, hlength⟩
    unfold ofHex?
    rw [if_pos hall]
    split <;> first | rfl | simp at hlength
  · unfold ofHex?
    rw [if_neg hall]

section

variable {r r' g g' b b' a a' : Char}

theorem ofHexDigits_pair (high low : Char) :
    ofHexDigits [high, low] = 16 * hexValue high + hexValue low := by
  simp [ofHexDigits]

theorem toNat_hexByte {high low : Char} (hhigh : isHexDigit high) (hlow : isHexDigit low) :
    (UInt8.ofNat (16 * hexValue high + hexValue low)).toNat =
      16 * hexValue high + hexValue low := by
  have hhigh' := hexValue_lt (isHexDigit_iff.1 hhigh)
  have hlow' := hexValue_lt (isHexDigit_iff.1 hlow)
  rw [UInt8.toNat_ofNat', Nat.mod_eq_of_lt (by omega)]

theorem ofHex?_eight (h : [r, r', g, g', b, b', a, a'].all isHexDigit) :
    (ofHex? [r, r', g, g', b, b', a, a']).map toNat =
      some (ofHexDigits [r, r', g, g', b, b', a, a']) := by
  rw [ofHex?, if_pos h, Option.map_some, toNat]
  simp only [List.all_cons, List.all_nil, Bool.and_true, Bool.and_eq_true] at h
  obtain ⟨hr, hr', hg, hg', hb, hb', ha, ha'⟩ := h
  simp only [toNat_hexByte, *, ofHexDigits, List.foldl_cons, List.foldl_nil]
  congr 1
  omega

theorem ofHex?_six :
    ofHex? [r, r', g, g', b, b'] = ofHex? ([r, r', g, g', b, b'] ++ ['f', 'f']) := by
  have hall : ([r, r', g, g', b, b'] ++ ['f', 'f']).all isHexDigit =
      [r, r', g, g', b, b'].all isHexDigit := by
    rw [List.all_append, (by decide : ['f', 'f'].all isHexDigit = true), Bool.and_true]
  unfold ofHex?
  rw [hall]
  rfl

theorem ofHex?_doubled {digits : List Char} (h : digits.length = 3 ∨ digits.length = 4) :
    ofHex? digits = ofHex? (digits.flatMap fun d => [d, d]) := by
  have hall : (digits.flatMap fun d => [d, d]).all isHexDigit = digits.all isHexDigit := by
    simp [List.all_flatMap]
  have hshape : HexShape digits := hexShape_of_length (by rcases h with h | h <;> simp [h])
  cases hshape with
  | three r g b | four r g b a =>
    unfold ofHex?
    rw [hall]
    rfl
  | six | eight => simp at h

theorem div_byte (byte : UInt8) :
    (Number.integer byte.toNat).div 255 = .ok (.double (byteFraction byte)) := by
  have hquotient : Double.nearest (decide ((byte.toNat : Int) < 0) != decide ((255 : Int) < 0))
      ((byte.toNat : Int) / (255 : Int) : ℚ) = byteFraction byte := by
    rw [byteFraction, Double.ofRat_of_nonneg (byteFraction_bounds byte).1,
      decide_eq_false (by omega : ¬ (byte.toNat : Int) < 0)]
    push_cast
    rfl
  have hfinite := (isUnit_byteFraction byte).finite
  rw [← hquotient] at hfinite ⊢
  exact if_pos hfinite

theorem pack_pairs (hr : [r, r'].all isHexDigit) (hg : [g, g'].all isHexDigit)
    (hb : [b, b'].all isHexDigit) (ha : [a, a'].all isHexDigit) : (do
      return some (← pack (.integer (ofHexDigits [r, r'])) (.integer (ofHexDigits [g, g']))
        (.integer (ofHexDigits [b, b'])) (← (Number.integer (ofHexDigits [a, a'])).div 255))) =
      (.ok (ofHex? [r, r', g, g', b, b', a, a']) : Computed (Option Color)) := by
  have hall : [r, r', g, g', b, b', a, a'].all isHexDigit := by
    simp only [List.all_cons, List.all_nil, Bool.and_true, Bool.and_eq_true] at hr hg hb ha ⊢
    exact ⟨hr.1, hr.2, hg.1, hg.2, hb.1, hb.2, ha⟩
  have hbyte {high low : Char} (h : [high, low].all isHexDigit) : ofHexDigits [high, low] =
      (UInt8.ofNat (16 * hexValue high + hexValue low)).toNat := by
    simp only [List.all_cons, List.all_nil, Bool.and_true, Bool.and_eq_true] at h
    rw [ofHexDigits_pair, toNat_hexByte h.1 h.2]
  have hpack (c : Color) := pack_bytes c (alphaByte_byteFraction c.alpha)
  rw [ofHex?, if_pos hall, hbyte hr, hbyte hg, hbyte hb, hbyte ha, div_byte]
  show (do return some (← pack _ _ _ _)) = _
  rw [hpack ⟨_, _, _, _⟩]
  rfl

theorem packHex?_eq (digits : List Char) : packHex? digits = .ok (ofHex? digits) := by
  by_cases h : IsHexColor digits
  · have hall := all_isHexDigit_iff.2 h.hex
    rw [packHex?, if_pos hall]
    have hpair {high low : Char} (hhigh : isHexDigit high) (hlow : isHexDigit low) :
        [high, low].all isHexDigit := by simp [hhigh, hlow]
    have hff : ['f', 'f'].all isHexDigit := by decide
    cases hexShape_of_length h.length with
    | three r g b =>
      rw [ofHex?_doubled (.inl rfl)]
      simp only [List.all_cons, List.all_nil, Bool.and_true, Bool.and_eq_true] at hall
      obtain ⟨hr, hg, hb⟩ := hall
      exact (pack_pairs (hpair hr hr) (hpair hg hg) (hpair hb hb) hff).trans
        (congrArg Except.ok ofHex?_six.symm)
    | four r g b a =>
      rw [ofHex?_doubled (.inr rfl)]
      simp only [List.all_cons, List.all_nil, Bool.and_true, Bool.and_eq_true] at hall
      obtain ⟨hr, hg, hb, ha⟩ := hall
      exact pack_pairs (hpair hr hr) (hpair hg hg) (hpair hb hb) (hpair ha ha)
    | six r r' g g' b b' =>
      rw [ofHex?_six]
      simp only [List.all_cons, List.all_nil, Bool.and_true, Bool.and_eq_true] at hall
      obtain ⟨hr, hr', hg, hg', hb, hb'⟩ := hall
      exact pack_pairs (hpair hr hr') (hpair hg hg') (hpair hb hb') hff
    | eight r r' g g' b b' a a' =>
      simp only [List.all_cons, List.all_nil, Bool.and_true, Bool.and_eq_true] at hall
      obtain ⟨hr, hr', hg, hg', hb, hb', ha, ha'⟩ := hall
      exact pack_pairs (hpair hr hr') (hpair hg hg') (hpair hb hb') (hpair ha ha')
  · have hnone : (if digits.all isHexDigit then hexPairs? digits else none) = none := by
      split
      · next hall =>
        have hlength : digits.length ∉ [3, 4, 6, 8] := fun hlength =>
          h ⟨all_isHexDigit_iff.1 hall, hlength⟩
        simp only [List.mem_cons, List.not_mem_nil, or_false, not_or] at hlength
        rw [hexPairs?, if_neg (by omega), if_neg (by omega)]
      · rfl
    rw [ofHex?_eq_none h, packHex?, hnone]

end

section

variable {digits : List Char}

theorem lexesTo_hash (hne : digits ≠ []) (h : digits.all isIdent) : LexesTo ('#' :: digits)
    [⟨.hash (String.ofList digits) (Lexer.startsName digits), String.ofList ('#' :: digits)⟩] := by
  have hname : Lexer.name digits = ⟨digits, [], []⟩ := by
    simpa using Lexer.name_letters digits [] h fun c hc => by simp at hc
  have hstarts : digits.head?.any isIdent := by
    cases digits with
    | nil => exact absurd rfl hne
    | cons d digits =>
      rw [List.all_cons, Bool.and_eq_true] at h
      exact h.1
  have htoken : Lexer.token false '#' (digits ++ []) =
      ⟨.ok (.hash (String.ofList digits) (Lexer.startsName digits)), [], []⟩ := by
    rw [List.append_nil]
    show (if digits.head?.any isIdent || Lexer.startsEscape digits then _ else _) = _
    rw [hstarts, Bool.true_or, if_pos rfl, hname]
    rfl
  have hlex := LexesTo.append '#' digits [] (by decide) htoken .nil
  rwa [List.append_nil] at hlex

theorem lexText_hash (hne : digits ≠ []) (h : digits.all isHexDigit) :
    lexText (String.ofList ('#' :: digits)) = .ofTokens
      [⟨.hash (String.ofList digits) (Lexer.startsName digits), String.ofList ('#' :: digits)⟩] := by
  have hident : ∀ d ∈ digits, isIdent d := fun d hd =>
    Lexer.isIdent_of_isHexDigit (List.all_eq_true.1 h d hd)
  apply lexText_of_lexesTo
  · rw [List.all_cons, Bool.and_eq_true]
    exact ⟨by decide, List.all_eq_true.2 fun d hd => isPlain_of_isIdent (hident d hd)⟩
  · exact lexesTo_hash hne (List.all_eq_true.2 hident)

variable {hash source : String} {named : Bool} {c : Color}

/-- The color of a hash token is the one that its digits are read as, if there is one. -/
theorem ofValue_hash_some (h : ofHex? hash.toList = some c) :
    ofValue (.token ⟨.hash hash named, source⟩) = pure c := by
  unfold ofValue ofPlain
  dsimp only [ComponentValue.kind?]
  rw [h]

theorem ofValue_hash_none (h : ofHex? hash.toList = none) :
    ofValue (.token ⟨.hash hash named, source⟩) =
      ⟨[.report (.invalidHexColor hash)], .ok transparent⟩ := by
  unfold ofValue ofPlain
  dsimp only [ComponentValue.kind?]
  rw [h]
  rfl

theorem run_value_hash : TokenStream.value.run (.ofTokens [⟨.hash hash named, source⟩]) =
    pure (.token ⟨.hash hash named, source⟩) := rfl

theorem ofText_hash (hne : digits ≠ []) (h : digits.all isHexDigit)
    (hcolor : ofHex? digits = some c) : ofText (String.ofList ('#' :: digits)) = pure c := by
  rw [ofText, lexText_hash hne h, readAll_ofTokens, pure_bind, run_value_hash, pure_bind]
  exact ofValue_hash_some (by rwa [String.toList_ofList])

end

theorem toNat_injective : Function.Injective toNat := by
  intro c d h
  rw [← ofInt_toNat c, h, ofInt_toNat]

theorem ofHex?_of_length_eight {digits : List Char} (h : IsHexColor digits)
    (hlength : digits.length = 8) : (ofHex? digits).map toNat = some (hexNumber digits) := by
  have hall := all_isHexDigit_iff.2 h.hex
  rw [← ofHexDigits_eq_hexNumber h.hex]
  cases hexShape_of_length h.length with
  | three | four | six => simp at hlength
  | eight => exact ofHex?_eight hall

theorem ofHex?_of_length_six {digits : List Char} (h : IsHexColor digits)
    (hlength : digits.length = 6) :
    (ofHex? digits).map toNat = some (hexNumber (digits ++ ['f', 'f'])) := by
  have hopaque : IsHexColor (digits ++ ['f', 'f']) := by
    refine ⟨fun d hd => ?_, by simp [hlength]⟩
    rcases List.mem_append.1 hd with hd | hd
    · exact h.hex d hd
    · rw [List.eq_of_mem_replicate (n := 2) hd]
      decide
  rw [← ofHex?_of_length_eight hopaque (by simp [hlength])]
  cases hexShape_of_length h.length with
  | three | four | eight => simp at hlength
  | six => rw [ofHex?_six]

theorem ofHex?_eq_none_iff {digits : List Char} : ofHex? digits = none ↔ ¬ IsHexColor digits := by
  refine ⟨fun hnone h => ?_, ofHex?_eq_none⟩
  have hall := all_isHexDigit_iff.2 h.hex
  unfold ofHex? at hnone
  rw [if_pos hall] at hnone
  cases hexShape_of_length h.length <;> cases hnone

theorem ofText_hexColor {digits : List Char} {c : Color} (h : IsHexColor digits)
    (hlength : digits.length = 8) (hnumber : hexNumber digits = c.toNat) :
    ofText (String.ofList ('#' :: digits)) = pure c ∧
      (lexText (String.ofList ('#' :: digits))).allReports = [] := by
  have hne : digits ≠ [] := by
    rintro rfl
    cases hlength
  have hall := all_isHexDigit_iff.2 h.hex
  obtain ⟨d, hd, hcolor⟩ := Option.map_eq_some_iff.1 (ofHex?_of_length_eight h hlength)
  rw [hnumber] at hcolor
  refine ⟨ofText_hash hne hall (by rw [hd, toNat_injective hcolor]), ?_⟩
  rw [lexText_hash hne hall, allReports_ofTokens]

theorem isHexColor_hexDigits (n : Nat) : IsHexColor (hexDigits 8 n) :=
  ⟨fun _ hd => mem_hexAlphabet_of_mem_hexDigits hd, by simp [length_hexDigits]⟩

/-- Hex colors are read exactly. Digits are a color if they are three, four, six or eight
hexadecimal ones, and then that of the number they denote, opaque if nothing else is said, or with
every digit doubled; that the alpha becomes a fraction on the way changes nothing. A text of the
eight digits of a color, in either case, is that color without a report, and a hash token of other
characters is transparent with a single one. -/
theorem hex_read_exactly :
    (∀ digits, ofHex? digits = none ↔ ¬ IsHexColor digits) ∧
    (∀ digits, packHex? digits = .ok (ofHex? digits)) ∧
    (∀ digits, IsHexColor digits → digits.length = 8 →
      (ofHex? digits).map toNat = some (hexNumber digits)) ∧
    (∀ digits, IsHexColor digits → digits.length = 6 →
      (ofHex? digits).map toNat = some (hexNumber (digits ++ ['f', 'f']))) ∧
    (∀ digits, digits.length = 3 ∨ digits.length = 4 →
      ofHex? digits = ofHex? (digits.flatMap fun d => [d, d])) ∧
    (∀ c : Color, IsHexColor (hexDigits 8 c.toNat) ∧ (hexDigits 8 c.toNat).length = 8 ∧
      hexNumber (hexDigits 8 c.toNat) = c.toNat) ∧
    (∀ (c : Color) (digits : List Char), IsHexColor digits → digits.length = 8 →
      hexNumber digits = c.toNat → ofText (String.ofList ('#' :: digits)) = pure c ∧
        (lexText (String.ofList ('#' :: digits))).allReports = []) ∧
    (∀ (hash source : String) (named : Bool), ¬ IsHexColor hash.toList →
      ofValue (.token ⟨.hash hash named, source⟩) =
        ⟨[.report (.invalidHexColor hash)], .ok ⟨0, 0, 0, 0⟩⟩) := by
  refine ⟨fun _ => ofHex?_eq_none_iff, packHex?_eq, fun _ => ofHex?_of_length_eight,
    fun _ => ofHex?_of_length_six, fun _ => ofHex?_doubled, fun c => ?_,
    fun _ _ => ofText_hexColor, fun _ _ _ h => ofValue_hash_none (ofHex?_eq_none h)⟩
  have hlt : c.toNat < 16 ^ 8 := c.toNat_lt
  exact ⟨isHexColor_hexDigits _, length_hexDigits 8 _,
    by rw [hexNumber_hexDigits, Nat.mod_eq_of_lt hlt]⟩

/-- Digits that look like an exponent, and digits that are no color. -/
theorem hex_read_exactly_exponent :
    (ofText "#1E312345").result.map toNat = .ok 0x1e312345 ∧
    ofValue (.token ⟨.hash "1e31234" false, "#1e31234"⟩) =
      ⟨[.report (.invalidHexColor "1e31234")], .ok ⟨0, 0, 0, 0⟩⟩ := by
  obtain ⟨-, -, -, -, -, -, htext, hinvalid⟩ := hex_read_exactly
  have hdigits : IsHexColor "1E312345".toList := ⟨all_isHexDigit_iff.1 (by decide), by decide⟩
  have hcolor := (htext (ofInt 0x1e312345) _ hdigits (by decide) (by decide)).1
  refine ⟨?_, hinvalid _ _ _ fun h => absurd h.length (by decide)⟩
  have hsource : String.ofList ('#' :: "1E312345".toList) = "#1E312345" := by decide
  rw [hsource] at hcolor
  rw [hcolor]
  decide

end Color

end StyleValue
