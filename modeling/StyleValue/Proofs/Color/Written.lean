import Mathlib.Algebra.Group.Int.Defs
import StyleValue.Color.Parser
import StyleValue.Context
import StyleValue.Proofs.Color.AlphaByte
import StyleValue.Proofs.Token.Comma
import StyleValue.Proofs.Token.Spelled

/-!
# Colors read back

The text of a color is cut into the tokens that it was written as, and these are the color again: a
channel is the integer that its digits denote, the alpha of a byte is read as the double that was
written, and that double is packed to the byte.
-/

set_option autoImplicit false

namespace StyleValue

def LexesTo (text : List Char) (tokens : List Token) : Prop :=
  lex false (points text) = .ofTokens tokens

namespace LexesTo

variable {kind : TokenKind} {tokens : List Token}

theorem nil : LexesTo [] [] := lex_nil

theorem append (c : Char) (front rest : List Char) (hslash : c ≠ '/')
    (h : Lexer.token false c (front ++ rest) = ⟨.ok kind, rest, []⟩) (hrest : LexesTo rest tokens) :
    LexesTo (c :: front ++ rest) (⟨kind, String.ofList (c :: front)⟩ :: tokens) := by
  have hscan : scanPoints false ⟨c, [c]⟩ (points front ++ points rest) =
      ⟨.ok kind, (points rest).map CodePoint.char, []⟩ := by
    rw [scanPoints, List.map_append, map_char_points, map_char_points]
    exact h
  have hpoints : points (c :: front ++ rest) = ⟨c, [c]⟩ :: (points front ++ points rest) := by
    simp [points]
  rw [LexesTo, hpoints, lex_first hslash hscan, hrest,
    show ⟨c, [c]⟩ :: points front = points (c :: front) from rfl, sources_points]
  rfl

theorem comma {rest : List Char} (hrest : LexesTo rest tokens) :
    LexesTo (',' :: rest) (⟨.comma, ","⟩ :: tokens) :=
  append ',' [] rest (by decide) (Lexer.token_comma false rest) hrest

theorem close : LexesTo [')'] [⟨.closing .parenthesis, ")"⟩] :=
  append ')' [] [] (by decide) rfl nil

end LexesTo

theorem LexesTo.number {text rest : List Char} {tokens : List Token} {x : Number}
    (h : Denotes text x) (hdividing : Lexer.Dividing rest) (hrest : LexesTo rest tokens) :
    LexesTo (text ++ rest) (⟨.number x, String.ofList text⟩ :: tokens) := by
  obtain ⟨c, front, rfl⟩ := List.exists_cons_of_ne_nil h.ne_nil
  have htoken := h.token
  refine append c front rest h.ne_slash ?_ hrest
  rw [Lexer.token_extend hdividing.inert hdividing.mark (by rw [htoken]) (by simp [htoken]), htoken]
  rfl

theorem LexesTo.function (letters : List Char) {rest : List Char} {tokens : List Token}
    (hletters : letters.all isIdent) (hurl : lowercase (String.ofList ('r' :: letters)) ≠ "url")
    (hrest : LexesTo rest tokens) :
    LexesTo ('r' :: (letters ++ ['(']) ++ rest) (⟨.function (String.ofList ('r' :: letters)),
      String.ofList ('r' :: (letters ++ ['(']))⟩ :: tokens) := by
  have hname : Lexer.name ('r' :: letters ++ '(' :: rest) = ⟨'r' :: letters, '(' :: rest, []⟩ := by
    apply Lexer.name_letters
    · rw [List.all_cons, hletters]
      decide
    · intro c hc
      obtain rfl : '(' = c := by simpa using hc
      decide
  have htoken : Lexer.token false 'r' (letters ++ ['('] ++ rest) =
      (Lexer.identLike ('r' :: letters ++ '(' :: rest)).map .ok := by
    rw [List.append_assoc]
    rfl
  refine append 'r' (letters ++ ['(']) rest (by decide) ?_ hrest
  rw [htoken, Lexer.identLike_function hname, if_neg hurl]
  rfl

theorem eq_ok_of_toOption {α : Type} {x : Computed α} {a : α} (h : x.toOption = some a) :
    x = .ok a := by
  cases x with
  | ok b => rw [Option.some.inj h]
  | error fault => cases h

theorem Double.text_of_isFinite {x : Double} (h : x.isFinite) :
    x.text = String.ofList x.shortest.text := by
  cases x with
  | finite => rfl
  | infinite | notANumber => cases h

namespace Color

theorem alphaByte_one : alphaByte 1 = .ok 255 := eq_ok_of_toOption (by decide +kernel)

theorem not_unpackAlpha_lt_one : (Number.double (unpackAlpha 255)).lt 1 = false := by
  decide +kernel

theorem denotes_byte (b : UInt8) : Denotes (Nat.toDigits 10 b.toNat) (.integer b.toNat) :=
  denotes_digitsOf (b.toNat_lt.trans (by norm_num))

theorem denotes_unpackAlpha (b : UInt8) :
    Denotes (unpackAlpha b).shortest.text (.double (unpackAlpha b)) :=
  denotes_shortest (isUnit_unpackAlpha b).finite

theorem channelByte_byte (b : UInt8) : channelByte (.integer b.toNat) = .ok b := by
  have hle : b.toNat ≤ 255 := Nat.le_of_lt_succ b.toNat_lt
  have hvalue : (Number.integer b.toNat).value = (b.toNat : ℚ) := Int.cast_natCast _
  have hwithin : (Number.integer b.toNat).Within 255 := by
    show |(Number.integer b.toNat).value| ≤ 255
    rw [hvalue, Nat.abs_cast]
    exact_mod_cast hle
  obtain ⟨byte, hbyte, hfloor⟩ := exists_channelByte hwithin (Number.lt_limit (by norm_num))
  rw [hvalue, limited_natCast hle, Int.floor_natCast] at hfloor
  obtain rfl : byte = b := UInt8.toNat_inj.1 (by exact_mod_cast hfloor)
  exact hbyte

def channelText (c : Color) : List Char :=
  Nat.toDigits 10 c.red.toNat ++ ',' :: (Nat.toDigits 10 c.green.toNat ++ ',' ::
    Nat.toDigits 10 c.blue.toNat)

def byteToken (b : UInt8) : Token :=
  ⟨.number (.integer b.toNat), String.ofList (Nat.toDigits 10 b.toNat)⟩

def commaToken : Token := ⟨.comma, ","⟩

def channelTokens (c : Color) : List Token :=
  [byteToken c.red, commaToken, byteToken c.green, commaToken, byteToken c.blue]

theorem dividing_cons {c : Char} (h : Lexer.isInert c) (hslash : c ≠ '/') (hmark : c ≠ '?')
    (text : List Char) : Lexer.Dividing (c :: text) :=
  ⟨(Lexer.inert_cons c text).2 h, by simpa using hslash, by simpa using hmark⟩

theorem lexesTo_channels (c : Color) {rest : List Char} {tokens : List Token}
    (hdividing : Lexer.Dividing rest) (hrest : LexesTo rest tokens) :
    LexesTo (c.channelText ++ rest) (c.channelTokens ++ tokens) := by
  have hcomma := dividing_cons (c := ',') (by decide) (by decide) (by decide)
  have hblue := hrest.number (denotes_byte c.blue) hdividing
  have hgreen := hblue.comma.number (denotes_byte c.green) (hcomma _)
  have hred := hgreen.comma.number (denotes_byte c.red) (hcomma _)
  simp only [channelText, List.append_assoc, List.cons_append]
  exact hred

theorem all_isPlain_channelText (c : Color) : c.channelText.all isPlain := by
  simp only [channelText, List.all_append, List.all_cons, Bool.and_eq_true]
  exact ⟨(denotes_byte c.red).all_isPlain, by decide, (denotes_byte c.green).all_isPlain, by decide,
    (denotes_byte c.blue).all_isPlain⟩

theorem toText_solid {c : Color} (h : c.alpha = 255) :
    c.toText = String.ofList ('r' :: ['g', 'b', '('] ++ (c.channelText ++ [')'])) := by
  rw [toText, h, not_unpackAlpha_lt_one]
  apply String.toList_injective
  simp [channelText]

theorem toText_translucent {c : Color} (h : c.alpha ≠ 255) :
    c.toText = String.ofList ('r' :: ['g', 'b', 'a', '('] ++ (c.channelText ++
      ',' :: ((unpackAlpha c.alpha).shortest.text ++ [')']))) := by
  rw [toText, unpackAlpha_lt_one h, Double.text_of_isFinite (isUnit_unpackAlpha c.alpha).finite]
  apply String.toList_injective
  simp [channelText]

theorem lexText_of_lexesTo {text : List Char} {tokens : List Token} (hplain : text.all isPlain)
    (h : LexesTo text tokens) : lexText (String.ofList text) = .ofTokens tokens := by
  rw [lexText, lexChunks, filter_points hplain]
  exact h

def closeToken : Token := ⟨.closing .parenthesis, ")"⟩

theorem lexText_solid {c : Color} (h : c.alpha = 255) :
    lexText c.toText =
      .ofTokens (⟨.function "rgb", "rgb("⟩ :: (c.channelTokens ++ [closeToken])) := by
  rw [toText_solid h]
  apply lexText_of_lexesTo
  · rw [List.all_append, List.all_append, all_isPlain_channelText]
    decide
  · apply LexesTo.function ['g', 'b'] (by decide) (by decide)
    exact lexesTo_channels c (dividing_cons (by decide) (by decide) (by decide) _) .close

theorem lexText_translucent {c : Color} (h : c.alpha ≠ 255) :
    ∃ source, lexText c.toText = .ofTokens (⟨.function "rgba", "rgba("⟩ ::
      (c.channelTokens ++ [commaToken, ⟨.number (.double (unpackAlpha c.alpha)), source⟩] ++
        [closeToken])) := by
  have halpha := denotes_unpackAlpha c.alpha
  refine ⟨String.ofList (unpackAlpha c.alpha).shortest.text, ?_⟩
  rw [toText_translucent h]
  apply lexText_of_lexesTo
  · simp only [List.all_append, List.all_cons, all_isPlain_channelText, halpha.all_isPlain]
    decide
  · apply LexesTo.function ['g', 'b', 'a'] (by decide) (by decide)
    apply lexesTo_channels c (dividing_cons (by decide) (by decide) (by decide) _)
    apply LexesTo.comma
    exact LexesTo.number halpha (dividing_cons (by decide) (by decide) (by decide) _) .close

theorem allReports_ofTokens (tokens : List Token) :
    (TokenStream.ofTokens tokens).allReports = [] := by
  simp [TokenStream.allReports, TokenStream.ofTokens]

theorem readAll_ofTokens (tokens : List Token) :
    (TokenStream.ofTokens tokens).readAll = pure tokens := by
  rw [TokenStream.readAll, allReports_ofTokens, TokenStream.tokens_ofTokens]
  rfl

theorem pack_bytes (c : Color) {alpha : Number} (h : alphaByte alpha = .ok c.alpha) :
    pack (.integer c.red.toNat) (.integer c.green.toNat) (.integer c.blue.toNat) alpha = .ok c := by
  rw [pack, channelByte_byte, channelByte_byte, channelByte_byte, h]
  rfl

/-- The color of the function that the tokens of three bytes and an alpha make. -/
theorem ofText_rgb {text name openSource : String} {tokens : List Token} {c : Color}
    {alpha : Number} (hname : ChannelFunction.ofName? (lowercase name) = some .rgb)
    (halpha : alphaByte alpha = .ok c.alpha)
    (hlex : lexText text = .ofTokens (⟨.function name, openSource⟩ :: (tokens ++ [closeToken])))
    (hvalue : TokenStream.value.run
      (.ofTokens (⟨.function name, openSource⟩ :: (tokens ++ [closeToken]))) =
        pure (.function name openSource (tokens.map .token) ")"))
    (hchannels : ChannelFunction.rgb.extract (tokens.map .token) =
      .ok ⟨⟨.integer c.red.toNat, .integer c.green.toNat, .integer c.blue.toNat⟩, some alpha⟩) :
    ofText text = pure c := by
  rw [ofText, hlex, readAll_ofTokens, pure_bind, hvalue, pure_bind, ofValue, hname]
  dsimp only
  rw [hchannels]
  show Outcome.ofParsed (pack _ _ _ alpha).parsed = pure c
  rw [pack_bytes c halpha]
  rfl

theorem ofText_toText_eq (c : Color) : ofText c.toText = pure c := by
  by_cases h : c.alpha = 255
  · have halpha : alphaByte 1 = .ok c.alpha := by
      rw [h, alphaByte_one]
    exact ofText_rgb (by decide) halpha (lexText_solid h) rfl rfl
  · obtain ⟨source, hlex⟩ := lexText_translucent h
    exact ofText_rgb (by decide) (alphaByte_unpackAlpha c.alpha) hlex rfl rfl

theorem allReports_lexText_toText (c : Color) : (lexText c.toText).allReports = [] := by
  by_cases h : c.alpha = 255
  · rw [lexText_solid h, allReports_ofTokens]
  · obtain ⟨source, hlex⟩ := lexText_translucent h
    rw [hlex, allReports_ofTokens]

theorem toNat_byte (n : Int) : ((UInt8.ofNat (n % 256).toNat).toNat : Int) = n % 256 := by
  rw [UInt8.toNat_ofNat']
  omega

theorem toNat_ofInt {packed : Int} (hlow : 0 ≤ packed) (hhigh : packed < 2 ^ 32) :
    ((ofInt packed).toNat : Int) = packed := by
  simp only [toNat, ofInt, Int.natCast_add, Int.natCast_mul, toNat_byte, Int.cast_ofNat_Int]
  omega

/-- The text of a packed color is the color again, without an error in the text, and nothing is
logged whatever the logger. -/
theorem ofText_toText (packed : Int) (hlow : 0 ≤ packed) (hhigh : packed < 2 ^ 32) :
    (ofText (ofInt packed).toText).result.map (fun c => (c.toNat : Int)) = .ok packed ∧
    (∀ logger : Logger, logger.records (ofText (ofInt packed).toText) = []) ∧
    (lexText (ofInt packed).toText).allReports = [] := by
  refine ⟨?_, ?_, allReports_lexText_toText _⟩
  · rw [ofText_toText_eq]
    exact congrArg Except.ok (toNat_ofInt hlow hhigh)
  · intro logger
    rw [ofText_toText_eq]
    rfl

/-- A color whose alpha needs three decimals. -/
theorem ofText_toText_faint :
    (ofInt 0xff0100fe).toText = "rgba(255,1,0,0.996)" ∧
    (ofText (ofInt 0xff0100fe).toText).result.map (fun c => (c.toNat : Int)) = .ok 0xff0100fe :=
  ⟨by decide +kernel, (ofText_toText 0xff0100fe (by decide) (by decide)).1⟩

end Color

end StyleValue
