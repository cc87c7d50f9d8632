import StyleValue.Proofs.Component.Reporting
import StyleValue.Proofs.Text.Filter

/-!
# The form of the input

A text can be read as a whole, in chunks cut anywhere, from a list of its tokens, or from a stream
over it. What is made of it is the same, and so are the errors reported.
-/

set_option autoImplicit false

namespace StyleValue

variable {α : Type}

theorem lexChunks_eq_lexText (chunks : List String) :
    lexChunks false chunks = lexText (String.join chunks) := by
  rw [lexText, lexChunks, lexChunks, Filter.filterChunks_eq_run, Filter.filterChunks_eq_run]
  simp [List.flatMap_def]

namespace Tokenizer

inductive Operation
  | write (chunk : String)
  | read

def readings (t : Tokenizer) : List Operation → List (Outcome (List Token))
  | [] => []
  | .write chunk :: ops => (t.write chunk).readings ops
  | .read :: ops => t.read.1.readAll :: t.read.2.readings ops

def textsRead (text : String) : List Operation → List String
  | [] => []
  | .write chunk :: ops => textsRead (text ++ chunk) ops
  | .read :: ops => text :: textsRead "" ops

theorem readings_eq (t : Tokenizer) (ops : List Operation) :
    t.readings ops = (textsRead (String.join t.chunks) ops).map fun text => (lexText text).readAll := by
  induction ops generalizing t with
  | nil => rfl
  | cons op ops ih =>
    cases op with
    | write chunk => rw [readings, textsRead, ih, write, String.join_append]; simp
    | read => rw [readings, textsRead, List.map_cons, ih, read, lexChunks_eq_lexText]; rfl

end Tokenizer

namespace TokenStream

inductive ReadsFrom (chunks : List String) : TokenStream → Prop
  | text : ReadsFrom chunks (lexText (String.join chunks))
  | chunks : ReadsFrom chunks (lexChunks false chunks)
  | stream : ReadsFrom chunks (lexText (String.join chunks)).unreported
  | tokens {tokens : List Token} (h : (lexText (String.join chunks)).readAll.result = .ok tokens) :
    ReadsFrom chunks (.ofTokens tokens)

theorem unreported_unreported (s : TokenStream) : s.unreported.unreported = s.unreported := by
  simp [unreported, Function.comp_def]

theorem tokens_of_readAll {s : TokenStream} {tokens : List Token}
    (h : s.readAll.result = .ok tokens) : s.tokens = tokens := by
  unfold readAll at h
  dsimp only at h
  split at h
  · cases h
  · exact Except.ok.inj h

/-- A stream that no fault ends is, but for its errors, that of its tokens. -/
theorem unreported_ofTokens {s : TokenStream} {tokens : List Token}
    (h : s.readAll.result = .ok tokens) : (ofTokens tokens).unreported = s.unreported := by
  rcases s with ⟨pulls, reports, _ | fault⟩
  · obtain rfl : pulls.map Pull.token = tokens := Except.ok.inj h
    simp [unreported, ofTokens, Function.comp_def]
  · cases h

theorem ReadsFrom.unreported_eq {chunks : List String} {s : TokenStream} (h : ReadsFrom chunks s) :
    s.unreported = (lexText (String.join chunks)).unreported := by
  cases h with
  | text => rfl
  | chunks => rw [lexChunks_eq_lexText]
  | stream => exact unreported_unreported _
  | tokens h => exact unreported_ofTokens h

/-- Parsers that do not mind errors make the same of a text in whatever form it comes. -/
theorem ReadsFrom.result_eq {p : StreamParser α} (hp : ∀ s, p.Relays s) {chunks : List String}
    {s t : TokenStream} (hs : ReadsFrom chunks s) (ht : ReadsFrom chunks t) :
    (p.run s).result = (p.run t).result := by
  rw [← (hp s).result_run, ← (hp t).result_run, hs.unreported_eq, ht.unreported_eq]

/-- A text may be cut anywhere, and be read before it is parsed or while it is: what is made of it
is the same. All errors of the text are reported while it is parsed, but for those behind a surplus
value. A tokenizer gives the tokens and the errors of what was written since it was last read. -/
theorem input_form_unobservable (chunks : List String) :
    (∀ s t, ReadsFrom chunks s → ReadsFrom chunks t →
      (value.run s).result = (value.run t).result ∧
      (values.run s).result = (values.run t).result ∧
      (commaSeparated.run s).result = (commaSeparated.run t).result) ∧
    (∀ s errors, s = lexText (String.join chunks) ∨ s = lexChunks false chunks →
      errors = lexicalErrors (lexText (String.join chunks)).readAll.events →
      lexicalErrors (values.run s).events = errors ∧
      lexicalErrors (commaSeparated.run s).events = errors ∧
      lexicalErrors (value.run s).events <+: errors ∧
      ((value.run s).result ≠ reject .surplusValue → lexicalErrors (value.run s).events = errors)) ∧
    ∀ ops, Tokenizer.readings {} ops =
      (Tokenizer.textsRead "" ops).map fun text => (lexText text).readAll := by
  refine ⟨?_, ?_, Tokenizer.readings_eq {}⟩
  · intro s t hs ht
    exact ⟨hs.result_eq value_relays ht, hs.result_eq (valuesUntil_relays _) ht,
      hs.result_eq commaSeparated_relays ht⟩
  · rw [lexChunks_eq_lexText]
    rintro s _ hs rfl
    obtain rfl : s = lexText (String.join chunks) := hs.elim id id
    generalize lexText (String.join chunks) = s
    rw [readAll, lexicalErrors_lexicalEvents]
    refine ⟨?_, ?_, (value_relays s).errors_before, ?_⟩
    · exact (valuesUntil_relays _ s).errors_run (values_leaves s) fun _ => False.elim
    · exact (commaSeparated_relays s).errors_run (commaSeparated_leaves s) fun _ => False.elim
    · intro hresult
      apply (value_relays s).errors_run (value_leaves s)
      rintro _ rfl
      exact hresult

end TokenStream

end StyleValue
