import StyleValue.Failure
import StyleValue.Proofs.Component.Flat
import StyleValue.Proofs.Failure
import StyleValue.Proofs.Numeric.Significant

/-!
# What messages show

A message shows a value with all numbers in it, and an integer of more than 4300 digits is not
written. A refusal is a rejection if all that it shows is short enough for that, and otherwise it
fails with the text that cannot be made.
-/

set_option autoImplicit false

namespace StyleValue

open ComponentValue

def TokenKind.OfNumber (property : Number → Prop) : TokenKind → Prop
  | .number n | .percentage n | .dimension n _ => property n
  | _ => True

instance (property : Number → Prop) [hproperty : DecidablePred property] :
    (kind : TokenKind) → Decidable (kind.OfNumber property)
  | .number n | .percentage n | .dimension n _ => hproperty n
  | .ident _ | .function _ | .atKeyword _ | .hash .. | .string _ | .badString | .url _ | .badUrl
  | .delim _ | .unicodeRange .. | .whitespace | .commentOpen | .commentClose | .colon | .semicolon
  | .comma | .column | .includeMatch | .dashMatch | .prefixMatch | .suffixMatch | .substringMatch
  | .opening _ | .closing _ => instDecidableTrue

theorem TokenKind.OfNumber.mono {property weaker : Number → Prop} {kind : TokenKind}
    (h : kind.OfNumber property) (hweaker : ∀ n, property n → weaker n) : kind.OfNumber weaker := by
  cases kind with
  | number n | percentage n | dimension n => exact hweaker n h
  | _ => trivial

def ComponentValue.OfNumbers (property : Number → Prop) (v : ComponentValue) : Prop :=
  ∀ t ∈ flat v, t.kind.OfNumber property

instance (property : Number → Prop) [DecidablePred property] (v : ComponentValue) :
    Decidable (v.OfNumbers property) :=
  inferInstanceAs (Decidable (∀ t ∈ flat v, t.kind.OfNumber property))

namespace ComponentValue

variable {property : Number → Prop}

theorem forall_mem_flatList (values : List ComponentValue) :
    (∀ t ∈ flatList values, t.kind.OfNumber property) ↔ ∀ v ∈ values, v.OfNumbers property := by
  induction values with
  | nil => simp [flatList]
  | cons v vs ih =>
    rw [flatList, List.forall_mem_append, List.forall_mem_cons, ih]
    rfl

theorem ofNumbers_token (t : Token) :
    (ComponentValue.token t).OfNumbers property ↔ t.kind.OfNumber property :=
  List.forall_mem_singleton

theorem ofNumbers_function (name openSource closeSource : String) (values : List ComponentValue) :
    (ComponentValue.function name openSource values closeSource).OfNumbers property ↔
      ∀ v ∈ values, v.OfNumbers property := by
  rw [OfNumbers, flat, List.forall_mem_cons, List.forall_mem_append, List.forall_mem_singleton,
    forall_mem_flatList]
  exact ⟨fun h => h.2.1, fun h => ⟨trivial, h, trivial⟩⟩

theorem ofNumbers_block (bracket : Bracket) (openSource closeSource : String)
    (values : List ComponentValue) :
    (ComponentValue.block bracket openSource values closeSource).OfNumbers property ↔
      ∀ v ∈ values, v.OfNumbers property := by
  rw [OfNumbers, flat, List.forall_mem_cons, List.forall_mem_append, List.forall_mem_singleton,
    forall_mem_flatList]
  exact ⟨fun h => h.2.1, fun h => ⟨trivial, h, trivial⟩⟩

end ComponentValue

def Number.IsShort : Number → Prop
  | .integer n => digitCount n.natAbs ≤ digitLimit
  | .double _ => True

instance : DecidablePred Number.IsShort
  | .integer n => inferInstanceAs (Decidable (digitCount n.natAbs ≤ digitLimit))
  | .double _ => instDecidableTrue

theorem Number.isShort_integer {n : Int} :
    (Number.integer n).IsShort ↔ n.natAbs < 10 ^ digitLimit :=
  digitCount_le_iff (by decide)

theorem Number.not_isShort_tenPow : ¬ (Number.integer (10 ^ digitLimit)).IsShort := by
  simp [isShort_integer, Int.natAbs_pow]

def Shows {α : Type} (short : Prop) : Computed α → Prop :=
  Meets (fun fault => fault = .tooLong ∧ ¬ short) fun _ => short

namespace Shows

variable {α β : Type} {short short' : Prop} {x : Computed α}

theorem congr (h : Shows short x) (hshort : short ↔ short') : Shows short' x := propext hshort ▸ h

theorem bind {f : α → Computed β} (hx : Shows short x) (hf : ∀ a, Shows short' (f a)) :
    Shows (short ∧ short') (x >>= f) := by
  cases x with
  | ok a => exact (hf a).mono (fun _ h => ⟨h.1, fun hboth => h.2 hboth.2⟩) fun _ h => ⟨hx, h⟩
  | error fault => exact ⟨hx.1, fun hboth => hx.2 hboth.1⟩

theorem map (hx : Shows short x) (f : α → β) : Shows short (x >>= fun a => pure (f a)) :=
  Meets.bind hx fun _ h => h

end Shows

theorem Number.text_shows (n : Number) : Shows n.IsShort n.text := by
  cases n with
  | double x => trivial
  | integer n =>
    rw [text]
    split
    next hshort => exact hshort
    next hlong => exact ⟨rfl, hlong⟩

theorem TokenKind.describe_shows (kind : TokenKind) :
    Shows (kind.OfNumber Number.IsShort) kind.describe := by
  cases kind with
  | number n | percentage n | dimension n => exact n.text_shows.map _
  | _ => trivial

namespace ComponentValue

mutual

theorem describe_shows : (v : ComponentValue) → Shows (v.OfNumbers Number.IsShort) (describe v)
  | .token t => by
    rw [describe]
    exact t.kind.describe_shows.congr (ofNumbers_token t).symm
  | .function name openSource values closeSource => by
    rw [describe]
    exact ((describeList_shows values).map _).congr (ofNumbers_function ..).symm
  | .block bracket openSource values closeSource => by
    rw [describe]
    exact ((describeList_shows values).map _).congr (ofNumbers_block ..).symm

theorem describeList_shows : (vs : List ComponentValue) →
    Shows (∀ v ∈ vs, v.OfNumbers Number.IsShort) (describeList vs)
  | [] => by
    rw [describeList]
    exact List.forall_mem_nil _
  | [v] => by
    rw [describeList]
    exact ((describe_shows v).map _).congr List.forall_mem_singleton.symm
  | [v, w] => by
    rw [describeList]
    exact ((describe_shows v).bind fun _ => (describe_shows w).map _).congr (by simp)
  | v :: w :: u :: vs => by
    rw [describeList]
    exact ((describe_shows v).bind fun _ => (describeList_shows (w :: u :: vs)).map _).congr
      List.forall_mem_cons.symm

end

theorem mapM_describe_shows (vs : List ComponentValue) :
    Shows (∀ v ∈ vs, v.OfNumbers Number.IsShort) (vs.mapM describe) := by
  induction vs with
  | nil => exact List.forall_mem_nil _
  | cons v vs ih =>
    rw [List.mapM_cons]
    exact ((describe_shows v).bind fun _ => ih.map _).congr List.forall_mem_cons.symm

end ComponentValue

def Reading.shown : Reading → List ComponentValue
  | .value v => [v]
  | .values vs => vs
  | .name _ => []

theorem Reading.describe_shows (r : Reading) :
    Shows (∀ v ∈ r.shown, v.OfNumbers Number.IsShort) r.describe := by
  cases r with
  | value v => exact v.describe_shows.congr List.forall_mem_singleton.symm
  | values vs => exact (mapM_describe_shows vs).map _
  | name s => exact List.forall_mem_nil _

namespace Rejection

def shown : Rejection → List ComponentValue
  | .notAnAngle v | .unexpectedInPosition v | .unexpectedInCalc v | .notANumber v | .notAHue v
  | .unsupportedSpace v | .unexpectedInRelative v | .unexpectedInShape v => [v]
  | .invalidZIndex r => r.shown
  | .noValue | .surplusValue | .emptyArgument | .unrecognizedSide _ | .positionTooLong
  | .calcUnfinished | .calcDivisionByZero | .relativeSyntax | .notOneAlpha | .tooManyComponents _
  | .wrongComponents _ _ | .noSpace | .noGradientType | .unsupportedParsing _ => []

def IsShort (cause : Rejection) : Prop := ∀ v ∈ cause.shown, v.OfNumbers Number.IsShort

instance (cause : Rejection) : Decidable cause.IsShort :=
  inferInstanceAs (Decidable (∀ v ∈ cause.shown, v.OfNumbers Number.IsShort))

theorem message_shows (cause : Rejection) : Shows cause.IsShort cause.message := by
  cases cause with
  | notAnAngle v | unexpectedInPosition v | unexpectedInCalc v | notANumber v | notAHue v
  | unsupportedSpace v | unexpectedInRelative v | unexpectedInShape v =>
    exact (v.describe_shows.map _).congr List.forall_mem_singleton.symm
  | invalidZIndex r => exact r.describe_shows.map _
  | _ => exact List.forall_mem_nil _

end Rejection

/-- A refusal is a rejection unless an integer that it shows is too long to be written. -/
theorem reject_eq {α : Type} (cause : Rejection) : (reject cause : Parsed α) =
    if cause.IsShort then .error (.rejected cause) else .error (.fault .tooLong) := by
  have hshows := cause.message_shows
  unfold reject
  cases hmessage : cause.message with
  | ok text =>
    rw [hmessage] at hshows
    exact (if_pos hshows).symm
  | error fault =>
    rw [hmessage] at hshows
    obtain ⟨rfl, hlong⟩ := hshows
    exact (if_neg hlong).symm

theorem reject_of_long {α : Type} {cause : Rejection} (h : ¬ cause.IsShort) :
    (reject cause : Parsed α) = .error (.fault .tooLong) :=
  (reject_eq cause).trans (if_neg h)

end StyleValue
