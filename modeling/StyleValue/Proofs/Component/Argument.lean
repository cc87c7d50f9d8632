import StyleValue.Component.Argument
import StyleValue.Proofs.Component.Entry

/-!
# Arguments and the commas between them

Commas cut values into parts, one more than there are commas. Each part but the last has to be an
argument; the last one need not be there, and then a comma ends the arguments. White space belongs
to no part.
-/

set_option autoImplicit false

namespace StyleValue

namespace Argument

def parts (vs : List ComponentValue) : List (List ComponentValue) :=
  (vs.splitOnP ComponentValue.isComma).map (List.filter fun v => !v.isWhitespace)

theorem parts_ne_nil (vs : List ComponentValue) : parts vs ≠ [] := by
  rw [parts, ne_eq, List.map_eq_nil_iff]
  exact List.splitOnP_ne_nil _ vs

theorem parts_comma {v : ComponentValue} (h : v.isComma) (vs : List ComponentValue) :
    parts (v :: vs) = [] :: parts vs := by
  rw [parts, List.splitOnP_cons_eq_if_modifyHead, if_pos h]
  rfl

theorem parts_space {v : ComponentValue} (h : v.isWhitespace) (hcomma : ¬ v.isComma)
    (vs : List ComponentValue) : parts (v :: vs) = parts vs := by
  rw [parts, List.splitOnP_cons_eq_if_modifyHead, if_neg hcomma, parts]
  cases vs.splitOnP ComponentValue.isComma <;> simp [h]

theorem parts_other {v : ComponentValue} (h : ¬ v.isWhitespace) (hcomma : ¬ v.isComma)
    (vs : List ComponentValue) : parts (v :: vs) = (parts vs).modifyHead (v :: ·) := by
  rw [parts, List.splitOnP_cons_eq_if_modifyHead, if_neg hcomma, parts]
  cases vs.splitOnP ComponentValue.isComma <;> simp [h]

def ofParts (parts : List (List ComponentValue)) : Parsed (List Argument) :=
  if [] ∈ parts.dropLast then reject .emptyArgument else .ok (parts.filterMap ofList?)

theorem ofParts_nil_cons {parts : List (List ComponentValue)} (h : parts ≠ []) :
    ofParts ([] :: parts) = reject .emptyArgument := by
  rw [ofParts, List.dropLast_cons_of_ne_nil h, if_pos List.mem_cons_self]

theorem ofParts_cons (v : ComponentValue) (vs : List ComponentValue)
    (parts : List (List ComponentValue)) :
    ofParts ((v :: vs) :: parts) = (ofParts parts).map (⟨v, vs⟩ :: ·) := by
  have hempty : [] ∈ ((v :: vs) :: parts).dropLast ↔ [] ∈ parts.dropLast := by
    cases parts with
    | nil => simp
    | cons part parts => simp
  rw [ofParts, ofParts, if_congr hempty rfl rfl]
  split <;> rfl

/-- The values of the argument at hand come before those of the first part. -/
theorem splitFrom_eq (current vs : List ComponentValue) :
    splitFrom current vs = ofParts ((parts vs).modifyHead (current ++ ·)) := by
  induction vs generalizing current with
  | nil =>
    have hparts : (parts []).modifyHead (current ++ ·) = [current] := by simp [parts]
    rw [hparts, splitFrom]
    cases current <;> rfl
  | cons v vs ih =>
    have hne := parts_ne_nil vs
    rw [splitFrom]
    split
    · next hcomma =>
      have hhead : (parts vs).modifyHead (([] : List ComponentValue) ++ ·) = parts vs := by
        cases parts vs <;> rfl
      rw [parts_comma hcomma, List.modifyHead_cons, List.append_nil, ih, hhead]
      cases current with
      | nil => exact (ofParts_nil_cons hne).symm
      | cons w ws => exact (ofParts_cons w ws _).symm
    · next hcomma =>
      split
      · next hspace => rw [parts_space hspace hcomma, ih]
      · next hspace =>
        rw [parts_other hspace hcomma, ih, List.modifyHead_modifyHead]
        congr 2
        funext part
        simp

/-- The arguments are the parts between commas. -/
theorem split_eq (vs : List ComponentValue) : split vs = ofParts (parts vs) := by
  rw [split, splitFrom_eq]
  cases parts vs <;> rfl

def mapParts {α : Type} (vs : List ComponentValue) (f : List ComponentValue → α) :
    Parsed (List α) :=
  if [] ∈ (parts vs).dropLast then reject .emptyArgument
  else .ok (((parts vs).filter (· ≠ [])).map f)

theorem map_filterMap_ofList? {α : Type} (parts : List (List ComponentValue))
    (f : List ComponentValue → α) :
    (parts.filterMap ofList?).map (fun a => f a.toList) = (parts.filter (· ≠ [])).map f := by
  induction parts with
  | nil => rfl
  | cons part parts ih =>
    cases part with
    | nil => exact ih
    | cons v vs => exact congrArg (f (v :: vs) :: ·) ih

theorem map_split {α : Type} (vs : List ComponentValue) (f : List ComponentValue → α) :
    (split vs).map (List.map fun a => f a.toList) = mapParts vs f := by
  rw [split_eq, ofParts, mapParts]
  split
  · rfl
  · rw [← map_filterMap_ofList?]
    rfl

def ofAllParts (parts : List (List ComponentValue)) : Parsed (List Argument) :=
  if [] ∈ parts then reject .emptyArgument else .ok (parts.filterMap ofList?)

theorem ofAllParts_eq_reject_iff {parts : List (List ComponentValue)} :
    ofAllParts parts = reject .emptyArgument ↔ [] ∈ parts := by
  rw [ofAllParts]
  split <;> simp_all [reject, Rejection.message]

theorem filterMap_map_toList (args : List Argument) :
    (args.map toList).filterMap ofList? = args := by
  rw [List.filterMap_map]
  exact List.filterMap_some

theorem ofAllParts_eq_ok_iff {parts : List (List ComponentValue)} {args : List Argument} :
    ofAllParts parts = .ok args ↔ args.map toList = parts := by
  constructor
  · intro h
    rw [ofAllParts] at h
    split at h
    · cases h
    · next hfull =>
      obtain rfl := Except.ok.inj h
      have hfilter : parts.filter (· ≠ []) = parts := by
        rw [List.filter_eq_self]
        intro part hpart
        exact decide_eq_true fun hnil => hfull (hnil ▸ hpart)
      have hmap := map_filterMap_ofList? parts id
      rwa [List.map_id, hfilter] at hmap
  · rintro rfl
    have hfull : [] ∉ args.map toList := by simp [toList]
    rw [ofAllParts, if_neg hfull, filterMap_map_toList]

theorem ofParts_concat_nil (front : List (List ComponentValue)) :
    ofParts (front ++ [[]]) = ofAllParts front := by
  have hlast : [[]].filterMap ofList? = [] := rfl
  rw [ofParts, ofAllParts, List.dropLast_concat, List.filterMap_append, hlast, List.append_nil]

theorem ofParts_of_getLast? {parts : List (List ComponentValue)} (h : parts.getLast? ≠ some []) :
    ofParts parts = ofAllParts parts := by
  have hlast : [] ∈ parts.dropLast ↔ [] ∈ parts := by
    constructor
    · exact fun hmem => List.dropLast_subset parts hmem
    · intro hmem
      rcases List.eq_nil_or_concat parts with rfl | ⟨front, last, rfl⟩
      · exact hmem
      · simp_all
  rw [ofParts, ofAllParts, if_congr hlast rfl rfl]

/-- There is one part more than there are commas. The arguments are the parts, and one that is empty
is an error, with the exception of the last one: it is left out. -/
theorem split_at_commas (vs : List ComponentValue) :
    (parts vs).length = vs.countP ComponentValue.isComma + 1 ∧
    (split vs = reject .emptyArgument ∨ ∃ args, split vs = .ok args) ∧
    ((parts vs).getLast? ≠ some [] →
      (split vs = reject .emptyArgument ↔ [] ∈ parts vs) ∧
        ∀ args, split vs = .ok args ↔ args.map toList = parts vs) ∧
    ∀ front, parts vs = front ++ [[]] →
      (split vs = reject .emptyArgument ↔ [] ∈ front) ∧
        ∀ args, split vs = .ok args ↔ args.map toList = front := by
  rw [split_eq]
  refine ⟨?_, ?_, ?_, ?_⟩
  · rw [parts, List.length_map, TokenStream.length_splitOnP_isComma]
  · rw [ofParts]
    split
    · exact .inl rfl
    · exact .inr ⟨_, rfl⟩
  · intro hlast
    rw [ofParts_of_getLast? hlast]
    exact ⟨ofAllParts_eq_reject_iff, fun args => ofAllParts_eq_ok_iff⟩
  · intro front hparts
    rw [hparts, ofParts_concat_nil]
    exact ⟨ofAllParts_eq_reject_iff, fun args => ofAllParts_eq_ok_iff⟩

theorem split_at_commas_two :
    (parts [.token ⟨.ident "a", "a"⟩, .token ⟨.comma, ","⟩, .token ⟨.ident "b", "b"⟩]).getLast? ≠
      some [] ∧
    split [.token ⟨.ident "a", "a"⟩, .token ⟨.comma, ","⟩, .token ⟨.ident "b", "b"⟩] =
      .ok [⟨.token ⟨.ident "a", "a"⟩, []⟩, ⟨.token ⟨.ident "b", "b"⟩, []⟩] ∧
    parts [.token ⟨.comma, ","⟩, .token ⟨.comma, ","⟩] = [[], []] ++ [[]] ∧
    split [.token ⟨.comma, ","⟩, .token ⟨.comma, ","⟩] = reject .emptyArgument := by
  have hlast : (parts [.token ⟨.ident "a", "a"⟩, .token ⟨.comma, ","⟩,
      .token ⟨.ident "b", "b"⟩]).getLast? ≠ some [] := by decide
  have hempty : parts [.token ⟨.comma, ","⟩, .token ⟨.comma, ","⟩] = [[], []] ++ [[]] := by decide
  have htwo := ((split_at_commas _).2.2.1 hlast).2
    [⟨.token ⟨.ident "a", "a"⟩, []⟩, ⟨.token ⟨.ident "b", "b"⟩, []⟩]
  have hnone := ((split_at_commas _).2.2.2 _ hempty).1
  exact ⟨hlast, htwo.2 (by decide), hempty, hnone.2 (by decide)⟩

/-- The part after the last comma is empty, and it is no error. -/
theorem split_drops_last :
    parts [.token ⟨.ident "a", "a"⟩, .token ⟨.comma, ","⟩] = [[.token ⟨.ident "a", "a"⟩], []] ∧
    split [.token ⟨.ident "a", "a"⟩, .token ⟨.comma, ","⟩] =
      .ok [⟨.token ⟨.ident "a", "a"⟩, []⟩] := by
  decide

end Argument

end StyleValue
