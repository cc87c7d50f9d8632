import Mathlib.Data.List.Basic
import StyleValue.Gradient.Radial

/-!
# Shapes in any order

Values that each give a part of a shape are read one by one, and what they give together is known
without reading them in order: the shape and the extent that are named, and the lengths, of which
the order does count. So such values may be rearranged, as long as the lengths keep their order,
whatever position comes after them.
-/

set_option autoImplicit false

namespace StyleValue

namespace EndingShape

def shape? (v : ComponentValue) : Option RadialShape := v.keyword?.bind RadialShape.ofName?

def extent? (extentOf : String → Option RadialExtent) (v : ComponentValue) : Option RadialExtent :=
  v.keyword?.bind extentOf

structure NamesExtents (extentOf : String → Option RadialExtent) : Prop where
  not_at : extentOf "at" = none
  not_shape : ∀ name, (RadialShape.ofName? name).isSome → extentOf name = none

theorem namesExtents_of_shapes {extentOf : String → Option RadialExtent}
    (hat : extentOf "at" = none) (hcircle : extentOf "circle" = none)
    (hellipse : extentOf "ellipse" = none) : NamesExtents extentOf := by
  refine ⟨hat, fun name h => ?_⟩
  unfold RadialShape.ofName? at h
  split at h
  · exact hcircle
  · exact hellipse
  · cases h

theorem namesExtents_ofName : NamesExtents RadialExtent.ofName? :=
  namesExtents_of_shapes rfl rfl rfl

theorem namesExtents_ofVendorName : NamesExtents RadialExtent.ofVendorName? :=
  namesExtents_of_shapes rfl rfl rfl

theorem ofValue?_of_keyword? {v : ComponentValue} {name : String} (h : v.keyword? = some name) :
    LengthPercentage.ofValue? v = none := by
  obtain ⟨written, source, rfl, -⟩ := ComponentValue.exists_ident_of_keyword? h
  rfl

section

variable {extentOf : String → Option RadialExtent} {v : ComponentValue}

def IsPart (extentOf : String → Option RadialExtent) (v : ComponentValue) : Prop :=
  (shape? v).isSome ∨ (extent? extentOf v).isSome ∨ v.isLengthPercentage

def adding (extentOf : String → Option RadialExtent) (e : EndingShape) (v : ComponentValue) :
    EndingShape :=
  { e with
    shape := (shape? v).or e.shape
    extent := (extent? extentOf v).or e.extent
    lengths := e.lengths ++ (LengthPercentage.ofValue? v).toList }

/-- A value gives one part only, and so there is no first one among them. -/
theorem add?_of_isPart (hnames : NamesExtents extentOf) (h : IsPart extentOf v) (e : EndingShape) :
    add? extentOf e v = some (e.adding extentOf v) := by
  unfold add? adding
  cases hkeyword : v.keyword? with
  | none =>
    have hshape : shape? v = none := by rw [shape?, hkeyword]; rfl
    have hextent : extent? extentOf v = none := by rw [extent?, hkeyword]; rfl
    obtain ⟨l, hl⟩ : ∃ l, LengthPercentage.ofValue? v = some l := by
      rw [IsPart, hshape, hextent] at h
      exact Option.isSome_iff_exists.1 (by simpa [ComponentValue.isLengthPercentage] using h)
    simp [hshape, hextent, hl]
  | some name =>
    have hlength := ofValue?_of_keyword? hkeyword
    cases hshape : RadialShape.ofName? name with
    | some shape =>
      have hextent := hnames.not_shape name (by rw [hshape]; rfl)
      simp [shape?, extent?, hkeyword, hshape, hextent, hlength]
    | none =>
      obtain ⟨extent, hextent⟩ : ∃ extent, extentOf name = some extent := by
        refine Option.isSome_iff_exists.1 ?_
        simpa [IsPart, shape?, extent?, hkeyword, hshape, hlength,
          ComponentValue.isLengthPercentage] using h
      simp [shape?, extent?, hkeyword, hshape, hextent, hlength]

theorem IsPart.not_at (h : IsPart extentOf v) (hnames : NamesExtents extentOf) :
    v.isKeyword "at" = false := by
  cases hat : v.isKeyword "at" with
  | false => rfl
  | true =>
    have hkeyword : v.keyword? = some "at" := beq_iff_eq.1 hat
    simp [IsPart, shape?, extent?, hkeyword, hnames.not_at, RadialShape.ofName?,
      ComponentValue.isLengthPercentage, ofValue?_of_keyword? hkeyword] at h

/-- The parts of a shape come before the rest, which is read with what they gave. -/
theorem extend_append (hnames : NamesExtents extentOf) {head : List ComponentValue}
    (h : ∀ v ∈ head, IsPart extentOf v) (e : EndingShape) (tail : List ComponentValue) :
    EndingShape.extend extentOf e (head ++ tail) =
      EndingShape.extend extentOf (head.foldl (adding extentOf) e) tail := by
  induction head generalizing e with
  | nil => rfl
  | cons v head ih =>
    obtain ⟨hv, hhead⟩ := List.forall_mem_cons.1 h
    rw [List.cons_append, EndingShape.extend, hv.not_at hnames, if_neg Bool.false_ne_true,
      add?_of_isPart hnames hv]
    exact ih hhead (e.adding extentOf v)

theorem or_getLast?_filterMap_cons {α β : Type} (f : α → Option β) (a : α) (as : List α)
    (b : Option β) :
    ((a :: as).filterMap f).getLast?.or b = (as.filterMap f).getLast?.or ((f a).or b) := by
  cases h : f a with
  | none =>
    rw [List.filterMap_cons_none h]
    rfl
  | some c =>
    rw [List.filterMap_cons_some h, List.getLast?_cons]
    cases (as.filterMap f).getLast? <;> rfl

/-- What parts give: the shape and the extent named last, and all lengths. -/
theorem foldl_adding (head : List ComponentValue) (e : EndingShape) :
    head.foldl (adding extentOf) e =
      { e with
        shape := (head.filterMap shape?).getLast?.or e.shape
        extent := (head.filterMap (extent? extentOf)).getLast?.or e.extent
        lengths := e.lengths ++ head.filterMap LengthPercentage.ofValue? } := by
  induction head generalizing e with
  | nil => simp
  | cons v head ih =>
    rw [List.foldl_cons, ih, or_getLast?_filterMap_cons, or_getLast?_filterMap_cons, adding]
    congr 1
    cases hv : LengthPercentage.ofValue? v <;> simp [hv]

/-- The position that comes after the parts of a shape, if any does. -/
theorem extend_position {e : EndingShape} (he : e.position = none) {tail : List ComponentValue}
    (htail : ∀ v, tail.head? = some v → v.isKeyword "at") :
    EndingShape.extend extentOf e tail =
      (Position.ofValues tail.tail).map fun position => { e with position } := by
  cases tail with
  | nil =>
    show Except.ok e = Except.ok { e with position := none }
    rw [← he]
  | cons v vs =>
    rw [EndingShape.extend, if_pos (htail v rfl)]
    rw [List.tail_cons]
    cases Position.ofValues vs <;> rfl

structure IsHead (extentOf : String → Option RadialExtent) (head : List ComponentValue) :
    Prop where
  parts : ∀ v ∈ head, IsPart extentOf v
  one_shape : (head.filterMap shape?).length ≤ 1
  one_extent : (head.filterMap (extent? extentOf)).length ≤ 1

def given (extentOf : String → Option RadialExtent) (head : List ComponentValue)
    (position : Option Position) : EndingShape where
  shape := (head.filterMap shape?).head?
  extent := (head.filterMap (extent? extentOf)).head?
  lengths := head.filterMap LengthPercentage.ofValue?
  position := position

theorem getLast?_of_length_le_one {α : Type} {as : List α} (h : as.length ≤ 1) :
    as.getLast?.or none = as.head? := by
  match as, h with
  | [], _ => rfl
  | [a], _ => rfl

theorem eq_of_perm_of_length_le_one {α : Type} {as bs : List α} (hperm : as.Perm bs)
    (h : bs.length ≤ 1) : as = bs := by
  match bs, h with
  | [], _ => exact hperm.eq_nil
  | [b], _ => exact List.perm_singleton.1 hperm

/-- Parts of a shape and a position after them, read in the order that they come in. -/
theorem extend_given (hnames : NamesExtents extentOf) {head tail : List ComponentValue}
    (hhead : IsHead extentOf head) (htail : ∀ v, tail.head? = some v → v.isKeyword "at") :
    EndingShape.extend extentOf {} (head ++ tail) =
      (Position.ofValues tail.tail).map (given extentOf head) := by
  rw [extend_append hnames hhead.parts, foldl_adding, extend_position rfl htail]
  simp only [getLast?_of_length_le_one hhead.one_shape,
    getLast?_of_length_le_one hhead.one_extent]
  rfl

theorem filterMap_ofValue?_filter (vs : List ComponentValue) :
    (vs.filter ComponentValue.isLengthPercentage).filterMap LengthPercentage.ofValue? =
      vs.filterMap LengthPercentage.ofValue? := by
  induction vs with
  | nil => rfl
  | cons v vs ih =>
    cases hv : LengthPercentage.ofValue? v <;>
      simp [ComponentValue.isLengthPercentage, hv, ih]

section

variable {head other : List ComponentValue} (hhead : IsHead extentOf head)
  (hperm : other.Perm head)
include hhead hperm

theorem IsHead.perm : IsHead extentOf other where
  parts := fun v hv => hhead.parts v (hperm.mem_iff.1 hv)
  one_shape := (hperm.filterMap shape?).length_eq ▸ hhead.one_shape
  one_extent := (hperm.filterMap (extent? extentOf)).length_eq ▸ hhead.one_extent

theorem given_perm (hlengths : other.filter ComponentValue.isLengthPercentage =
    head.filter ComponentValue.isLengthPercentage) :
    given extentOf other = given extentOf head := by
  funext position
  have hshape := eq_of_perm_of_length_le_one (hperm.filterMap shape?) hhead.one_shape
  have hextent :=
    eq_of_perm_of_length_le_one (hperm.filterMap (extent? extentOf)) hhead.one_extent
  have hsame : other.filterMap LengthPercentage.ofValue? =
      head.filterMap LengthPercentage.ofValue? := by
    rw [← filterMap_ofValue?_filter, hlengths, filterMap_ofValue?_filter]
  rw [given, given, hshape, hextent, hsame]

end

/-- An argument that starts with a part of a shape, or with a position, is one. -/
theorem ofArgument_of_head (hnames : NamesExtents extentOf) {head tail : List ComponentValue}
    (hhead : IsHead extentOf head) (htail : ∀ v, tail.head? = some v → v.isKeyword "at")
    {a : Argument} (ha : a.toList = head ++ tail) :
    ofArgument extentOf a = (EndingShape.extend extentOf {} (head ++ tail)).map some := by
  have hstarts : (a.first.isKeyword "at" || (add? extentOf {} a.first).isSome) = true := by
    cases head with
    | nil =>
      rw [htail a.first (by rw [← List.nil_append tail, ← ha]; rfl)]
      rfl
    | cons v head =>
      obtain rfl : a.first = v := (List.cons.inj ha).1
      rw [add?_of_isPart hnames (hhead.parts _ List.mem_cons_self), Option.isSome_some,
        Bool.or_true]
  rw [ofArgument, if_pos hstarts, ha]

theorem size_of_lengths {e : EndingShape} (h : e.lengths ≠ []) :
    ∃ radii, e.size = some (.lengths radii) ∧ radii.toList = e.lengths.take 2 := by
  cases hlengths : e.lengths with
  | nil => exact absurd hlengths h
  | cons l ls =>
    cases ls with
    | nil => exact ⟨⟨l, none⟩, by rw [size, hlengths]; rfl, rfl⟩
    | cons m ls => exact ⟨⟨l, some m⟩, by rw [size, hlengths]; rfl, rfl⟩

theorem size_of_no_lengths {e : EndingShape} (h : e.lengths = []) :
    e.size = e.extent.map .extent := by
  rw [size, h]
  rfl

/-- Values that name a shape and an extent at most, with lengths among them, may come in any order
that keeps the lengths in theirs: the shape is the same, or the failure, and so is what an argument
of such values gives. They give the shape that they name, the extent, the lengths, and the position
that comes after them; the size is the first two lengths, or the extent if there are no lengths. -/
theorem read_in_any_order
    (htable : extentOf = RadialExtent.ofName? ∨ extentOf = RadialExtent.ofVendorName?)
    {head other tail : List ComponentValue} (hhead : IsHead extentOf head)
    (hperm : other.Perm head)
    (hlengths : other.filter ComponentValue.isLengthPercentage =
      head.filter ComponentValue.isLengthPercentage)
    (htail : ∀ v, tail.head? = some v → v.isKeyword "at") :
    EndingShape.extend extentOf {} (other ++ tail) =
      EndingShape.extend extentOf {} (head ++ tail) ∧
    (∀ a b : Argument, a.toList = head ++ tail → b.toList = other ++ tail →
      ofArgument extentOf b = ofArgument extentOf a ∧
      ofArgument extentOf a = (EndingShape.extend extentOf {} (head ++ tail)).map some) ∧
    EndingShape.extend extentOf {} (head ++ tail) =
      (Position.ofValues tail.tail).map (given extentOf head) ∧
    ∀ position,
      (head.filterMap LengthPercentage.ofValue? = [] → (given extentOf head position).size =
        (head.filterMap (extent? extentOf)).head?.map .extent) ∧
      (head.filterMap LengthPercentage.ofValue? ≠ [] →
        ∃ radii, (given extentOf head position).size = some (.lengths radii) ∧
          radii.toList = (head.filterMap LengthPercentage.ofValue?).take 2) := by
  have hnames : NamesExtents extentOf := by
    rcases htable with rfl | rfl
    · exact namesExtents_ofName
    · exact namesExtents_ofVendorName
  have hother := hhead.perm hperm
  have hsame : EndingShape.extend extentOf {} (other ++ tail) =
      EndingShape.extend extentOf {} (head ++ tail) := by
    rw [extend_given hnames hother htail, extend_given hnames hhead htail,
      given_perm hhead hperm hlengths]
  refine ⟨hsame, fun a b ha hb => ?_, extend_given hnames hhead htail, fun position => ?_⟩
  · have hgiven := ofArgument_of_head hnames hhead htail ha
    rw [ofArgument_of_head hnames hother htail hb, hsame, hgiven]
    exact ⟨rfl, rfl⟩
  · exact ⟨size_of_no_lengths (e := given extentOf head position),
      size_of_lengths (e := given extentOf head position)⟩

/-- The extent is named first or last, before or after lengths that outdo it. -/
theorem read_in_any_order_cover :
    let word (name : String) : ComponentValue := .token ⟨.ident name, name⟩
    let pixels (n : Nat) : ComponentValue := .token ⟨.dimension (.integer n) "px", ""⟩
    let head := [word "cover", pixels 10, word "Ellipse", pixels 20, pixels 30]
    let other := [pixels 10, word "Ellipse", pixels 20, pixels 30, word "cover"]
    let tail := [word "at", word "left"]
    IsHead RadialExtent.ofVendorName? head ∧ other.Perm head ∧
    other.filter ComponentValue.isLengthPercentage =
      head.filter ComponentValue.isLengthPercentage ∧
    (∀ v, tail.head? = some v → v.isKeyword "at") ∧
    EndingShape.extend RadialExtent.ofVendorName? {} (other ++ tail) =
      .ok ⟨some .ellipse, some .farthestCorner, [10, 20, 30].map fun n =>
        ⟨.dimension (.integer n) "px", ""⟩, some ⟨.zero, .half⟩⟩ := by
  intro word pixels head other tail
  have hhead : IsHead RadialExtent.ofVendorName? head := by
    refine ⟨?_, by decide +kernel, by decide +kernel⟩
    have hparts : ∀ v ∈ head, (shape? v).isSome ∨ (extent? RadialExtent.ofVendorName? v).isSome ∨
        v.isLengthPercentage := by decide +kernel
    exact hparts
  have hperm : other.Perm head :=
    List.perm_append_singleton (word "cover")
      [pixels 10, word "Ellipse", pixels 20, pixels 30]
  have htail : ∀ v, tail.head? = some v → v.isKeyword "at" := by
    rintro v hv
    obtain rfl := Option.some.inj hv
    decide +kernel
  refine ⟨hhead, hperm, rfl, htail, ?_⟩
  rw [(read_in_any_order (.inr rfl) hhead hperm rfl htail).1]
  decide +kernel

end

end EndingShape

end StyleValue
