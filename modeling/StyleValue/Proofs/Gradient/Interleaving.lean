import StyleValue.Gradient.Point
import StyleValue.Proofs.Failure
import StyleValue.Proofs.Outcome

/-!
# Points and stops in any order

The arguments of a gradient between points are read in one pass, in which a function is made a stop
as soon as it is met and all else is kept as a point for later. What the pass gives, reports and
fails with depends on the functions in their order and on the points in theirs, and not on how the
two are mixed.
-/

set_option autoImplicit false

namespace StyleValue

def Argument.startsFunction (a : Argument) : Bool :=
  match a.first with
  | .function .. => true
  | _ => false

namespace PointGradient

structure Gathered where
  stops : List ColorStop
  points : List Argument

def Gathered.add (g : Gathered) (a : Argument) : Outcome Gathered :=
  match a.first with
  | .function name _ values _ => do
    return { g with stops := g.stops ++ (← stop? name values).toList }
  | _ => pure { g with points := g.points ++ [a] }

def gather (arguments : List Argument) : Outcome Gathered := arguments.foldlM Gathered.add ⟨[], []⟩

theorem points_eq_filter (arguments : List Argument) :
    points arguments = arguments.filter fun a => !a.startsFunction := by
  unfold points
  congr 1
  funext a
  rcases a with ⟨first, others⟩
  cases first <;> rfl

/-- A pass makes the stops of the functions, and leaves all else as points. -/
theorem foldlM_add (arguments : List Argument) (g : Gathered) :
    arguments.foldlM Gathered.add g = do
      return ⟨g.stops ++ (← stops arguments), g.points ++ points arguments⟩ := by
  induction arguments generalizing g with
  | nil => simp [stops, points]
  | cons a arguments ih =>
    rcases a with ⟨first, others⟩
    rw [List.foldlM_cons]
    cases first with
    | function name openSource values closeSource =>
      simp [Gathered.add, stops, points, ih]
    | token t => simp [Gathered.add, stops, points, ih]
    | block bracket openSource values closeSource => simp [Gathered.add, stops, points, ih]

theorem gather_eq (arguments : List Argument) :
    gather arguments = do return ⟨← stops arguments, points arguments⟩ := by
  rw [gather, foldlM_add]
  rfl

theorem stops_filter (arguments : List Argument) :
    stops (arguments.filter Argument.startsFunction) = stops arguments := by
  induction arguments with
  | nil => rfl
  | cons a arguments ih =>
    rcases a with ⟨first, others⟩
    cases first <;> simp [List.filter_cons, Argument.startsFunction, stops, ih]

section

variable {type : Argument} {arguments : List Argument}

/-- A linear gradient is made of what a pass gathers: the stops are there, or have failed, before
a point is looked at. -/
theorem ofArguments_linear (h : type.first.keyword? = some "linear") :
    ofArguments (type :: arguments) = do
      let g ← gather arguments
      return .inl ⟨← Outcome.ofParsed (angle g.points), g.stops⟩ := by
  rw [ofArguments, gather_eq]
  simp only [h, bind_assoc, pure_bind]

theorem ofArguments_radial (h : type.first.keyword? = some "radial") :
    ofArguments (type :: arguments) = do
      let g ← gather arguments
      let (position, size) ← Outcome.ofParsed (circle g.points)
      return .inr ⟨.circle, size, position, g.stops⟩ := by
  rw [ofArguments, gather_eq]
  simp only [h, bind_assoc, pure_bind]

/-- Arguments after a type may be mixed otherwise, as long as those that start with a function keep
their order, and so do all others: one pass gathers the same of them, and the gradient is the same,
or the failure, with the same events in the same order. It is made of what the pass gathers. -/
theorem interleaved_alike {mixed : List Argument} {values others : List ComponentValue}
    (hvalues : Argument.split values = .ok (type :: arguments))
    (hothers : Argument.split others = .ok (type :: mixed))
    (hstops : mixed.filter Argument.startsFunction = arguments.filter Argument.startsFunction)
    (hpoints : (mixed.filter fun a => !a.startsFunction) =
      arguments.filter fun a => !a.startsFunction) :
    gather mixed = gather arguments ∧ ofValues others = ofValues values ∧
    (type.first.keyword? = some "linear" → ofValues values = do
      let g ← gather arguments
      return .inl ⟨← Outcome.ofParsed (angle g.points), g.stops⟩) ∧
    (type.first.keyword? = some "radial" → ofValues values = do
      let g ← gather arguments
      let (position, size) ← Outcome.ofParsed (circle g.points)
      return .inr ⟨.circle, size, position, g.stops⟩) := by
  have hmade : stops mixed = stops arguments := by
    rw [← stops_filter mixed, hstops, stops_filter]
  have hkept : points mixed = points arguments := by
    rw [points_eq_filter, hpoints, points_eq_filter]
  rw [ofValues, ofValues, Outcome.bind_lift_of_ok hvalues, Outcome.bind_lift_of_ok hothers]
  refine ⟨?_, ?_, ofArguments_linear, ofArguments_radial⟩
  · rw [gather_eq, gather_eq, hmade, hkept]
  · rw [ofArguments, ofArguments, hmade, hkept]

end

/-- Two stops among four points, and after them. -/
theorem interleaved_alike_radial :
    let word (name : String) : ComponentValue := .token ⟨.ident name, name⟩
    let number (n : Nat) : ComponentValue := .token ⟨.number (.integer n), ""⟩
    let comma : ComponentValue := .token ⟨.comma, ","⟩
    let start : ComponentValue := .function "from" "from(" [word "red"] ")"
    let finish : ComponentValue := .function "to" "to(" [word "bogus"] ")"
    let argument (v : ComponentValue) : Argument := ⟨v, []⟩
    let values := [word "radial", comma, start, comma, number 1, comma, number 2, comma, finish,
      comma, word "center", comma, number 5]
    let others := [word "radial", comma, number 1, comma, number 2, comma, word "center", comma,
      number 5, comma, start, comma, finish]
    let arguments := [start, number 1, number 2, finish, word "center", number 5].map argument
    let mixed := [number 1, number 2, word "center", number 5, start, finish].map argument
    Argument.split values = .ok (argument (word "radial") :: arguments) ∧
    Argument.split others = .ok (argument (word "radial") :: mixed) ∧
    mixed.filter Argument.startsFunction = arguments.filter Argument.startsFunction ∧
    (mixed.filter fun a => !a.startsFunction) = (arguments.filter fun a => !a.startsFunction) ∧
    (ofValues others).events = [.report (.unknownColorName "bogus")] ∧
    (ofValues others).result = .ok (.inr ⟨.circle, .lengths ⟨⟨.number 5, ""⟩, none⟩,
      some ⟨.half, .half⟩, [⟨Color.ofInt 0xff0000ff, some .zero⟩,
        ⟨Color.transparent, some .whole⟩]⟩) := by
  intro word number comma start finish argument values others arguments mixed
  have hvalues : Argument.split values = .ok (argument (word "radial") :: arguments) := by decide
  have hothers : Argument.split others = .ok (argument (word "radial") :: mixed) := by decide
  have hsame := (interleaved_alike hvalues hothers rfl rfl).2.1
  refine ⟨hvalues, hothers, rfl, rfl, ?_, ?_⟩
  · rw [hsame]
    decide +kernel
  · rw [hsame]
    decide +kernel

end PointGradient

end StyleValue
