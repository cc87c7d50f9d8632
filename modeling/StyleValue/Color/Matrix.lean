import StyleValue.Numeric.Arithmetic

/-!
# Coordinates and matrices

The coordinates of a color in some space are three numbers, and an alpha that conversions between
spaces pass on untouched. Linear conversions are matrices; the two that adapt a color from one
white point to another are here.
-/

set_option autoImplicit false

namespace StyleValue

structure Triple (α : Type) where
  first : α
  second : α
  third : α
deriving DecidableEq

namespace Triple

variable {α β : Type}

def toList (t : Triple α) : List α := [t.first, t.second, t.third]

def mapM (f : α → Computed β) (t : Triple α) : Computed (Triple β) := do
  return ⟨← f t.first, ← f t.second, ← f t.third⟩

end Triple

structure Coordinates where
  channels : Triple Number
  alpha : Option Number := none
deriving DecidableEq

namespace Coordinates

def opacity (c : Coordinates) : Number := c.alpha.getD 1

def convert (f : Triple Number → Computed (Triple Number)) (c : Coordinates) :
    Computed Coordinates := do
  return ⟨← f c.channels, some c.opacity⟩

def toList (c : Coordinates) : List Number := c.channels.toList ++ c.alpha.toList

def ofList? : List Number → Option Coordinates
  | [x, y, z] => some ⟨⟨x, y, z⟩, none⟩
  | x :: y :: z :: alpha :: _ => some ⟨⟨x, y, z⟩, some alpha⟩
  | _ => none

end Coordinates

structure Matrix where
  first : Triple Number
  second : Triple Number
  third : Triple Number

namespace Matrix

def dot (row column : Triple Number) : Computed Number :=
  let product (x y : Number) : Computed Number := x.mul y
  product row.first column.first + product row.second column.second +
    product row.third column.third

def multiply (m : Matrix) (v : Triple Number) : Computed (Triple Number) := do
  return ⟨← dot m.first v, ← dot m.second v, ← dot m.third v⟩

end Matrix

def adaptToD50 : Matrix where
  first := ⟨1.0479297925449969, 0.022946870601609652, -0.05019226628920524⟩
  second := ⟨0.02962780877005599, 0.9904344267538799, -0.017073799063418826⟩
  third := ⟨-0.009243040646204504, 0.015055191490298152, 0.7518742814281371⟩

def adaptToD65 : Matrix where
  first := ⟨0.955473421488075, -0.02309845494876471, 0.06325924320057072⟩
  second := ⟨-0.0283697093338637, 1.0099953980813041, 0.021041441191917323⟩
  third := ⟨0.012314014864481998, -0.020507649298898964, 1.330365926242124⟩

end StyleValue
