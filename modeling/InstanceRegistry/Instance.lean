/-!
This module contains the instances that a registry shares. An instance is an identity together with
the value behind it: the identity tells two equal values apart. It has no code that would run when
the last one who shares it lets it go.
-/

namespace InstanceRegistry

inductive Kind where
  | int
  | text
  | unit
  | holder
  deriving DecidableEq, Repr

inductive Value where
  | int (n : Int)
  | text (s : String)
  | unit
  | holder (inner : Nat)
  deriving DecidableEq, Repr

def Value.kind : Value → Kind
  | .int _ => .int
  | .text _ => .text
  | .unit => .unit
  | .holder _ => .holder

structure Instance where
  id : Nat
  value : Value
  deriving DecidableEq, Repr

namespace Instance

def same (i j : Instance) : Bool :=
  i.id == j.id

def downcast (i : Instance) (k : Kind) : Option Value :=
  if i.value.kind = k then some i.value else none

theorem downcast_eq_some_iff {i : Instance} {k : Kind} {v : Value} :
    i.downcast k = some v ↔ i.value = v ∧ v.kind = k := by
  simp only [downcast, Option.ite_none_right_eq_some, Option.some.injEq]
  constructor
  · rintro ⟨rfl, rfl⟩
    exact ⟨rfl, rfl⟩
  · rintro ⟨rfl, rfl⟩
    exact ⟨rfl, rfl⟩

end Instance

end InstanceRegistry
