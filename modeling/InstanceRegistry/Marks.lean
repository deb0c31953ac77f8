import InstanceRegistry.NameSet

/-!
This module contains the marks that tell which names are being created. A name that is exempt is
neither marked nor unmarked, and so may be created while it is being created.
-/

namespace InstanceRegistry

structure Marks where
  active : NameSet
  exempt : NameSet

namespace Marks

def empty : Marks :=
  ⟨∅, ∅⟩

def mark (m : Marks) (n : Name) : Option Marks :=
  if n ∈ m.exempt then
    some m
  else if n ∈ m.active then
    none
  else
    some { m with active := m.active.insert n }

def unmark (m : Marks) (n : Name) : Option Marks :=
  if n ∈ m.exempt then
    some m
  else if n ∈ m.active then
    some { m with active := m.active.erase n }
  else
    none

def setInCreation (m : Marks) (n : Name) (value : Bool) : Marks :=
  { m with exempt := if value then m.exempt.erase n else m.exempt.insert n }

def isMarked (m : Marks) (n : Name) : Bool :=
  n ∈ m.active

def inCreation (m : Marks) (n : Name) : Bool :=
  !decide (n ∈ m.exempt) && m.isMarked n

end Marks

end InstanceRegistry
