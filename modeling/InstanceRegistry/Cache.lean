import InstanceRegistry.Error
import InstanceRegistry.Instance
import InstanceRegistry.Table

/-!
This module contains the cache of a registry: which instances are ready, which names have something
to show before they are ready, and which names are listed. The cache is parametric in the code of
early factories, which it stores and forgets without running any of it.
-/

namespace InstanceRegistry

inductive Slot (ε : Type) where
  | pending (code : ε)
  | early (reference : Instance)

structure Cache (ε : Type) where
  ready : Table Instance
  slots : Table (Slot ε)
  listed : NameSet
  window : Option (List Failure)
  destroying : Bool

namespace Cache

variable {ε : Type}

def empty : Cache ε :=
  ⟨∅, ∅, ∅, none, false⟩

def publish (c : Cache ε) (n : Name) (i : Instance) : Cache ε :=
  { c with
    slots := c.slots.erase n
    listed := c.listed.insert n
    ready := c.ready.insert n i }

def register (c : Cache ε) (n : Name) (i : Instance) : Except RegistryError (Cache ε) :=
  if c.ready.contains n then
    .error (.alreadyRegistered n)
  else
    .ok (c.publish n i)

def addEarlyFactory (c : Cache ε) (n : Name) (code : ε) : Cache ε :=
  if c.ready.contains n then
    c
  else
    { c with
      slots := c.slots.insert n (.pending code)
      listed := c.listed.insert n }

def takeSlot (c : Cache ε) (n : Name) : Cache ε :=
  { c with slots := c.slots.erase n }

def expose (c : Cache ε) (n : Name) (i : Instance) : Instance × Cache ε :=
  match c.ready.find? n with
  | some r => (r, c)
  | none => (i, { c with slots := c.slots.insert n (.early i) })

def discard (c : Cache ε) (n : Name) : Cache ε :=
  { c with
    slots := c.slots.erase n
    listed := c.listed.erase n }

def remove (c : Cache ε) (n : Name) : Cache ε :=
  { c.discard n with ready := c.ready.erase n }

def clear (c : Cache ε) : Cache ε :=
  { c with
    ready := ∅
    slots := ∅
    listed := ∅
    destroying := false }

def suppress (c : Cache ε) (limit : Nat) (f : Failure) : Cache ε :=
  { c with
    window := c.window.map fun fs => if fs.length < limit then fs ++ [f] else fs }

end Cache

end InstanceRegistry
