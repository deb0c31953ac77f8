import InstanceRegistry.Alias
import InstanceRegistry.Cache
import InstanceRegistry.Graph
import InstanceRegistry.Log
import InstanceRegistry.Marks

/-!
This module contains registries and the decisions that a registry takes on its own, between two runs
of client code: whether a lookup is answered, whether a creation starts, and what is left when it
ends. A resolver is no client code in this sense: it is a function, which gives the same name for a
name whenever it is asked, and knows nothing of the registry. Forgetting an instance, or code that
has been stored, runs no code at all.
-/

namespace InstanceRegistry

structure Config where
  suppressedLimit : Nat := 100
  allowOverriding : Bool := true

/--
A registry of instances. It is parametric in the code of early factories `ε` and of destroy handles
`δ`, which it only stores.
-/
structure Registry (ε δ : Type) where
  cache : Cache ε
  marks : Marks
  graph : Graph
  handles : Table δ
  aliases : AliasTable
  resolver : Option (Name → Name)
  suppressedLimit : Nat

inductive Lookup (ε : Type) where
  | found (inst : Instance)
  | absent
  | consult (code : ε)

structure Creation where
  name : Name
  -- false if the name was exempt when the creation started
  marks : Bool
  -- true for the outermost creation, to which suppressed errors belong
  collects : Bool

inductive Admission (ε δ : Type) where
  | ready (inst : Instance)
  | refused (error : RegistryError)
  | started (creation : Creation) (registry : Registry ε δ)

namespace Registry

variable {ε δ : Type}

def empty (config : Config) (resolver : Option (Name → Name)) : Registry ε δ where
  cache := .empty
  marks := .empty
  graph := .empty
  handles := ∅
  aliases := .empty config.allowOverriding
  resolver := resolver
  suppressedLimit := config.suppressedLimit

def resolve (r : Registry ε δ) (n : Name) : Name :=
  match r.resolver with
  | some f => f n
  | none => r.aliases.canonical n

def lookup (r : Registry ε δ) (n : Name) (allowEarly : Bool) : Lookup ε :=
  match r.cache.ready.find? n with
  | some i => .found i
  | none =>
    if r.marks.isMarked n then
      match r.cache.slots.find? n with
      | some (.early i) => .found i
      | some (.pending code) => if allowEarly then .consult code else .absent
      | none => .absent
    else
      .absent

def startCreation (r : Registry ε δ) (n : Name) : Admission ε δ :=
  match r.cache.ready.find? n with
  | some i => .ready i
  | none =>
    if r.cache.destroying then
      .refused (.creationDuringDestruction n)
    else
      match r.marks.mark n with
      | none => .refused (.currentlyInCreation n)
      | some marks =>
        .started ⟨n, !decide (n ∈ r.marks.exempt), r.cache.window.isNone⟩
          { r with
            marks := marks
            cache := { r.cache with window := some (r.cache.window.getD []) } }

def closeWindow (r : Registry ε δ) (c : Creation) : Registry ε δ :=
  if c.collects then { r with cache := { r.cache with window := none } } else r

def collected (r : Registry ε δ) (c : Creation) : List Failure :=
  if c.collects then r.cache.window.getD [] else []

def unmark (r : Registry ε δ) (n : Name) : Registry ε δ :=
  { r with marks := (r.marks.unmark n).getD r.marks }

def discardUnready (r : Registry ε δ) (n : Name) : Registry ε δ :=
  if r.cache.ready.contains n then r else { r with cache := r.cache.discard n }

/--
End a creation whose factory has returned. An instance is published. An error is the answer unless
the name became ready in the meantime. A mark that was lost is an error in either case.
-/
def conclude (r : Registry ε δ) (c : Creation) (result : Except CreationError Instance) :
    Except RegistryError Instance × Registry ε δ :=
  let closed := r.closeWindow c
  let ended := closed.unmark c.name
  let lost := (closed.marks.unmark c.name).isNone
  match result with
  | .ok i =>
    if lost then
      (.error (.notInCreation c.name), ended)
    else
      (.ok i, { ended with cache := ended.cache.publish c.name i })
  | .error e =>
    let answer : Except RegistryError Instance :=
      if lost then
        .error (.notInCreation c.name)
      else
        match ended.cache.ready.find? c.name with
        | some i => .ok i
        | none => .error (.creationFailed c.name e (r.collected c))
    (answer, ended.discardUnready c.name)

def rollback (r : Registry ε δ) (c : Creation) : List LogEvent × Registry ε δ :=
  let lost := (r.marks.unmark c.name).isNone
  (.rolledBack c.name :: (if lost then [.refused (.notInCreation c.name)] else []),
    ((r.unmark c.name).closeWindow c).discardUnready c.name)

def detach (r : Registry ε δ) (n : Name) : Option δ × Registry ε δ :=
  (r.handles.find? n,
    { r with
      cache := r.cache.remove n
      handles := r.handles.erase n })

def wipe (r : Registry ε δ) : Registry ε δ :=
  { r with
    graph := .empty
    cache := r.cache.clear }

end Registry

end InstanceRegistry
