import InstanceRegistry.Registry

/-!
This module contains the operations of a registry that run no client code: what each of them
answers, how it changes the registry and what it reports.
-/

namespace InstanceRegistry

inductive Operation where
  | register (name : Name) (inst : Instance)
  | suppress (failure : Failure)
  | remove (name : Name)
  | clear
  | contains (name : Name)
  | names
  | count
  | inDestruction
  | setInCreation (name : Name) (value : Bool)
  -- answered with whether the name is marked and not exempt, and whether it is marked
  | inCreation (name : Name)
  | contain (inner outer : Name)
  | depend (on dependent : Name)
  | isDependent (on dependent : Name)
  | isDependentVia (resolve : Name → Name) (on dependent : Name)
  | hasDependent (name : Name)
  | dependents (name : Name)
  | dependencies (name : Name)
  | contained (name : Name)
  | graphIsEmpty
  | removeEdges (name : Name)
  | addAlias (name nick : Name)
  | removeAlias (nick : Name)
  | isAlias (name : Name)
  | hasAlias (name nick : Name)
  | aliases (name : Name)
  | canonical (name : Name)

abbrev Operation.Answer : Operation → Type
  | register _ _ => Except RegistryError Unit
  | suppress _ => Unit
  | remove _ => Unit
  | clear => Unit
  | contains _ => Bool
  | names => List Name
  | count => Nat
  | inDestruction => Bool
  | setInCreation _ _ => Unit
  | inCreation _ => Bool × Bool
  | contain _ _ => Unit
  | depend _ _ => Unit
  | isDependent _ _ => Bool
  | isDependentVia _ _ _ => Bool
  | hasDependent _ => Bool
  | dependents _ => List Name
  | dependencies _ => List Name
  | contained _ => List Name
  | graphIsEmpty => Bool
  | removeEdges _ => Unit
  | addAlias _ _ => Except AliasError Unit
  | removeAlias _ => Except AliasError Unit
  | isAlias _ => Bool
  | hasAlias _ _ => Bool
  | aliases _ => List Name
  | canonical _ => Name

structure Performed (ε δ α : Type) where
  answer : α
  events : List LogEvent
  registry : Registry ε δ

namespace Registry

variable {ε δ : Type}

def answering {α : Type} (r : Registry ε δ) (answer : α) : Performed ε δ α :=
  ⟨answer, [], r⟩

def register (r : Registry ε δ) (n : Name) (i : Instance) :
    Performed ε δ (Except RegistryError Unit) :=
  match r.cache.register n i with
  | .error e => ⟨.error e, [.refused e], r⟩
  | .ok cache => ⟨.ok (), [], { r with cache }⟩

def addAlias (r : Registry ε δ) (name nick : Name) : Performed ε δ (Except AliasError Unit) :=
  match r.aliases.register name nick with
  | .error e => ⟨.error e, [.aliasRefused e], r⟩
  | .ok aliases => ⟨.ok (), [], { r with aliases }⟩

def removeAlias (r : Registry ε δ) (nick : Name) : Performed ε δ (Except AliasError Unit) :=
  match r.aliases.remove nick with
  | .error e => r.answering (.error e)
  | .ok aliases => ⟨.ok (), [], { r with aliases }⟩

def perform (r : Registry ε δ) : (o : Operation) → Performed ε δ o.Answer
  | .register n i => r.register n i
  | .suppress f => ⟨(), [], { r with cache := r.cache.suppress r.suppressedLimit f }⟩
  | .remove n => ⟨(), [], { r with cache := r.cache.remove n }⟩
  | .clear => ⟨(), [], { r with cache := r.cache.clear }⟩
  | .contains n => r.answering (r.cache.ready.contains n)
  | .names => r.answering r.cache.listed.toList
  | .count => r.answering r.cache.listed.size
  | .inDestruction => r.answering r.cache.destroying
  | .setInCreation n b => ⟨(), [], { r with marks := r.marks.setInCreation n b }⟩
  | .inCreation n => r.answering (r.marks.inCreation n, r.marks.isMarked n)
  | .contain inner outer => ⟨(), [], { r with graph := r.graph.contain r.resolve inner outer }⟩
  | .depend on dependent => ⟨(), [], { r with graph := r.graph.depend r.resolve on dependent }⟩
  | .isDependent on dependent => r.answering (r.graph.isDependent r.resolve on dependent)
  | .isDependentVia resolve on dependent => r.answering (r.graph.isDependent resolve on dependent)
  | .hasDependent n => r.answering (r.graph.hasDependent n)
  | .dependents n => r.answering (r.graph.dependents.of n).toList
  | .dependencies n => r.answering (r.graph.dependencies.of n).toList
  | .contained n => r.answering (r.graph.contained.of n).toList
  | .graphIsEmpty => r.answering r.graph.isEmpty
  | .removeEdges n => ⟨(), [], { r with graph := r.graph.removeAll n }⟩
  | .addAlias name nick => r.addAlias name nick
  | .removeAlias nick => r.removeAlias nick
  | .isAlias n => r.answering (r.aliases.isAlias n)
  | .hasAlias name nick => r.answering (r.aliases.hasAlias name nick)
  | .aliases n => r.answering (r.aliases.aliases n)
  | .canonical n => r.answering (r.resolve n)

end Registry

end InstanceRegistry
