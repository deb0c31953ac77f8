import InstanceRegistry.Machine.Run
import InstanceRegistry.Scenario.Play
import InstanceRegistry.Scenario.Trace

/-!
This module contains what comes out of a scenario: its trace, and a summary of the registry that it
leaves.
-/

namespace InstanceRegistry

structure NameSummary where
  name : Name
  canonical : Name
  contains : Bool
  inst : Option Instance
  inCreation : Bool
  isMarked : Bool
  hasDependent : Bool
  dependents : List Name
  dependencies : List Name
  contained : List Name

structure Summary where
  names : List Name
  count : Nat
  inDestruction : Bool
  graphIsEmpty : Bool
  about : List NameSummary

namespace Registry

variable {ε δ : Type}

def about (r : Registry ε δ) (n : Name) : NameSummary where
  name := n
  canonical := r.resolve n
  contains := r.cache.ready.contains n
  inst :=
    match r.lookup n false with
    | .found i => some i
    | _ => none
  inCreation := r.marks.inCreation n
  isMarked := r.marks.isMarked n
  hasDependent := r.graph.hasDependent n
  dependents := (r.graph.dependents.of n).toList
  dependencies := (r.graph.dependencies.of n).toList
  contained := (r.graph.contained.of n).toList

def summary (r : Registry ε δ) (names : List Name) : Summary where
  names := r.cache.listed.toList
  count := r.cache.listed.size
  inDestruction := r.cache.destroying
  graphIsEmpty := r.graph.isEmpty
  about := names.map r.about

end Registry

namespace Scenario

structure Report where
  trace : List Placed
  summary : Summary

def world (s : Scenario) : World player where
  registry := .empty s.config s.resolver
  state := .start
  history := []
  tickets := 0

def final (s : Scenario) : World player :=
  (Machine.start s.world (playEach s.steps)).run.world

def report (s : Scenario) : Report :=
  let w := s.final
  { trace := trace [] w.history.reverse
    summary := w.registry.summary (Name.sort w.state.touched.toList) }

end Scenario

end InstanceRegistry
