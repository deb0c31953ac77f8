import InstanceRegistry.Table

/-!
This module contains the edges between registered names: which names depend on a name, and which
names a name contains. They decide in which order instances are torn down.
-/

namespace InstanceRegistry

abbrev Edges := Table NameSet

namespace Edges

def of (e : Edges) (n : Name) : NameSet :=
  (e.find? n).getD ∅

def link (e : Edges) (n m : Name) : Edges :=
  e.insert n ((e.of n).insert m)

def scrub (e : Edges) (m : Name) : Edges :=
  ⟨(e.entries.map fun p => (p.1, p.2.erase m)).filter fun p => !p.2.isEmpty, by
    apply List.Nodup.sublist (List.filter_sublist.map _)
    rw [List.map_map]
    exact e.nodup⟩

def count (e : Edges) : Nat :=
  (e.flatMap NameSet.toList).length

theorem count_erase (e : Edges) (n : Name) : count (e.erase n) + (e.of n).size = e.count := by
  cases h : e.find? n with
  | none =>
    rw [of, h, Table.erase_of_find?_eq_none h]
    rfl
  | some s =>
    have := (Table.flatMap_perm_of_find?_eq_some h NameSet.toList).length_eq
    simp only [of, h, Option.getD_some, NameSet.size, count, this, List.length_append]
    omega

theorem count_scrub_le (e : Edges) (m : Name) : (e.scrub m).count ≤ e.count := by
  simp only [count, scrub, Table.flatMap]
  induction e.entries with
  | nil => simp
  | cons p ps ih =>
    have : (p.2.erase m).toList.length ≤ p.2.toList.length := List.length_filter_le _ _
    rw [List.map_cons, List.filter_cons]
    split
    · simp only [List.flatMap_cons, List.length_append]
      omega
    · simp only [List.flatMap_cons, List.length_append]
      omega

/--
Whether the target can be reached from one of the given names in at least one step, where the edges
of a name are those of the name that it resolves to. The edges of every name are followed once.
-/
def reaches (e : Edges) (resolve : Name → Name) (target : Name) (names : List Name) : Bool :=
  match names with
  | [] => false
  | n :: names =>
    match _h : e.find? (resolve n) with
    | none => reaches e resolve target names
    | some direct =>
      if target ∈ direct then
        true
      else
        reaches (e.erase (resolve n)) resolve target (direct.toList ++ names)
termination_by (e.size, names.length)
decreasing_by
  · apply Prod.Lex.right
    simp
  · apply Prod.Lex.left
    exact Table.size_erase_lt _h

end Edges

structure Graph where
  contained : Edges
  dependents : Edges
  dependencies : Edges

namespace Graph

def empty : Graph :=
  ⟨∅, ∅, ∅⟩

def isEmpty (g : Graph) : Bool :=
  g.contained.isEmpty && g.dependents.isEmpty && g.dependencies.isEmpty

def depend (g : Graph) (resolve : Name → Name) (on dependent : Name) : Graph :=
  let owner := resolve on
  if dependent ∈ g.dependents.of owner then
    g
  else
    { g with
      dependents := g.dependents.link owner dependent
      dependencies := g.dependencies.link dependent owner }

def contain (g : Graph) (resolve : Name → Name) (inner outer : Name) : Graph :=
  if inner ∈ g.contained.of outer then
    g
  else
    { g with contained := g.contained.link outer inner }.depend resolve inner outer

def isDependent (g : Graph) (resolve : Name → Name) (on dependent : Name) : Bool :=
  g.dependents.reaches resolve dependent [on]

def hasDependent (g : Graph) (n : Name) : Bool :=
  g.dependents.contains n

def takeDependents (g : Graph) (n : Name) : List Name × Graph :=
  ((g.dependents.of n).toList, { g with dependents := g.dependents.erase n })

def takeContained (g : Graph) (n : Name) : List Name × Graph :=
  ((g.contained.of n).toList, { g with contained := g.contained.erase n })

def removeReferences (g : Graph) (n : Name) : Graph :=
  { g with
    dependents := g.dependents.scrub n
    dependencies := g.dependencies.erase n }

def removeAll (g : Graph) (n : Name) : Graph :=
  { g with dependents := g.dependents.erase n }.removeReferences n

end Graph

end InstanceRegistry
