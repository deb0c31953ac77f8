import InstanceRegistry.Graph
import Mathlib.Logic.Relation

/-!
This module contains what the operations on edges do to the set of each name, and the names that can
be reached along the edges of a graph.
-/

namespace InstanceRegistry

namespace Edges

theorem mem_of_iff {e : Edges} {n m : Name} : m ∈ e.of n ↔ ∃ s, e.find? n = some s ∧ m ∈ s := by
  unfold of
  cases h : e.find? n with
  | none => simp
  | some s => simp

theorem of_eq_empty_of_find?_eq_none {e : Edges} {n : Name} (h : e.find? n = none) :
    e.of n = ∅ := by
  rw [of, h]
  rfl

theorem of_erase (e : Edges) (n m : Name) :
    Edges.of (e.erase n) m = if m = n then ∅ else e.of m := by
  unfold of
  rw [Table.find?_erase]
  split
  · rfl
  · rfl

theorem mem_of_erase {e : Edges} {n m d : Name} :
    d ∈ Edges.of (e.erase n) m ↔ d ∈ e.of m ∧ m ≠ n := by
  rw [of_erase]
  split
  · next hm => simp [hm]
  · next hm => simp [hm]

@[simp]
theorem of_empty (n : Name) : Edges.of ∅ n = ∅ :=
  rfl

@[simp]
theorem mem_of_link {e : Edges} {n m k d : Name} :
    d ∈ Edges.of (e.link n m) k ↔ d ∈ e.of k ∨ k = n ∧ d = m := by
  unfold link
  rw [mem_of_iff, Table.find?_insert]
  by_cases hk : k = n
  · simp [hk]
  · simp [hk, ← mem_of_iff]

theorem lookup_scrub (n m : Name) (es : List (Name × NameSet)) (h : (es.map (·.1)).Nodup) :
    Table.lookup n ((es.map fun p => (p.1, p.2.erase m)).filter fun p => !p.2.isEmpty) =
      (Table.lookup n es).bind fun s => if (s.erase m).isEmpty then none else some (s.erase m) := by
  induction es with
  | nil => rfl
  | cons p es ih =>
    rw [List.map_cons, List.nodup_cons] at h
    rw [List.map_cons, List.filter_cons, Table.lookup]
    by_cases hp : p.1 = n
    · -- the keys are distinct, so a set that is dropped leaves no entry for its name
      have hrest : Table.lookup n es = none := by
        rw [Table.lookup_eq_none_iff, ← hp]
        exact h.1
      by_cases hempty : (p.2.erase m).isEmpty = true
      · simp [hp, hempty, ih h.2, hrest]
      · simp [hp, hempty, Table.lookup]
    · rw [if_neg hp, ← ih h.2]
      split
      · rw [Table.lookup, if_neg hp]
      · rfl

theorem find?_scrub (e : Edges) (n m : Name) :
    (e.scrub m).find? n =
      (e.find? n).bind fun s => if (s.erase m).isEmpty then none else some (s.erase m) := by
  apply lookup_scrub
  exact e.nodup

theorem find?_scrub_eq_none {e : Edges} {n : Name} (h : e.find? n = none) (m : Name) :
    (e.scrub m).find? n = none := by
  rw [find?_scrub, h]
  rfl

theorem toList_of_scrub (e : Edges) (n m : Name) :
    (Edges.of (e.scrub m) n).toList = (e.of n).toList.filter (· ≠ m) := by
  unfold of
  rw [find?_scrub]
  cases e.find? n with
  | none => rfl
  | some s =>
    rw [Option.bind_some, Option.getD_some]
    split
    · next hempty =>
      rw [NameSet.isEmpty_iff] at hempty
      rw [← NameSet.toList_erase, hempty]
      rfl
    · rfl

theorem mem_of_scrub {e : Edges} {n m d : Name} :
    d ∈ Edges.of (e.scrub m) n ↔ d ∈ e.of n ∧ d ≠ m := by
  rw [← NameSet.mem_toList, toList_of_scrub, List.mem_filter, NameSet.mem_toList]
  simp

end Edges

namespace Graph

def Drags (g : Graph) (n m : Name) : Prop :=
  m ∈ g.dependents.of n ∨ m ∈ g.contained.of n

abbrev Closure (g : Graph) : Name → Name → Prop :=
  Relation.ReflTransGen g.Drags

abbrev Path (g : Graph) : Name → Name → Prop :=
  Relation.TransGen fun n m => m ∈ g.dependents.of n

theorem acyclic_of_rank {g : Graph} (rank : Name → Nat)
    (h : ∀ n m, m ∈ g.dependents.of n → rank m < rank n) (n : Name) : ¬ g.Path n n := by
  have hpath : ∀ m, g.Path n m → rank m < rank n := by
    intro m hm
    induction hm with
    | single hedge => exact h _ _ hedge
    | tail _ hedge ih => exact Nat.lt_trans (h _ _ hedge) ih
  intro hn
  exact Nat.lt_irrefl _ (hpath n hn)

end Graph

end InstanceRegistry
