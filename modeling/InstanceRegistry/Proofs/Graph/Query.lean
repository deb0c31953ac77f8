import InstanceRegistry.Proofs.Graph.Edges

/-!
This module contains what the question for a dependency answers. It follows the edges of what a name
resolves to, from one name to the next.
-/

namespace InstanceRegistry

variable {e : Edges} {resolve : Name → Name} {n m k target : Name} {direct : NameSet}

namespace Edges

def Follows (e : Edges) (resolve : Name → Name) (n m : Name) : Prop :=
  m ∈ e.of (resolve n)

abbrev PathVia (e : Edges) (resolve : Name → Name) : Name → Name → Prop :=
  Relation.TransGen (e.Follows resolve)

theorem follows_iff_mem (h : e.find? (resolve n) = some direct) :
    e.Follows resolve n m ↔ m ∈ direct := by
  unfold Follows of
  rw [h, Option.getD_some]

theorem not_follows (h : e.find? (resolve n) = none) : ¬ e.Follows resolve n m := by
  unfold Follows
  rw [of_eq_empty_of_find?_eq_none h]
  exact NameSet.not_mem_empty m

theorem follows_erase :
    Follows (e.erase k) resolve n m ↔ resolve n ≠ k ∧ e.Follows resolve n m := by
  unfold Follows
  rw [of_erase]
  split
  · next h => simp [h]
  · next h => simp [h]

theorem not_pathVia (h : e.find? (resolve n) = none) : ¬ e.PathVia resolve n target := by
  intro hpath
  obtain ⟨m, hstep, _⟩ := Relation.TransGen.head'_iff.mp hpath
  exact not_follows h hstep

theorem PathVia.of_erase (h : PathVia (e.erase k) resolve n target) :
    e.PathVia resolve n target := by
  apply Relation.TransGen.mono _ _ _ h
  intro n m hstep
  exact (follows_erase.mp hstep).2

theorem PathVia.erase (h : e.PathVia resolve m target)
    (hfind : e.find? (resolve n) = some direct) (htarget : ¬ target ∈ direct) :
    PathVia (e.erase (resolve n)) resolve m target ∨
      ∃ k ∈ direct, PathVia (e.erase (resolve n)) resolve k target := by
  induction h using Relation.TransGen.head_induction_on with
  | @single m hstep =>
    by_cases hm : resolve m = resolve n
    · rw [← hm] at hfind
      rw [follows_iff_mem hfind] at hstep
      contradiction
    · apply Or.inl
      exact .single (follows_erase.mpr ⟨hm, hstep⟩)
  | @head m k hstep _ ih =>
    cases ih with
    | inl hk =>
      by_cases hm : resolve m = resolve n
      · rw [← hm] at hfind
        rw [follows_iff_mem hfind] at hstep
        exact Or.inr ⟨k, hstep, hk⟩
      · apply Or.inl
        exact hk.head (follows_erase.mpr ⟨hm, hstep⟩)
    | inr hk => exact Or.inr hk

theorem pathVia_iff_exists_direct (hfind : e.find? (resolve n) = some direct)
    (htarget : ¬ target ∈ direct) : e.PathVia resolve n target ↔
      ∃ k ∈ direct, PathVia (e.erase (resolve n)) resolve k target := by
  constructor
  · intro h
    apply (h.erase hfind htarget).resolve_left
    apply not_pathVia
    rw [Table.find?_erase, if_pos rfl]
  · intro h
    obtain ⟨k, hk, h⟩ := h
    exact h.of_erase.head ((follows_iff_mem hfind).mpr hk)

theorem reaches_iff (e : Edges) (resolve : Name → Name) (target : Name) (names : List Name) :
    e.reaches resolve target names = true ↔ ∃ n ∈ names, e.PathVia resolve n target := by
  fun_induction reaches e resolve target names with
  | case1 => simp
  | case2 e n names hfind ih =>
    rw [ih]
    simp [not_pathVia hfind]
  | case3 e n names direct hfind htarget =>
    have hpath : e.PathVia resolve n target := .single ((follows_iff_mem hfind).mpr htarget)
    simp [hpath]
  | case4 e n names direct hfind htarget ih =>
    rw [ih]
    simp only [List.mem_append, List.mem_cons, NameSet.mem_toList, or_and_right, exists_or,
      exists_eq_left]
    rw [← pathVia_iff_exists_direct hfind htarget]
    constructor
    · intro h
      cases h with
      | inl h => exact Or.inl h
      | inr h =>
        obtain ⟨m, hm, h⟩ := h
        exact Or.inr ⟨m, hm, h.of_erase⟩
    · intro h
      cases h with
      | inl h => exact Or.inl h
      | inr h =>
        obtain ⟨m, hm, h⟩ := h
        -- a path that takes the edges of the name again can be cut down to its last part
        cases h.erase hfind htarget with
        | inl h => exact Or.inr ⟨m, hm, h⟩
        | inr h => exact Or.inl ((pathVia_iff_exists_direct hfind htarget).mpr h)

end Edges

theorem Graph.isDependent_iff {g : Graph} :
    g.isDependent resolve n m = true ↔ g.dependents.PathVia resolve n m := by
  unfold isDependent
  rw [Edges.reaches_iff]
  simp

end InstanceRegistry
