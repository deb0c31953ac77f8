import InstanceRegistry.Alias
import Mathlib.Data.List.Perm.Subperm
import Mathlib.Logic.Relation

/-!
This module contains what a name stands for and which aliases stand for it, said by links alone: the
chain of a name holds what can be reached from it, and the aliases that are collected for a name are
those that it can be reached from.
-/

namespace InstanceRegistry

namespace AliasTable

open Relation

def Link (targets : Table Name) (nick name : Name) : Prop :=
  targets.find? nick = some name

def StandsFor (targets : Table Name) (nick name : Name) : Prop :=
  TransGen (Link targets) nick name

variable {targets : Table Name} {n m k x : Name}

theorem Link.eq (h : Link targets n m) (hk : Link targets n k) : m = k := by
  unfold Link at h hk
  rwa [h, Option.some.injEq] at hk

theorem link_erase : Link (targets.erase k) n m ↔ n ≠ k ∧ Link targets n m := by
  unfold Link
  rw [Table.find?_erase]
  split
  · next h => simp [h]
  · next h => simp [h]

theorem link_insert : Link (targets.insert k x) n m ↔ n = k ∧ m = x ∨ n ≠ k ∧ Link targets n m := by
  unfold Link
  rw [Table.find?_insert]
  split
  · next h => simp [h, eq_comm]
  · next h => simp [h]

theorem link_iff_mem : Link targets n m ↔ (n, m) ∈ targets.entries := by
  constructor
  · intro h
    rw [(Table.entries_perm_of_find?_eq_some h).mem_iff]
    exact List.mem_cons_self
  · intro h
    exact Table.find?_of_mem_entries h

theorem not_standsFor (h : targets.find? n = none) : ¬ StandsFor targets n m := by
  intro hm
  unfold StandsFor at hm
  rw [TransGen.head'_iff] at hm
  obtain ⟨k, hk, _⟩ := hm
  rw [Link, h] at hk
  cases hk

theorem standsFor_iff (h : Link targets n m) :
    StandsFor targets n x ↔ x = m ∨ StandsFor targets m x := by
  unfold StandsFor
  rw [TransGen.head'_iff, ← reflTransGen_iff_eq_or_transGen]
  constructor
  · intro hx
    obtain ⟨k, hk, hx⟩ := hx
    rwa [h.eq hk]
  · intro hx
    exact ⟨m, h, hx⟩

theorem StandsFor.of_erase (h : StandsFor (targets.erase k) n m) : StandsFor targets n m :=
  TransGen.mono (fun _ _ hlink => (link_erase.mp hlink).2) _ _ h

theorem StandsFor.erase (h : StandsFor targets m x) (hn : Link targets n m) :
    x = m ∨ StandsFor (targets.erase n) m x := by
  induction h with
  | @single x hx =>
    by_cases hm : m = n
    · rw [hm] at hx
      exact Or.inl (hx.eq hn)
    · exact Or.inr (.single (link_erase.mpr ⟨hm, hx⟩))
  | @tail k x _ hx ih =>
    by_cases hk : k = n
    · rw [hk] at hx
      exact Or.inl (hx.eq hn)
    · have hx := link_erase.mpr ⟨hk, hx⟩
      cases ih with
      | inl hkm =>
        rw [hkm] at hx
        exact Or.inr (.single hx)
      | inr ih => exact Or.inr (ih.tail hx)

theorem mem_chain_iff : m ∈ chain targets n ↔ StandsFor targets n m := by
  fun_induction chain targets n with
  | case1 targets n h => simp [not_standsFor h]
  | case2 targets n k h ih =>
    rw [List.mem_cons, ih, standsFor_iff h]
    constructor
    · exact Or.imp id StandsFor.of_erase
    · intro hm
      cases hm with
      | inl hm => exact Or.inl hm
      | inr hm => exact hm.erase h

theorem length_chain_le : (chain targets n).length ≤ targets.size := by
  fun_induction chain targets n with
  | case1 targets n h => exact Nat.zero_le _
  | case2 targets n k h ih =>
    have hlt := Table.size_erase_lt h
    rw [List.length_cons]
    omega

theorem hasAlias_iff {t : AliasTable} : t.hasAlias n m = true ↔ StandsFor t.targets m n := by
  rw [hasAlias, decide_eq_true_eq, mem_chain_iff]

section Collect

variable {links : List (Name × Name)} {names : List Name}

theorem mem_sources : x ∈ sources links n ↔ (x, n) ∈ links := by
  simp [sources]

theorem mem_others : (x, m) ∈ others links n ↔ (x, m) ∈ links ∧ m ≠ n := by
  simp [others]

theorem transGen_others (h : TransGen (fun a b => (a, b) ∈ links) x m) :
    TransGen (fun a b => (a, b) ∈ others links n) x m ∨
      ∃ a ∈ sources links n, x = a ∨ TransGen (fun a b => (a, b) ∈ others links n) x a := by
  induction h with
  | @single m hm =>
    by_cases hn : m = n
    · rw [hn] at hm
      exact Or.inr ⟨x, mem_sources.mpr hm, Or.inl rfl⟩
    · exact Or.inl (.single (mem_others.mpr ⟨hm, hn⟩))
  | @tail k m _ hm ih =>
    cases ih with
    | inl ih =>
      by_cases hn : m = n
      · rw [hn] at hm
        exact Or.inr ⟨k, mem_sources.mpr hm, Or.inr ih⟩
      · exact Or.inl (ih.tail (mem_others.mpr ⟨hm, hn⟩))
    | inr ih => exact Or.inr ih

theorem not_transGen_others : ¬ TransGen (fun a b => (a, b) ∈ others links n) x n := by
  intro h
  rw [TransGen.tail'_iff] at h
  obtain ⟨k, _, hk⟩ := h
  exact (mem_others.mp hk).2 rfl

theorem mem_collect_iff :
    x ∈ collect links names ↔ ∃ n ∈ names, TransGen (fun a b => (a, b) ∈ links) x n := by
  fun_induction collect links names with
  | case1 links => simp
  | case2 links n names ih =>
    have hmono : ∀ {m}, TransGen (fun a b => (a, b) ∈ others links n) x m →
        TransGen (fun a b => (a, b) ∈ links) x m :=
      fun {m} => TransGen.mono (fun a b hab => (mem_others.mp hab).1) x m
    rw [List.mem_append, ih]
    constructor
    · intro h
      cases h with
      | inl hx => exact ⟨n, List.mem_cons_self, .single (mem_sources.mp hx)⟩
      | inr h =>
        obtain ⟨m, hm, hx⟩ := h
        rw [List.mem_append] at hm
        cases hm with
        | inl hm => exact ⟨n, List.mem_cons_self, (hmono hx).tail (mem_sources.mp hm)⟩
        | inr hm => exact ⟨m, List.mem_cons_of_mem n hm, hmono hx⟩
    · intro h
      obtain ⟨m, hm, hx⟩ := h
      cases transGen_others hx with
      | inl hx =>
        rw [List.mem_cons] at hm
        cases hm with
        | inl hm =>
          rw [hm] at hx
          exact absurd hx not_transGen_others
        | inr hm => exact Or.inr ⟨m, List.mem_append_right _ hm, hx⟩
      | inr hsource =>
        obtain ⟨a, ha, hx⟩ := hsource
        cases hx with
        | inl hx =>
          rw [hx]
          exact Or.inl ha
        | inr hx => exact Or.inr ⟨a, List.mem_append_left _ ha, hx⟩

theorem collect_subperm : (collect links names).Subperm (links.map (·.1)) := by
  fun_induction collect links names with
  | case1 links => exact List.nil_subperm
  | case2 links n names ih =>
    have hperm : (sources links n ++ (others links n).map (·.1)).Perm (links.map (·.1)) := by
      rw [sources, others, ← List.map_append]
      apply List.Perm.map
      simpa using List.filter_append_perm (·.2 = n) links
    exact ((List.subperm_append_left _).mpr ih).trans hperm.subperm

theorem nodup_collect (h : (links.map (·.1)).Nodup) : (collect links names).Nodup := by
  obtain ⟨gathered, hperm, hsublist⟩ : (collect links names).Subperm _ := collect_subperm
  exact hperm.nodup_iff.mp (h.sublist hsublist)

end Collect

theorem mem_collect_entries_iff :
    x ∈ collect targets.entries [n] ↔ StandsFor targets x n := by
  have hlink : Link targets = fun a b => (a, b) ∈ targets.entries := by
    funext a b
    rw [link_iff_mem]
  rw [mem_collect_iff, StandsFor, hlink]
  simp

end AliasTable

end InstanceRegistry
