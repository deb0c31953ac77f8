import InstanceRegistry.Proofs.Alias.Walks

/-!
This module contains that the walks along the links of an alias table and the walk against them
agree: the aliases that are gathered for a name are those that stand for it, and for a name that is
no alias they are those that are resolved to it (`AliasTable.aliases_agree`).
-/

namespace InstanceRegistry

theorem Name.pairwise_lt_sort {names : List Name} (h : names.Nodup) :
    (sort names).Pairwise (· < ·) := by
  have hnodup : (sort names).Nodup := (List.mergeSort_perm ..).nodup_iff.mpr h
  apply ((pairwise_sort names).and hnodup).imp
  intro n m hnm
  obtain ⟨hle, hne⟩ := hnm
  rw [decide_eq_true_eq] at hle
  apply Decidable.byContradiction
  intro hlt
  exact hne (String.le_antisymm hle (String.not_lt.mp hlt))

namespace AliasTable

open Relation

variable {t : AliasTable} {n x : Name}

theorem mem_aliases_iff : x ∈ t.aliases n ↔ t.hasAlias n x = true := by
  unfold aliases
  rw [Name.mem_sort, mem_collect_entries_iff, hasAlias_iff]

theorem canonical_of_hasAlias (h : Acyclic t.targets) (hx : t.hasAlias n x = true) :
    t.canonical x = t.canonical n := by
  have hwalk : Resolves t.targets n (t.canonical n) := (resolves_iff h).mpr rfl
  rw [hasAlias_iff] at hx
  exact ((resolves_iff h).mp (hwalk.of_reflTransGen hx.to_reflTransGen)).symm

theorem hasAlias_iff_canonical_eq (h : Acyclic t.targets) (hn : t.isAlias n = false) :
    t.hasAlias n x = true ↔ x ≠ n ∧ t.canonical x = n := by
  have hfind : t.targets.find? n = none := by simpa [isAlias, Table.contains] using hn
  constructor
  · intro hx
    constructor
    · rintro rfl
      exact h x (hasAlias_iff.mp hx)
    · rw [canonical_of_hasAlias h hx, canonical_of_find?_eq_none hfind]
  · rintro ⟨hne, hx⟩
    have hreach : ReflTransGen (Link t.targets) x n := ((resolves_iff h).mpr hx.symm).reflTransGen
    rw [hasAlias_iff]
    exact (reflTransGen_iff_eq_or_transGen.mp hreach).resolve_left (Ne.symm hne)

/--
In whatever order the links are gone through, the same aliases are gathered for a name. They are
listed in strictly ascending order, and they are those that stand for the name. What stands for a
name is resolved to the same name as it, and if the name is no alias, then what stands for it is
everything else that is resolved to it.
-/
theorem aliases_agree (ht : t.Reachable) (n : Name) :
    (∀ links, links.Perm t.targets.entries → ∀ names,
      (∃ gathered, Gathers links links n gathered ∧ names = Name.sort gathered) ↔
        names = t.aliases n) ∧
    (t.aliases n).Pairwise (· < ·) ∧
    (∀ x, x ∈ t.aliases n ↔ t.hasAlias n x = true) ∧
    (∀ x, t.hasAlias n x = true → t.canonical x = t.canonical n) ∧
    (t.isAlias n = false → ∀ x, x ∈ t.aliases n ↔ x ≠ n ∧ t.canonical x = n) := by
  have h := ht.acyclic
  refine ⟨?_, ?_, ?_, ?_, ?_⟩
  · intro links hperm names
    exact gathers_iff h hperm
  · exact Name.pairwise_lt_sort (nodup_collect t.targets.nodup)
  · exact fun x => mem_aliases_iff
  · exact fun x => canonical_of_hasAlias h
  · intro hn x
    rw [mem_aliases_iff]
    exact hasAlias_iff_canonical_eq h hn

def fan : List AliasRequest :=
  [.register "k" "b", .register "k" "a", .register "a" "c"]

theorem aliases_of_fan : (built true fan).Reachable ∧ (built true fan).isAlias "k" = false ∧
    (∃ gathered, Gathers [("c", "a"), ("a", "k"), ("b", "k")] [("c", "a"), ("a", "k"), ("b", "k")]
      "k" gathered ∧ ["a", "b", "c"] = Name.sort gathered) ∧
    ["a", "b", "c"].Pairwise (· < ·) ∧ (built true fan).canonical "c" = "k" := by
  have ht : (built true fan).Reachable := ⟨true, fan, rfl⟩
  have hk : (built true fan).isAlias "k" = false := by cbv
  have haliases : ["a", "b", "c"] = (built true fan).aliases "k" := by cbv
  obtain ⟨hgathers, hpairwise, _, _, hcanonical⟩ := aliases_agree ht "k"
  refine ⟨ht, hk, ?_, ?_, ?_⟩
  · rw [hgathers]
    · exact haliases
    · have hentries : (built true fan).targets.entries = [("b", "k"), ("a", "k"), ("c", "a")] := by
        cbv
      rw [hentries]
      exact List.reverse_perm [("b", "k"), ("a", "k"), ("c", "a")]
  · rwa [haliases]
  · have hc : "c" ∈ (built true fan).aliases "k" := by
      rw [← haliases]
      decide
    exact ((hcanonical hk "c").mp hc).2

end AliasTable

end InstanceRegistry
