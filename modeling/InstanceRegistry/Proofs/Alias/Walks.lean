import InstanceRegistry.Proofs.Alias.Acyclic
import Mathlib.Data.List.Permutation

/-!
This module contains the walks along the links of an alias table, as they are without a bound: a
walk exists if it comes to its end. In a table without circles every walk does, and gives what the
table answers (`AliasTable.walks_of_requests`).
-/

namespace InstanceRegistry

namespace Name

theorem pairwise_sort (names : List Name) :
    (sort names).Pairwise fun n m => decide (n ≤ m) = true := by
  apply List.pairwise_mergeSort
  · simp only [decide_eq_true_eq]
    exact fun _ _ _ => String.le_trans
  · simp only [Bool.or_eq_true, decide_eq_true_eq]
    exact String.le_total

theorem sort_eq_of_perm {names names' : List Name} (h : names.Perm names') :
    sort names = sort names' := by
  apply List.Perm.eq_of_pairwise _ (pairwise_sort names) (pairwise_sort names')
  · exact (List.mergeSort_perm ..).trans (h.trans (List.mergeSort_perm ..).symm)
  · simp only [decide_eq_true_eq]
    exact fun _ _ _ _ => String.le_antisymm

end Name

namespace AliasTable

open Relation

inductive Resolves (targets : Table Name) : Name → Name → Prop
  | stop {n : Name} (h : targets.find? n = none) : Resolves targets n n
  | step {n m c : Name} (h : Link targets n m) (hm : Resolves targets m c) : Resolves targets n c

inductive Searches (targets : Table Name) (name : Name) : Name → Bool → Prop
  | stop {n : Name} (h : targets.find? n = none) : Searches targets name n false
  | meet {n : Name} (h : Link targets n name) : Searches targets name n true
  | step {n m : Name} {found : Bool} (h : Link targets n m) (hne : m ≠ name)
    (hm : Searches targets name m found) : Searches targets name n found

/--
The walk against the links goes through all of them, in the order in which they are listed, and
goes on from each alias that it finds before it looks at the next link.
-/
inductive Gathers (links : List (Name × Name)) : List (Name × Name) → Name → List Name → Prop
  | done {n : Name} : Gathers links [] n []
  | skip {nick name n : Name} {rest : List (Name × Name)} {names : List Name} (h : name ≠ n)
    (hrest : Gathers links rest n names) : Gathers links ((nick, name) :: rest) n names
  | take {nick n : Name} {rest : List (Name × Name)} {names names' : List Name}
    (hnick : Gathers links links nick names) (hrest : Gathers links rest n names') :
    Gathers links ((nick, n) :: rest) n (nick :: names ++ names')

variable {targets : Table Name} {t : AliasTable} {n m k c name nick : Name}

theorem erase_comm (targets : Table Name) (n m : Name) :
    (targets.erase n).erase m = (targets.erase m).erase n :=
  Table.ext (List.filter_comm ..)

theorem chain_erase (hne : n ≠ k) (h : ¬ StandsFor targets n k) :
    chain (targets.erase k) n = chain targets n := by
  fun_induction chain targets n with
  | case1 targets n hn =>
    apply chain_of_find?_eq_none
    rw [Table.find?_erase, hn, ite_self]
  | case2 targets n m hm ih =>
    have hlink : Link targets n m := hm
    rw [standsFor_iff hlink, not_or] at h
    have hm' : (targets.erase k).find? n = some m := link_erase.mpr ⟨hne, hm⟩
    rw [chain_of_find?_eq_some hm', erase_comm, ih]
    · exact Ne.symm h.1
    · intro hk
      exact h.2 hk.of_erase

theorem chain_of_link (h : Acyclic targets) (hlink : Link targets n m) :
    chain targets n = m :: chain targets m := by
  rw [chain_of_find?_eq_some hlink, chain_erase]
  · rintro rfl
    exact h m (.single hlink)
  · intro hm
    apply h n
    rw [standsFor_iff hlink]
    exact Or.inr hm

theorem wellFounded_forward (h : Acyclic targets) :
    WellFounded fun m n => Link targets n m := by
  apply Subrelation.wf _ (measure fun n => (chain targets n).length).wf
  intro m n hlink
  show (chain targets m).length < (chain targets n).length
  rw [chain_of_link h hlink]
  exact Nat.lt_succ_self _

theorem wellFounded_backward (h : Acyclic targets) : WellFounded (Link targets) := by
  apply Subrelation.wf _ (measure fun n => targets.size - (chain targets n).length).wf
  intro n m hlink
  show targets.size - (chain targets n).length < targets.size - (chain targets m).length
  have hle : (chain targets n).length ≤ targets.size := length_chain_le
  rw [chain_of_link h hlink, List.length_cons] at hle ⊢
  omega

theorem canonical_of_find?_eq_none (h : t.targets.find? n = none) : t.canonical n = n := by
  unfold canonical
  rw [chain_of_find?_eq_none h]
  rfl

theorem canonical_of_link (h : Acyclic t.targets) (hlink : Link t.targets n m) :
    t.canonical n = t.canonical m := by
  unfold canonical
  rw [chain_of_link h hlink, List.getLastD_cons]

theorem resolves_iff (h : Acyclic t.targets) : Resolves t.targets n c ↔ c = t.canonical n := by
  constructor
  · intro hwalk
    induction hwalk with
    | stop hn => exact (canonical_of_find?_eq_none hn).symm
    | step hlink _ ih => rw [canonical_of_link h hlink, ih]
  · rintro rfl
    induction n using (wellFounded_forward h).induction with
    | _ n ih =>
      cases hn : t.targets.find? n with
      | none =>
        rw [canonical_of_find?_eq_none hn]
        exact .stop hn
      | some m =>
        rw [canonical_of_link h hn]
        exact .step hn (ih m hn)

theorem Resolves.find?_eq_none (h : Resolves targets n c) : targets.find? c = none := by
  induction h with
  | stop hn => exact hn
  | step _ _ ih => exact ih

theorem Resolves.of_reflTransGen (h : Resolves targets m c) (hn : ReflTransGen (Link targets) n m) :
    Resolves targets n c := by
  induction hn using ReflTransGen.head_induction_on with
  | refl => exact h
  | head hlink _ ih => exact .step hlink ih

theorem Resolves.reflTransGen (h : Resolves targets n c) : ReflTransGen (Link targets) n c := by
  induction h with
  | stop => exact .refl
  | step hlink _ ih => exact ih.head hlink

theorem hasAlias_of_find?_eq_none (h : t.targets.find? nick = none) :
    t.hasAlias name nick = false := by
  unfold hasAlias
  rw [chain_of_find?_eq_none h]
  rfl

theorem hasAlias_of_link (h : Acyclic t.targets) (hlink : Link t.targets nick m) :
    t.hasAlias name nick = (decide (m = name) || t.hasAlias name m) := by
  unfold hasAlias
  rw [chain_of_link h hlink]
  simp [eq_comm]

theorem searches_iff (h : Acyclic t.targets) {found : Bool} :
    Searches t.targets name nick found ↔ found = t.hasAlias name nick := by
  constructor
  · intro hwalk
    induction hwalk with
    | stop hn => exact (hasAlias_of_find?_eq_none hn).symm
    | meet hlink => simp [hasAlias_of_link h hlink]
    | step hlink hne _ ih => simp [hasAlias_of_link h hlink, hne, ih]
  · rintro rfl
    induction nick using (wellFounded_forward h).induction with
    | _ n ih =>
      cases hn : t.targets.find? n with
      | none =>
        rw [hasAlias_of_find?_eq_none hn]
        exact .stop hn
      | some m =>
        rw [hasAlias_of_link h hn]
        by_cases hm : m = name
        · rw [hm] at hn
          simpa [hm] using Searches.meet hn
        · simpa [hm] using Searches.step hn hm (ih m hn)

section Gathers

variable {links rest : List (Name × Name)} {names : List Name} {x : Name}

theorem exists_gathers (h : Acyclic targets) (hlinks : ∀ e ∈ links, Link targets e.1 e.2)
    (n : Name) : ∃ names, Gathers links links n names := by
  induction n using (wellFounded_backward h).induction with
  | _ n ih =>
    have hrest : ∀ rest, rest ⊆ links → ∃ names, Gathers links rest n names := by
      intro rest hrest
      induction rest with
      | nil => exact ⟨[], .done⟩
      | cons e rest ihrest =>
        rw [List.cons_subset] at hrest
        obtain ⟨names', hnames'⟩ := ihrest hrest.2
        obtain ⟨nick, name⟩ := e
        by_cases hn : name = n
        · subst hn
          obtain ⟨names, hnames⟩ := ih nick (hlinks _ hrest.1)
          exact ⟨_, .take hnames hnames'⟩
        · exact ⟨names', .skip hn hnames'⟩
    exact hrest links (List.Subset.refl _)

theorem mem_cons_iff (h : x ∈ names ↔ ∃ a, (a, nick) ∈ links ∧ ReflTransGen (Link targets) x a)
    (hlinks : ∀ a b, (a, b) ∈ links ↔ Link targets a b) :
    x ∈ nick :: names ↔ ReflTransGen (Link targets) x nick := by
  rw [List.mem_cons, h, reflTransGen_iff_eq_or_transGen, TransGen.tail'_iff, eq_comm]
  simp only [hlinks, and_comm]

theorem Gathers.mem_iff (h : Gathers links rest n names)
    (hlinks : ∀ a b, (a, b) ∈ links ↔ Link targets a b) :
    x ∈ names ↔ ∃ a, (a, n) ∈ rest ∧ ReflTransGen (Link targets) x a := by
  induction h with
  | done => simp
  | skip hne _ ih =>
    rw [ih]
    simp [Ne.symm hne]
  | @take nick n rest names names' _ _ ihnick ih =>
    rw [List.mem_append, mem_cons_iff ihnick hlinks, ih]
    constructor
    · rintro (hx | ⟨a, ha, hx⟩)
      · exact ⟨nick, List.mem_cons_self, hx⟩
      · exact ⟨a, List.mem_cons_of_mem _ ha, hx⟩
    · rintro ⟨a, ha, hx⟩
      cases ha with
      | head => exact Or.inl hx
      | tail _ ha => exact Or.inr ⟨a, ha, hx⟩

theorem rightUnique_link : Relator.RightUnique (Link targets) :=
  fun _ _ _ => Link.eq

theorem eq_of_reflTransGen {a b : Name} (h : Acyclic targets) (ha : Link targets a n)
    (hb : Link targets b n) (hab : ReflTransGen (Link targets) a b) : a = b := by
  rw [reflTransGen_iff_eq_or_transGen] at hab
  cases hab with
  | inl hab => exact hab.symm
  | inr hab =>
    have hb' : StandsFor targets b n := .single hb
    apply absurd _ (h b)
    cases (standsFor_iff ha).mp hab with
    | inl hbn => rwa [← hbn] at hb'
    | inr hnb => exact hb'.trans hnb

theorem Gathers.nodup (h : Gathers links rest n names) (hacyclic : Acyclic targets)
    (hlinks : ∀ a b, (a, b) ∈ links ↔ Link targets a b) (hnodup : (links.map (·.1)).Nodup)
    (hrest : (rest.map (·.1)).Nodup) (hsubset : rest ⊆ links) : names.Nodup := by
  induction h with
  | done => exact List.nodup_nil
  | skip _ _ ih =>
    rw [List.map_cons, List.nodup_cons] at hrest
    exact ih hrest.2 (List.subset_of_cons_subset hsubset)
  | @take nick n rest names names' hnick htake ihnick ih =>
    rw [List.map_cons, List.nodup_cons] at hrest
    rw [List.cons_subset] at hsubset
    have hlink := (hlinks nick n).mp hsubset.1
    rw [List.nodup_append, List.nodup_cons]
    refine ⟨⟨?_, ihnick hnodup (List.Subset.refl _)⟩, ih hrest.2 hsubset.2, ?_⟩
    · rw [hnick.mem_iff hlinks]
      rintro ⟨a, ha, hreach⟩
      exact hacyclic nick (TransGen.tail' hreach ((hlinks a nick).mp ha))
    · rintro x hx y hy rfl
      -- what stands for two aliases of a name stands for one by way of the other
      have hx := (mem_cons_iff (hnick.mem_iff hlinks) hlinks).mp hx
      obtain ⟨a, ha, hreach⟩ := (htake.mem_iff hlinks).mp hy
      have hlink' := (hlinks a n).mp (hsubset.2 ha)
      have heq : a = nick := by
        cases ReflTransGen.total_of_right_unique rightUnique_link hreach hx with
        | inl hab => exact eq_of_reflTransGen hacyclic hlink' hlink hab
        | inr hba => exact (eq_of_reflTransGen hacyclic hlink hlink' hba).symm
      rw [heq] at ha
      exact hrest.1 (List.mem_map_of_mem ha)

theorem gathers_iff (h : Acyclic t.targets) (hperm : links.Perm t.targets.entries) :
    (∃ gathered, Gathers links links n gathered ∧ names = Name.sort gathered) ↔
      names = t.aliases n := by
  have hlinks : ∀ a b, (a, b) ∈ links ↔ Link t.targets a b := by
    intro a b
    rw [hperm.mem_iff, link_iff_mem]
  have hnodup : (links.map (·.1)).Nodup := (hperm.map _).nodup_iff.mpr t.targets.nodup
  have heq : ∀ gathered, Gathers links links n gathered →
      Name.sort gathered = t.aliases n := by
    intro gathered hgathers
    apply Name.sort_eq_of_perm
    rw [List.perm_ext_iff_of_nodup
      (hgathers.nodup h hlinks hnodup hnodup (List.Subset.refl _)) (nodup_collect t.targets.nodup)]
    intro x
    rw [hgathers.mem_iff hlinks, mem_collect_entries_iff, StandsFor, TransGen.tail'_iff]
    simp only [hlinks, and_comm]
  constructor
  · rintro ⟨gathered, hgathers, rfl⟩
    exact heq gathered hgathers
  · rintro rfl
    obtain ⟨gathered, hgathers⟩ := exists_gathers h (fun e he => (hlinks e.1 e.2).mp he) n
    exact ⟨gathered, hgathers, (heq gathered hgathers).symm⟩

end Gathers

/--
Whatever requests a table has been built by, no alias stands for itself. Each of the walks, which
are not bounded, comes to its end with exactly one result, which is what the table answers, and a
name is resolved to one that is no alias, and that is resolved to itself.
-/
theorem walks_of_requests (allowOverriding : Bool) (requests : List AliasRequest) :
    Acyclic (built allowOverriding requests).targets ∧
    (∀ n c, Resolves (built allowOverriding requests).targets n c ↔
      c = (built allowOverriding requests).canonical n) ∧
    (∀ name nick found, Searches (built allowOverriding requests).targets name nick found ↔
      found = (built allowOverriding requests).hasAlias name nick) ∧
    (∀ links, links.Perm (built allowOverriding requests).targets.entries → ∀ n names,
      (∃ gathered, Gathers links links n gathered ∧ names = Name.sort gathered) ↔
        names = (built allowOverriding requests).aliases n) ∧
    ∀ n, (built allowOverriding requests).isAlias
        ((built allowOverriding requests).canonical n) = false ∧
      (built allowOverriding requests).canonical ((built allowOverriding requests).canonical n) =
        (built allowOverriding requests).canonical n := by
  have h := acyclic_built allowOverriding requests
  refine ⟨h, ?_, ?_, ?_, ?_⟩
  · intro n c
    exact resolves_iff h
  · intro name nick found
    exact searches_iff h
  · intro links hperm n names
    exact gathers_iff h hperm
  · intro n
    have hstop : (built allowOverriding requests).targets.find?
        ((built allowOverriding requests).canonical n) = none :=
      ((resolves_iff h).mpr rfl).find?_eq_none
    constructor
    · rw [isAlias, Table.contains, hstop]
      rfl
    · exact canonical_of_find?_eq_none hstop

def rebinding : List AliasRequest :=
  [.register "b" "a", .register "c" "b", .register "a" "c", .register "d" "a", .remove "c"]

theorem walks_of_rebinding : Resolves (built true rebinding).targets "a" "d" ∧
    Searches (built true rebinding).targets "c" "a" false ∧
    ∃ gathered, Gathers [("b", "c"), ("a", "d")] [("b", "c"), ("a", "d")] "d" gathered ∧
      ["a"] = Name.sort gathered := by
  obtain ⟨_, hresolves, hsearches, hgathers, _⟩ := walks_of_requests true rebinding
  refine ⟨?_, ?_, ?_⟩
  · rw [hresolves]
    cbv
  · rw [hsearches]
    cbv
  · rw [hgathers]
    · cbv
    · cbv
      exact List.Perm.swap ..

end AliasTable

end InstanceRegistry
