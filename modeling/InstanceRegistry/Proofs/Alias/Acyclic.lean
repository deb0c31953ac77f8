import InstanceRegistry.Proofs.Alias.Links

/-!
This module contains what a request does to an alias table (`AliasTable.register_cases`), and why no
alias ever stands for itself: a registration is checked against the links that are there before, and
the ones that it keeps cannot lead from the name back to the alias (`AliasTable.acyclic_built`).
-/

namespace InstanceRegistry

inductive AliasRequest where
  | register (name nick : Name)
  | remove (nick : Name)
  deriving DecidableEq, Repr

namespace AliasTable

open Relation

def Acyclic (targets : Table Name) : Prop :=
  ∀ n, ¬ StandsFor targets n n

variable {targets : Table Name} {name nick n m k : Name}

theorem acyclic_empty : Acyclic ∅ := by
  intro n
  exact not_standsFor rfl

theorem Acyclic.erase (h : Acyclic targets) (n : Name) : Acyclic (targets.erase n) := by
  intro m hm
  exact h m hm.of_erase

theorem standsFor_of_insert (h : StandsFor (targets.insert nick name) n m) :
    StandsFor targets n m ∨ m = name ∨ StandsFor targets name m := by
  induction h with
  | @single m hm =>
    cases link_insert.mp hm with
    | inl hnew => exact Or.inr (Or.inl hnew.2)
    | inr hold => exact Or.inl (.single hold.2)
  | @tail k m _ hm ih =>
    cases link_insert.mp hm with
    | inl hnew => exact Or.inr (Or.inl hnew.2)
    | inr hold =>
      rcases ih with hk | rfl | hk
      · exact Or.inl (hk.tail hold.2)
      · exact Or.inr (Or.inr (.single hold.2))
      · exact Or.inr (Or.inr (hk.tail hold.2))

theorem standsFor_of_insert_of_reached (hne : nick ≠ name) (hcycle : ¬ StandsFor targets name nick)
    (hn : n = name ∨ StandsFor targets name n) (h : StandsFor (targets.insert nick name) n m) :
    StandsFor targets n m := by
  have hold : ∀ k, k = name ∨ StandsFor targets name k → k ≠ nick := by
    rintro k (rfl | hk) rfl
    · exact hne rfl
    · exact hcycle hk
  induction h with
  | single hm =>
    cases link_insert.mp hm with
    | inl hnew => exact absurd hnew.1 (hold _ hn)
    | inr hlink => exact .single hlink.2
  | @tail k m _ hm ih =>
    cases link_insert.mp hm with
    | inl hnew =>
      apply absurd hnew.1
      apply hold
      cases hn with
      | inl hn => exact Or.inr (hn ▸ ih)
      | inr hn => exact Or.inr (hn.trans ih)
    | inr hlink => exact ih.tail hlink.2

theorem Acyclic.insert (h : Acyclic targets) (hne : nick ≠ name)
    (hcycle : ¬ StandsFor targets name nick) : Acyclic (targets.insert nick name) := by
  intro n hn
  apply h n
  cases standsFor_of_insert hn with
  | inl hold => exact hold
  | inr hreached => exact standsFor_of_insert_of_reached hne hcycle hreached hn

variable {t t' : AliasTable}

def Barred (t : AliasTable) (name nick registered : Name) : Prop :=
  Link t.targets nick registered ∧ registered ≠ name ∧ t.allowOverriding = false

theorem register_self (t : AliasTable) (nick : Name) :
    t.register nick nick = .ok { t with targets := t.targets.erase nick } := by
  unfold register
  rw [if_pos rfl]

theorem register_of_barred {registered : Name} (hne : nick ≠ name)
    (h : t.Barred name nick registered) :
    t.register name nick = .error (.overriding name nick registered) := by
  obtain ⟨hlink, hregistered, hallow⟩ := h
  unfold Link at hlink
  unfold register
  rw [if_neg hne]
  simp [hlink, hregistered, hallow]

theorem register_of_link (hne : nick ≠ name) (h : Link t.targets nick name) :
    t.register name nick = .ok t := by
  unfold Link at h
  unfold register
  rw [if_neg hne]
  simp [h]

theorem register_of_not_barred (hne : nick ≠ name)
    (hbarred : ∀ registered, ¬ t.Barred name nick registered)
    (hlink : ¬ Link t.targets nick name) :
    t.register name nick =
      if t.hasAlias nick name then .error (.cycle name nick)
      else .ok { t with targets := t.targets.insert nick name } := by
  unfold register
  rw [if_neg hne]
  cases hnick : t.targets.find? nick with
  | none => rfl
  | some registered =>
    have hregistered : registered ≠ name := by
      rintro rfl
      exact hlink hnick
    have hallow : t.allowOverriding = true := by
      rw [← Bool.not_eq_false]
      intro hallow
      exact hbarred registered ⟨hnick, hregistered, hallow⟩
    simp [hregistered, hallow]

theorem register_cases (t : AliasTable) (hne : nick ≠ name) :
    (∃ registered, t.Barred name nick registered ∧
      t.register name nick = .error (.overriding name nick registered)) ∨
    ((∀ registered, ¬ t.Barred name nick registered) ∧ ¬ Link t.targets nick name ∧
      StandsFor t.targets name nick ∧ t.register name nick = .error (.cycle name nick)) ∨
    ((∀ registered, ¬ t.Barred name nick registered) ∧
      (Link t.targets nick name ∨ ¬ StandsFor t.targets name nick) ∧
      t.register name nick = .ok { t with targets := t.targets.insert nick name }) := by
  by_cases hbarred : ∃ registered, t.Barred name nick registered
  · obtain ⟨registered, hbarred⟩ := hbarred
    exact .inl ⟨registered, hbarred, register_of_barred hne hbarred⟩
  · rw [not_exists] at hbarred
    apply Or.inr
    by_cases hlink : Link t.targets nick name
    · refine .inr ⟨hbarred, .inl hlink, ?_⟩
      rw [register_of_link hne hlink, Table.insert_of_find?_eq_some hlink]
    · rw [register_of_not_barred hne hbarred hlink]
      split
      · next hcycle => exact .inl ⟨hbarred, hlink, hasAlias_iff.mp hcycle, rfl⟩
      · next hcycle => exact .inr ⟨hbarred, .inr (mt hasAlias_iff.mpr hcycle), rfl⟩

theorem acyclic_of_register (h : Acyclic t.targets) (hregister : t.register name nick = .ok t') :
    Acyclic t'.targets := by
  by_cases hne : nick = name
  · rw [← hne, register_self] at hregister
    cases hregister
    exact h.erase nick
  · rcases t.register_cases hne with ⟨_, _, heq⟩ | ⟨_, _, _, heq⟩ | ⟨_, hsafe, heq⟩
    · rw [heq] at hregister
      cases hregister
    · rw [heq] at hregister
      cases hregister
    · rw [heq] at hregister
      cases hregister
      cases hsafe with
      | inl hlink => rwa [Table.insert_of_find?_eq_some hlink]
      | inr hcycle => exact h.insert hne hcycle

theorem eq_erase_of_remove (h : t.remove nick = .ok t') :
    t' = { t with targets := t.targets.erase nick } := by
  unfold remove at h
  split at h
  · cases h
    rfl
  · cases h

theorem acyclic_of_remove (h : Acyclic t.targets) (hremove : t.remove nick = .ok t') :
    Acyclic t'.targets := by
  rw [eq_erase_of_remove hremove]
  exact h.erase nick

def after (t : AliasTable) : AliasRequest → AliasTable
  | .register name nick => (t.register name nick).toOption.getD t
  | .remove nick => (t.remove nick).toOption.getD t

def built (allowOverriding : Bool) (requests : List AliasRequest) : AliasTable :=
  requests.foldl after (empty allowOverriding)

def Reachable (t : AliasTable) : Prop :=
  ∃ allowOverriding requests, built allowOverriding requests = t

theorem acyclic_after (h : Acyclic t.targets) (request : AliasRequest) :
    Acyclic (t.after request).targets := by
  cases request with
  | register name nick =>
    simp only [after]
    cases hregister : t.register name nick with
    | error e => exact h
    | ok t' => exact acyclic_of_register h hregister
  | remove nick =>
    simp only [after]
    cases hremove : t.remove nick with
    | error e => exact h
    | ok t' => exact acyclic_of_remove h hremove

theorem acyclic_foldl (h : Acyclic t.targets) (requests : List AliasRequest) :
    Acyclic (requests.foldl after t).targets := by
  induction requests generalizing t with
  | nil => exact h
  | cons request requests ih => exact ih (acyclic_after h request)

theorem acyclic_built (allowOverriding : Bool) (requests : List AliasRequest) :
    Acyclic (built allowOverriding requests).targets :=
  acyclic_foldl acyclic_empty requests

theorem Reachable.acyclic (h : t.Reachable) : Acyclic t.targets := by
  obtain ⟨allowOverriding, requests, rfl⟩ := h
  exact acyclic_built allowOverriding requests

end AliasTable

end InstanceRegistry
