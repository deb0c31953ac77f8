import InstanceRegistry.Proofs.Alias.Walks
import InstanceRegistry.Proofs.Creation.Outcome

/-!
This module contains which changes of an alias table are refused, and what the others do. An alias
is bound exactly if that is allowed and closes no circle (`Registry.addAlias_iff_safe`). A change of
what an alias is bound to redirects the alias and what stands for it, and no other name
(`AliasTable.canonical_of_change`).
-/

namespace InstanceRegistry

namespace AliasTable

open Relation

variable {targets targets' : Table Name} {t t' : AliasTable} {name nick registered n m c x : Name}

def AgreeOff (nick : Name) (targets targets' : Table Name) : Prop :=
  ∀ n, n ≠ nick → targets'.find? n = targets.find? n

theorem agreeOff_insert : AgreeOff nick targets (targets.insert nick name) := by
  intro n hn
  rw [Table.find?_insert, if_neg hn]

theorem agreeOff_erase : AgreeOff nick targets (targets.erase nick) := by
  intro n hn
  rw [Table.find?_erase, if_neg hn]

theorem AgreeOff.link (h : AgreeOff nick targets targets') (hn : n ≠ nick)
    (hlink : Link targets n m) : Link targets' n m := by
  unfold Link
  rwa [h n hn]

theorem AgreeOff.reflTransGen (h : AgreeOff nick targets targets')
    (hn : ReflTransGen (Link targets) n nick) : ReflTransGen (Link targets') n nick := by
  induction hn using ReflTransGen.head_induction_on with
  | refl => exact .refl
  | @head n m hlink _ ih =>
    by_cases hn : n = nick
    · rw [hn]
    · exact ih.head (h.link hn hlink)

theorem AgreeOff.resolves (h : AgreeOff nick targets targets') (hwalk : Resolves targets n c)
    (hn : ¬ ReflTransGen (Link targets) n nick) : Resolves targets' n c := by
  induction hwalk with
  | @stop n hfind =>
    have hne : n ≠ nick := by
      rintro rfl
      exact hn .refl
    apply Resolves.stop
    rwa [h n hne]
  | @step n m c hlink _ ih =>
    have hne : n ≠ nick := by
      rintro rfl
      exact hn .refl
    apply Resolves.step (h.link hne hlink)
    apply ih
    intro hm
    exact hn (hm.head hlink)

theorem reflTransGen_iff_hasAlias :
    ReflTransGen (Link t.targets) x nick ↔ x = nick ∨ t.hasAlias nick x = true := by
  rw [reflTransGen_iff_eq_or_transGen, hasAlias_iff, eq_comm]
  rfl

theorem AgreeOff.canonical_eq (h : AgreeOff nick t.targets t'.targets) (ht : Acyclic t.targets)
    (ht' : Acyclic t'.targets) (hnick : Resolves t'.targets nick c) (x : Name) :
    t'.canonical x = if x = nick ∨ t.hasAlias nick x = true then c else t.canonical x := by
  symm
  rw [← resolves_iff ht']
  split
  · next hx =>
    rw [← reflTransGen_iff_hasAlias] at hx
    exact hnick.of_reflTransGen (h.reflTransGen hx)
  · next hx =>
    rw [← reflTransGen_iff_hasAlias] at hx
    exact h.resolves ((resolves_iff ht).mpr rfl) hx

theorem acyclic_insert_iff (h : Acyclic targets) (hne : nick ≠ name) :
    Acyclic (targets.insert nick name) ↔ ¬ StandsFor targets name nick := by
  constructor
  · intro hinsert hcycle
    have hlink : Link (targets.insert nick name) nick name := link_insert.mpr (.inl ⟨rfl, rfl⟩)
    exact hinsert nick (.head' hlink (agreeOff_insert.reflTransGen hcycle.to_reflTransGen))
  · exact h.insert hne

theorem Link.not_standsFor (h : Acyclic targets) (hlink : Link targets nick name) :
    ¬ StandsFor targets name nick := by
  intro hcycle
  apply h nick
  rw [standsFor_iff hlink]
  exact .inr hcycle

theorem register_eq_overriding_iff (hne : nick ≠ name) :
    t.register name nick = .error (.overriding name nick registered) ↔
      t.Barred name nick registered := by
  constructor
  · intro hregister
    rcases t.register_cases hne with ⟨other, hbarred, heq⟩ | ⟨_, _, _, heq⟩ | ⟨_, _, heq⟩
    · rw [heq] at hregister
      cases hregister
      exact hbarred
    · rw [heq] at hregister
      cases hregister
    · rw [heq] at hregister
      cases hregister
  · exact register_of_barred hne

theorem register_eq_cycle_iff (h : Acyclic t.targets) (hne : nick ≠ name) :
    t.register name nick = .error (.cycle name nick) ↔
      (∀ registered, ¬ t.Barred name nick registered) ∧
        ¬ Acyclic (t.targets.insert nick name) := by
  rw [acyclic_insert_iff h hne, Classical.not_not]
  rcases t.register_cases hne with ⟨_, hbarred, heq⟩ | ⟨hbarred, _, hcycle, heq⟩ | ⟨_, hsafe, heq⟩
  · rw [heq]
    constructor
    · intro hregister
      cases hregister
    · intro hfree
      exact absurd hbarred (hfree.1 _)
  · exact iff_of_true heq ⟨hbarred, hcycle⟩
  · rw [heq]
    constructor
    · intro hregister
      cases hregister
    · intro hcycle
      cases hsafe with
      | inl hlink => exact absurd hcycle.2 (hlink.not_standsFor h)
      | inr hsafe => exact absurd hcycle.2 hsafe

theorem register_eq_ok_iff (h : Acyclic t.targets) (hne : nick ≠ name) :
    t.register name nick = .ok t' ↔
      (∀ registered, ¬ t.Barred name nick registered) ∧ Acyclic (t.targets.insert nick name) ∧
        t' = { t with targets := t.targets.insert nick name } := by
  rw [acyclic_insert_iff h hne]
  rcases t.register_cases hne with ⟨_, hbarred, heq⟩ | ⟨_, _, hcycle, heq⟩ | ⟨hbarred, hsafe, heq⟩
  · rw [heq]
    constructor
    · intro hregister
      cases hregister
    · intro hfree
      exact absurd hbarred (hfree.1 _)
  · rw [heq]
    constructor
    · intro hregister
      cases hregister
    · intro hsafe
      exact absurd hcycle hsafe.2.1
  · rw [heq]
    constructor
    · intro hregister
      cases hregister
      exact ⟨hbarred, hsafe.elim (Link.not_standsFor h) id, rfl⟩
    · rintro ⟨_, _, rfl⟩
      rfl

theorem remove_eq_notRegistered_iff :
    t.remove nick = .error (.notRegistered nick) ↔ t.isAlias nick = false := by
  unfold remove
  split
  · next h => simp [h]
  · next h => simpa using h

/--
When a change of a table succeeds, an alias that is bound to a name is resolved as that name was
before, and an alias that is taken out, be it by a request to stand for itself, is resolved to
itself. What stood for the alias is resolved as the alias is, all other names as before.
-/
theorem canonical_of_change (ht : t.Reachable) :
    (∀ name nick t', nick ≠ name → t.register name nick = .ok t' → ∀ x, t'.canonical x =
      if x = nick ∨ t.hasAlias nick x = true then t.canonical name else t.canonical x) ∧
    (∀ nick t', t.register nick nick = .ok t' ∨ t.remove nick = .ok t' → ∀ x, t'.canonical x =
      if x = nick ∨ t.hasAlias nick x = true then nick else t.canonical x) := by
  have h := ht.acyclic
  constructor
  · intro name nick t' hne hregister
    obtain ⟨_, hinsert, rfl⟩ := (register_eq_ok_iff h hne).mp hregister
    have hlink : Link (t.targets.insert nick name) nick name := link_insert.mpr (.inl ⟨rfl, rfl⟩)
    have hname : ¬ ReflTransGen (Link t.targets) name nick := by
      rw [reflTransGen_iff_eq_or_transGen]
      rintro (heq | hcycle)
      · exact hne heq
      · exact (acyclic_insert_iff h hne).mp hinsert hcycle
    have hwalk : Resolves t.targets name (t.canonical name) := (resolves_iff h).mpr rfl
    have hnick : Resolves (t.targets.insert nick name) nick (t.canonical name) :=
      .step hlink (agreeOff_insert.resolves hwalk hname)
    exact agreeOff_insert.canonical_eq h hinsert hnick
  · intro nick t' hchange
    have heq : t' = { t with targets := t.targets.erase nick } := by
      cases hchange with
      | inl hregister =>
        rw [register_self] at hregister
        cases hregister
        rfl
      | inr hremove => exact eq_erase_of_remove hremove
    subst heq
    apply agreeOff_erase.canonical_eq h (h.erase nick)
    apply Resolves.stop
    rw [Table.find?_erase, if_pos rfl]

def linked : List AliasRequest :=
  [.register "d" "c", .register "c" "b", .register "b" "a"]

theorem canonical_of_linked : (built true linked).Reachable ∧
    ∃ t' t'', (built true linked).register "e" "c" = .ok t' ∧ t'.canonical "a" = "e" ∧
      (built true linked).remove "b" = .ok t'' ∧ t''.canonical "a" = "b" ∧
      t''.canonical "c" = "d" := by
  have ht : (built true linked).Reachable := ⟨true, linked, rfl⟩
  obtain ⟨hregister, hremove⟩ := canonical_of_change ht
  have h' : (built true linked).register "e" "c" =
      .ok ⟨⟨[("c", "e"), ("b", "c"), ("a", "b")], by decide⟩, true⟩ := by cbv
  have h'' : (built true linked).remove "b" =
      .ok ⟨⟨[("c", "d"), ("a", "b")], by decide⟩, true⟩ := by cbv
  refine ⟨ht, _, _, h', ?_, h'', ?_, ?_⟩
  · rw [hregister "e" "c" _ (by decide) h']
    cbv
  · rw [hremove "b" _ (.inr h'')]
    cbv
  · rw [hremove "b" _ (.inr h'')]
    cbv

end AliasTable

namespace Registry

open AliasTable

variable {ε δ : Type} {r : Registry ε δ} {name nick : Name} {error : AliasError}

theorem answer_addAlias_eq_error_iff :
    (r.addAlias name nick).answer = .error error ↔ r.aliases.register name nick = .error error := by
  unfold addAlias
  cases r.aliases.register name nick with
  | error e => simp
  | ok t => simp

theorem answer_addAlias_eq_ok_iff :
    (r.addAlias name nick).answer = .ok () ↔ ∃ t, r.aliases.register name nick = .ok t := by
  unfold addAlias
  cases r.aliases.register name nick with
  | error e => simp
  | ok t => simp

theorem answer_removeAlias_eq_error_iff :
    (r.removeAlias nick).answer = .error error ↔ r.aliases.remove nick = .error error := by
  unfold removeAlias answering
  cases r.aliases.remove nick with
  | error e => simp
  | ok t => simp

/--
A request to let an alias stand for another name is refused as overriding if and only if the alias
is bound to a third name and must not be bound anew. Otherwise it is refused as a cycle if and only
if some alias would stand for itself with the new binding, whatever the alias was bound to before.
Otherwise the alias is bound, and nothing else changes. No refused request changes anything.
-/
theorem addAlias_iff_safe (r : Registry ε δ) (name nick : Name) (ht : r.aliases.Reachable)
    (hne : nick ≠ name) :
    (∀ registered, (r.perform (.addAlias name nick)).answer =
        .error (.overriding name nick registered) ↔ r.aliases.Barred name nick registered) ∧
    ((r.perform (.addAlias name nick)).answer = .error (.cycle name nick) ↔
      (∀ registered, ¬ r.aliases.Barred name nick registered) ∧
        ¬ Acyclic (r.aliases.targets.insert nick name)) ∧
    ((r.perform (.addAlias name nick)).answer = .ok () ↔
      (∀ registered, ¬ r.aliases.Barred name nick registered) ∧
        Acyclic (r.aliases.targets.insert nick name)) ∧
    ((r.perform (.addAlias name nick)).answer = .ok () →
      (r.perform (.addAlias name nick)).registry = { r with
        aliases := { r.aliases with targets := r.aliases.targets.insert nick name } }) ∧
    (∀ error, (r.perform (.addAlias name nick)).answer = .error error →
      (r.perform (.addAlias name nick)).registry = r) ∧
    ((r.perform (.removeAlias nick)).answer = .error (.notRegistered nick) ↔
      r.aliases.isAlias nick = false) ∧
    (∀ error, (r.perform (.removeAlias nick)).answer = .error error →
      (r.perform (.removeAlias nick)).registry = r) := by
  have h := ht.acyclic
  refine ⟨fun registered => ?_, ?_, ?_, ?_, ?_, ?_, ?_⟩
  · exact answer_addAlias_eq_error_iff.trans (register_eq_overriding_iff hne)
  · exact answer_addAlias_eq_error_iff.trans (register_eq_cycle_iff h hne)
  · rw [perform, answer_addAlias_eq_ok_iff]
    simp only [register_eq_ok_iff h hne]
    constructor
    · rintro ⟨_, hbarred, hsafe, _⟩
      exact ⟨hbarred, hsafe⟩
    · rintro ⟨hbarred, hsafe⟩
      exact ⟨_, hbarred, hsafe, rfl⟩
  · intro hanswer
    obtain ⟨t, ht⟩ := answer_addAlias_eq_ok_iff.mp hanswer
    obtain ⟨_, _, rfl⟩ := (register_eq_ok_iff h hne).mp ht
    rw [perform, addAlias_registry, ht]
    rfl
  · intro error hanswer
    rw [perform, addAlias_registry, answer_addAlias_eq_error_iff.mp hanswer]
    rfl
  · rw [perform, answer_removeAlias_eq_error_iff, remove_eq_notRegistered_iff]
  · intro error hanswer
    rw [perform, removeAlias_registry, answer_removeAlias_eq_error_iff.mp hanswer]
    rfl

def linked (allowOverriding : Bool) : Registry Unit Unit :=
  { empty ⟨100, allowOverriding⟩ none with aliases := built allowOverriding AliasTable.linked }

theorem addAlias_of_linked :
    (linked true).aliases.Reachable ∧ (linked false).aliases.Reachable ∧
    ((linked true).perform (.addAlias "a" "c")).answer = .error (.cycle "a" "c") ∧
    ((linked true).perform (.addAlias "a" "c")).registry = linked true ∧
    ((linked false).perform (.addAlias "a" "c")).answer = .error (.overriding "a" "c" "d") := by
  have ht : (linked true).aliases.Reachable := ⟨true, AliasTable.linked, rfl⟩
  have ht' : (linked false).aliases.Reachable := ⟨false, AliasTable.linked, rfl⟩
  have hne : "c" ≠ "a" := by decide
  obtain ⟨_, hcycle, _, _, hfailed, _⟩ := addAlias_iff_safe (linked true) "a" "c" ht hne
  obtain ⟨hoverriding, _⟩ := addAlias_iff_safe (linked false) "a" "c" ht' hne
  have hanswer : ((linked true).perform (.addAlias "a" "c")).answer = .error (.cycle "a" "c") := by
    rw [hcycle]
    constructor
    · rintro registered ⟨_, _, hallow⟩
      have hallowed : (linked true).aliases.allowOverriding = true := by cbv
      rw [hallowed] at hallow
      cases hallow
    · intro hacyclic
      have hca : Link ((linked true).aliases.targets.insert "c" "a") "c" "a" := by cbv
      have hab : Link ((linked true).aliases.targets.insert "c" "a") "a" "b" := by cbv
      have hbc : Link ((linked true).aliases.targets.insert "c" "a") "b" "c" := by cbv
      exact hacyclic "c" (.head hca (.head hab (.single hbc)))
  refine ⟨ht, ht', hanswer, hfailed _ hanswer, ?_⟩
  rw [hoverriding]
  refine ⟨?_, by decide, ?_⟩
  · cbv
  · cbv

end Registry

end InstanceRegistry
