import InstanceRegistry.Proofs.Cache.Settlement
import InstanceRegistry.Proofs.Creation.Suppression

/-!
This module contains what a creation that does not succeed leaves of its name: a ready instance or
nothing, unless its factory has returned an instance and the mark of the name was lost. Then the
cache is left as it is (`Machine.settled_after_failure_iff`).
-/

namespace InstanceRegistry

variable {C : Client}

namespace Registry

variable {ε δ : Type} {r : Registry ε δ} {c : Creation} {i : Instance} {e : RegistryError}

theorem eq_notInCreation_of_conclude_ok (h : (r.conclude c (.ok i)).1 = .error e) :
    e = .notInCreation c.name ∧ (r.marks.unmark c.name).isNone = true := by
  unfold conclude at h
  rw [closeWindow_eq] at h
  dsimp at h
  split at h
  · next hlost =>
    cases h
    exact ⟨rfl, hlost⟩
  · cases h

theorem conclude_ok_cache_of_error (h : (r.conclude c (.ok i)).1 = .error e) :
    (r.conclude c (.ok i)).2.cache = { r.cache with
      window := (r.conclude c (.ok i)).2.cache.window } := by
  rw [conclude_ok_cache, if_pos (eq_notInCreation_of_conclude_ok h).2]

end Registry

namespace Machine

def Fails (m : Machine C) (c : Creation) : Prop :=
  m.change = .rollback c ∨
    ∃ result e, m.change = .conclude c result ∧ (m.world.registry.conclude c result).1 = .error e

def Yields (m : Machine C) (c : Creation) : Prop :=
  ∃ i, m.change = .conclude c (.ok i)

variable {m k k' : Machine C} {c : Creation}

theorem Fails.ended (h : k.Fails c) : k.change.ended? = some c := by
  cases h with
  | inl hpanic =>
    rw [hpanic]
    rfl
  | inr herror =>
    obtain ⟨result, e, hchange, _⟩ := herror
    rw [hchange]
    rfl

theorem exists_start_of_ended (h : m.Leads k) (hm : m.creations = []) (hstep : k.step = some k')
    (hended : k.change.ended? = some c) :
    ∃ j j' changes, m.Leads j ∧ j.change = .start c ∧ j.creations = k'.creations ∧
      j.step = some j' ∧
      j'.MakesBy (fun i => k'.creations.length < i.creations.length) changes k := by
  have hcons := (shift_of_step hstep).eq_cons_of_ended hended
  apply exists_start h hm
  exact ⟨[], hcons.symm⟩

theorem eqOff_of_fails (hstep : k.step = some k') (h : k.Fails c) :
    Cache.EqOff k.world.registry.cache k'.world.registry.cache c.name := by
  have hshift := shift_of_step hstep
  cases h with
  | inl hpanic =>
    rw [hpanic] at hshift
    rw [hshift.eq_of_rollback]
    exact k.world.registry.eqOff_rollback c
  | inr herror =>
    obtain ⟨result, _, hchange, _⟩ := herror
    rw [hchange] at hshift
    rw [hshift.eq_of_conclude]
    exact k.world.registry.eqOff_conclude c result

theorem Fails.of_yields (h : k.Fails c) (hstep : k.step = some k') (hyields : k.Yields c) :
    k.change.refusal? k.world.registry = some (.notInCreation c.name) ∧
      k'.world.registry.cache = { k.world.registry.cache with
        window := k'.world.registry.cache.window } := by
  obtain ⟨i, hi⟩ := hyields
  have hshift := shift_of_step hstep
  rw [hi] at hshift
  cases h with
  | inl hpanic =>
    rw [hi] at hpanic
    cases hpanic
  | inr herror =>
    obtain ⟨result, e, hchange, hanswer⟩ := herror
    rw [hi] at hchange
    cases hchange
    constructor
    · rw [hi, ← (Registry.eq_notInCreation_of_conclude_ok hanswer).1]
      simp only [Change.refusal?, hanswer]
    · rw [hshift.eq_of_conclude]
      exact Registry.conclude_ok_cache_of_error hanswer

theorem settled_of_fails_iff (hstep : k.step = some k') (h : k.Fails c) :
    k'.world.registry.cache.Settled c.name ↔
      (k.Yields c → k.world.registry.cache.Settled c.name) := by
  have hshift := shift_of_step hstep
  cases h with
  | inl hpanic =>
    have hyields : ¬ k.Yields c := by
      intro hyields
      obtain ⟨i, hi⟩ := hyields
      rw [hi] at hpanic
      cases hpanic
    rw [hpanic] at hshift
    rw [hshift.eq_of_rollback]
    simp [hyields, k.world.registry.settled_rollback c]
  | inr herror =>
    obtain ⟨result, e, hchange, hanswer⟩ := herror
    rw [hchange] at hshift
    rw [hshift.eq_of_conclude]
    cases result with
    | ok i =>
      have hyields : k.Yields c := ⟨i, hchange⟩
      rw [Registry.conclude_ok_cache_of_error hanswer]
      simp [hyields, Cache.Settled]
    | error e =>
      have hyields : ¬ k.Yields c := by
        intro hyields
        obtain ⟨i, hi⟩ := hyields
        rw [hi] at hchange
        cases hchange
      simp [hyields, Registry.settled_conclude]

/--
A creation that does not succeed has been started in the run before, and leaves what the cache holds
of other names as its factory has left it. Of its own name it leaves a ready instance or nothing,
unless its factory has returned an instance: then the mark of the name was lost, and the cache is
left as it is but for the suppressed errors.
-/
theorem settled_after_failure_iff (config : Config) (resolver : Option (Name → Name))
    (state : C.State) (p : Program C .block)
    (hk : (start (.fresh config resolver state) p).Leads k) (hstep : k.step = some k')
    (h : k.Fails c) :
    (∃ j j' changes, (start (.fresh config resolver state) p).Leads j ∧ j.change = .start c ∧
      j.creations = k'.creations ∧ j.step = some j' ∧
      j'.MakesBy (fun i => k'.creations.length < i.creations.length) changes k) ∧
    Cache.EqOff k.world.registry.cache k'.world.registry.cache c.name ∧
    (k.Yields c → k.change.refusal? k.world.registry = some (.notInCreation c.name) ∧
      k'.world.registry.cache = { k.world.registry.cache with
        window := k'.world.registry.cache.window }) ∧
    (k'.world.registry.cache.Settled c.name ↔
      (k.Yields c → k.world.registry.cache.Settled c.name)) := by
  refine ⟨?_, eqOff_of_fails hstep h, h.of_yields hstep, settled_of_fails_iff hstep h⟩
  exact exists_start_of_ended hk rfl hstep h.ended

def readmitting : Program .plain .block :=
  .call (.setInCreation "a" false) fun _ =>
    .getOrCreate "a"
      (.call (.setInCreation "a" true) fun _ =>
        .addEarlyFactory "a" (.done ⟨0, .int 1⟩) (.done (.ok ⟨1, .int 2⟩)))
      fun _ => .done ()

theorem leads_readmitting : ∃ k k' : Machine .plain,
    (start (.fresh {} none ()) readmitting).Leads k ∧ k.step = some k' ∧
      k.Fails ⟨"a", false, true⟩ ∧ k.Yields ⟨"a", false, true⟩ ∧
      ¬ k.world.registry.cache.Settled "a" := by
  refine ⟨_, _, .head ⟨trivial, rfl⟩ (.head ⟨trivial, rfl⟩ (.head ⟨trivial, rfl⟩
    (.head ⟨trivial, rfl⟩ .refl))), rfl, Or.inr ⟨_, _, rfl, rfl⟩, ⟨_, rfl⟩, ?_⟩
  intro hsettled
  cases hsettled with
  | inl hready =>
    obtain ⟨i, hi⟩ := hready
    cases hi
  | inr habsent => cases habsent.1

theorem unsettled_of_readmitting : ∃ k k' : Machine .plain,
    (start (.fresh {} none ()) readmitting).Leads k ∧ k.step = some k' ∧
      k.Fails ⟨"a", false, true⟩ ∧
      k.change.refusal? k.world.registry = some (.notInCreation "a") ∧
      ¬ k'.world.registry.cache.Settled "a" := by
  obtain ⟨k, k', hk, hstep, hfails, hyields, hunsettled⟩ := leads_readmitting
  obtain ⟨_, _, hlost, hsettled⟩ :=
    settled_after_failure_iff {} none () readmitting hk hstep hfails
  refine ⟨k, k', hk, hstep, hfails, (hlost hyields).1, ?_⟩
  intro h
  exact hunsettled (hsettled.mp h hyields)

theorem not_settled_of_fails : ¬ ∀ (p : Program .plain .block) (k k' : Machine .plain)
    (c : Creation), (start (.fresh {} none ()) p).Leads k → k.step = some k' → k.Fails c →
      k'.world.registry.cache.Settled c.name := by
  intro h
  obtain ⟨k, k', hk, hstep, hfails, hyields, hunsettled⟩ := leads_readmitting
  have hsettled := h readmitting k k' _ hk hstep hfails
  exact hunsettled ((settled_of_fails_iff hstep hfails).mp hsettled hyields)

end Machine

end InstanceRegistry
