import InstanceRegistry.Proofs.Creation.Outcome
import InstanceRegistry.Proofs.Run

/-!
This module contains how long a published instance stays: until its name is forgotten, or until a
creation of the name that was already running when the instance was published ends with another one
(`Machine.ready_kept_iff`).
-/

namespace InstanceRegistry

variable {C : Client}

def Change.Forgets : Change C → Name → Prop
  | perform (.remove m), n => m = n
  | perform .clear, _ => True
  | visit m, n => m = n
  | wipe, _ => True
  | _, _ => False

variable {change : Change C} {r r' : C.Store} {cs cs' : List Creation} {n : Name} {i : Instance}

theorem Registry.perform_ready {o : Operation} (h : r.cache.ready.find? n = some i)
    (hforgets : ¬ Change.Forgets (C := C) (.perform o) n) :
    (r.perform o).registry.cache.ready.find? n = some i := by
  cases o with
  | register m j => exact perform_register_ready h
  | remove m =>
    have hne : n ≠ m := fun hnm => hforgets hnm.symm
    simpa [perform, Cache.remove, Table.find?_erase, hne] using h
  | clear => exact absurd trivial hforgets
  | addAlias name nick =>
    simp only [perform, addAlias]
    split
    · exact h
    · exact h
  | removeAlias nick =>
    simp only [perform, removeAlias]
    split
    · exact h
    · exact h
  | _ => exact h

theorem Shift.ready (h : Shift change r cs r' cs') (hforgets : ¬ change.Forgets n)
    (hi : r.cache.ready.find? n = some i) :
    r'.cache.ready.find? n = some i ∨
      ∃ c ∈ cs, ∃ j, change = .conclude c (.ok j) ∧ c.name = n ∧
        (r.conclude c (.ok j)).1 = .ok j ∧ r'.cache.ready.find? n = some j := by
  cases h with
  | perform o => exact Or.inl (Registry.perform_ready hi hforgets)
  | start hstart =>
    apply Or.inl
    obtain ⟨_, _, _, _, hcache, _⟩ := Registry.startCreation_eq_started hstart
    rw [hcache]
    exact hi
  | conclude c result =>
    cases result with
    | ok j =>
      cases r.conclude_ok c j with
      | inl hok =>
        rw [hok.2, Table.find?_insert]
        split
        · next hn =>
          apply Or.inr
          exact ⟨c, List.mem_cons_self .., j, rfl, hn.symm, hok.1, rfl⟩
        · exact Or.inl hi
      | inr hlost =>
        rw [hlost.2]
        exact Or.inl hi
    | error e =>
      rw [Registry.conclude_error_ready]
      exact Or.inl hi
  | rollback c =>
    rw [Registry.rollback_ready]
    exact Or.inl hi
  | expose m j =>
    unfold Cache.expose
    split
    · exact Or.inl hi
    · exact Or.inl hi
  | addEarlyFactory m code =>
    unfold Cache.addEarlyFactory
    split
    · exact Or.inl hi
    · exact Or.inl hi
  | visit m =>
    have hne : n ≠ m := fun hnm => hforgets hnm.symm
    apply Or.inl
    simpa [Registry.visit, Registry.detach, Cache.remove, Table.find?_erase, hne] using hi
  | wipe => exact absurd trivial hforgets
  | _ => exact Or.inl hi

theorem Shift.mem_creations (h : Shift change r cs r' cs') (hi : r.cache.ready.find? n = some i)
    {c : Creation} (hc : c ∈ cs') (hn : c.name = n) : c ∈ cs := by
  cases h with
  | start hstart =>
    obtain ⟨hready, _, hcreation, _⟩ := Registry.startCreation_eq_started hstart
    cases hc with
    | head =>
      rw [hcreation] at hn
      dsimp at hn
      rw [hn, hi] at hready
      cases hready
    | tail _ hc => exact hc
  | conclude d result => exact List.mem_cons_of_mem d hc
  | rollback d => exact List.mem_cons_of_mem d hc
  | _ => exact hc

namespace Machine

def ready? (m : Machine C) (n : Name) : Option Instance :=
  m.world.registry.cache.ready.find? n

abbrev Remembers (n : Name) : Machine C → Machine C → Prop :=
  LeadsBy fun k => ¬ k.change.Forgets n

variable {m m' k k' : Machine C}

theorem remembers_of_step (hforgets : ¬ k.change.Forgets n) (h : k.step = some k') :
    k.Remembers n k' := by
  apply Relation.ReflTransGen.single
  exact ⟨hforgets, h⟩

theorem Remembers.ready (h : m.Remembers n k) (hi : m.ready? n = some i) :
    (∃ j, k.ready? n = some j) ∧ ∀ c ∈ k.creations, c.name = n → c ∈ m.creations := by
  induction h with
  | refl => exact ⟨⟨i, hi⟩, fun c hc _ => hc⟩
  | tail _ hstep ih =>
    obtain ⟨⟨j, hj⟩, hcreations⟩ := ih
    have hshift := shift_of_step hstep.2
    constructor
    · cases hshift.ready hstep.1 hj with
      | inl hkept => exact ⟨j, hkept⟩
      | inr hnew =>
        obtain ⟨_, _, j', _, _, _, hj'⟩ := hnew
        exact ⟨j', hj'⟩
    · intro c hc hn
      apply hcreations c
      · exact hshift.mem_creations hj hc hn
      · exact hn

/--
Between two machines, a creation of a name that is running in the first one ends with another
instance.
-/
def Overruled (m m' : Machine C) (n : Name) (i : Instance) : Prop :=
  ∃ c ∈ m.creations, c.name = n ∧ ∃ k k' j, m.Remembers n k ∧ k.step = some k' ∧
    k'.Remembers n m' ∧ k.change = .conclude c (.ok j) ∧
    (k.world.registry.conclude c (.ok j)).1 = .ok j ∧ j ≠ i

theorem ready_of_conclude {c : Creation} {j : Instance} (hstep : k.step = some k')
    (hchange : k.change = .conclude c (.ok j))
    (hanswer : (k.world.registry.conclude c (.ok j)).1 = .ok j) : k'.ready? c.name = some j := by
  have hshift := shift_of_step hstep
  rw [hchange] at hshift
  generalize k.creations = cs, k'.creations = cs', hr' : k'.world.registry = r' at hshift
  cases hshift with
  | conclude =>
    cases k.world.registry.conclude_ok c j with
    | inl hok =>
      rw [ready?, hr', hok.2, Table.find?_insert]
      simp
    | inr hlost =>
      rw [hlost.1] at hanswer
      cases hanswer

/--
A published instance stays, as long as its name is not forgotten, if and only if no creation of the
name that is running when the instance is published ends with another instance.
-/
theorem ready_kept_iff (m' : Machine C) (hi : m.ready? n = some i) :
    (∀ k, m.Remembers n k → k.Remembers n m' → k.ready? n = some i) ↔ ¬ m.Overruled m' n i := by
  constructor
  · intro hkept hoverruled
    obtain ⟨c, _, hn, k, k', j, hk, hstep, hk', hchange, hanswer, hne⟩ := hoverruled
    have hforgets : ¬ k.change.Forgets n := by
      rw [hchange]
      exact not_false
    have hk'i : k'.ready? n = some i := by
      apply hkept
      · exact hk.trans (remembers_of_step hforgets hstep)
      · exact hk'
    rw [← hn, ready_of_conclude hstep hchange hanswer] at hk'i
    cases hk'i
    exact hne rfl
  · intro hoverruled k hk
    -- the run up to `k` is built step by step, each time followed by the rest of the run
    induction hk with
    | refl =>
      intro _
      exact hi
    | tail hk hstep ih =>
      intro hk'
      have hki := ih (Relation.ReflTransGen.head hstep hk')
      cases (shift_of_step hstep.2).ready hstep.1 hki with
      | inl hkept => exact hkept
      | inr hnew =>
        obtain ⟨c, hc, j, hchange, hn, hanswer, hj⟩ := hnew
        have hrunning : c ∈ m.creations := (Remembers.ready hk hi).2 c hc hn
        by_cases hji : j = i
        · rw [ready?, hj, hji]
        · apply absurd _ hoverruled
          exact ⟨c, hrunning, hn, _, _, j, hk, hstep.2, hk', hchange, hanswer, hji⟩

def publishTwice : Program .plain .block :=
  .getOrCreate "a"
    (.call (.register "a" ⟨0, .int 1⟩) fun _ => .done (.ok ⟨1, .int 2⟩))
    fun _ => .done ()

theorem leads_publishTwice : ∃ m m' : Machine .plain,
    (start (.fresh {} none ()) publishTwice).Leads m ∧ m.Remembers "a" m' ∧
      m.ready? "a" = some ⟨0, .int 1⟩ ∧ m'.ready? "a" = some ⟨1, .int 2⟩ := by
  refine ⟨_, _, .head ⟨trivial, rfl⟩ (.head ⟨trivial, rfl⟩ .refl), .head ⟨?_, rfl⟩ .refl, ?_, ?_⟩
  · exact not_false
  · decide
  · decide

theorem not_ready_of_remembers : ¬ ∀ (p : Program .plain .block) (m m' : Machine .plain) (n : Name)
    (i : Instance), (start (.fresh {} none ()) p).Leads m → m.Remembers n m' →
      m.ready? n = some i → m'.ready? n = some i := by
  intro h
  obtain ⟨m, m', hm, hm', hi, hj⟩ := leads_publishTwice
  rw [h publishTwice m m' "a" _ hm hm' hi] at hj
  cases hj

theorem overruled_of_publishTwice : ∃ m m' : Machine .plain,
    (start (.fresh {} none ()) publishTwice).Leads m ∧
      m.ready? "a" = some ⟨0, .int 1⟩ ∧ m.Overruled m' "a" ⟨0, .int 1⟩ := by
  obtain ⟨m, m', hm, hm', hi, hj⟩ := leads_publishTwice
  refine ⟨m, m', hm, hi, ?_⟩
  apply Classical.byContradiction
  intro hoverruled
  have hkept := (ready_kept_iff m' hi).mpr hoverruled m' hm' .refl
  rw [hj] at hkept
  cases hkept

end Machine

end InstanceRegistry
