import InstanceRegistry.Proofs.Creation.Outcome
import InstanceRegistry.Proofs.Teardown.Agenda
import InstanceRegistry.Proofs.Teardown.Closure

/-!
This module contains when a registry refuses creations because it is being destroyed: from the
beginning of a teardown of everything until the next one comes to its end, or until the cache is
cleared (`Machine.destroying_iff_announced`). A teardown of everything may go on after that.
-/

namespace InstanceRegistry

variable {C : Client}

def Change.destroying (before : Bool) : Change C → Bool
  | announce => true
  | wipe => false
  | perform .clear => false
  | _ => before

def Change.Resets : Change C → Prop
  | wipe => True
  | perform .clear => True
  | _ => False

theorem Change.destroying_of_not_resets {change : Change C} (h : ¬ change.Resets) :
    change.destroying true = true := by
  unfold destroying
  split
  · rfl
  · exact absurd trivial h
  · exact absurd trivial h
  · rfl

theorem Change.destroying_eq_true {change : Change C} {before : Bool}
    (h : change.destroying before = true) :
    change = .announce ∨ before = true ∧ ¬ change.Resets := by
  unfold destroying at h
  split at h
  · exact Or.inl rfl
  · cases h
  · cases h
  · next hwipe hclear =>
    refine Or.inr ⟨h, ?_⟩
    unfold Resets
    split
    · exact absurd rfl hwipe
    · exact absurd rfl hclear
    · exact id

theorem Shift.destroying_eq {change : Change C} {r r' : C.Store} {cs cs' : List Creation}
    (h : Shift change r cs r' cs') :
    r'.cache.destroying = change.destroying r.cache.destroying := by
  cases h with
  | perform o =>
    rw [Registry.perform_destroying]
    cases o with
    | clear => rfl
    | _ => rfl
  | start hstart =>
    obtain ⟨_, _, _, _, hcache, _⟩ := Registry.startCreation_eq_started hstart
    rw [hcache]
    rfl
  | conclude c result =>
    rw [Registry.conclude_eq]
    rfl
  | rollback c =>
    rw [Registry.rollback_eq]
    rfl
  | expose n i =>
    unfold Cache.expose
    split
    · rfl
    · rfl
  | addEarlyFactory n code =>
    unfold Cache.addEarlyFactory
    split
    · rfl
    · rfl
  | _ => rfl

theorem Shift.not_destroying_of_start {c : Creation} {r r' : C.Store} {cs cs' : List Creation}
    (h : Shift (.start c) r cs r' cs') : r.cache.destroying = false := by
  cases h with
  | start hstart => exact (Registry.startCreation_eq_started hstart).2.1

theorem Shift.destroying_of_refuse {n : Name} {r r' : C.Store} {cs cs' : List Creation}
    (h : Shift (.refuse (.creationDuringDestruction n)) r cs r' cs') :
    r.cache.destroying = true := by
  cases h with
  | refuse hrefused =>
    cases Registry.startCreation_eq_refused hrefused with
    | inl he => exact he.2
    | inr he => cases he

def Task.isWipe : Task C → Bool
  | .wipe => true
  | _ => false

def wipes (ls : List (List (Task C))) : Nat :=
  ls.flatten.countP Task.isWipe

theorem wipes_eq_zero_iff {ls : List (List (Task C))} : wipes ls = 0 ↔ ¬ .wipe ∈ ls.flatten := by
  unfold wipes
  rw [List.countP_eq_zero]
  constructor
  · intro h hwipe
    exact h _ hwipe rfl
  · intro h t ht hwipe
    cases t with
    | wipe => exact h ht
    | _ => cases hwipe

@[simp]
theorem wipes_cons (ts : List (Task C)) (ls : List (List (Task C))) :
    wipes (ts :: ls) = ts.countP Task.isWipe + wipes ls := by
  unfold wipes
  rw [List.flatten_cons, List.countP_append]

@[simp]
theorem countP_isWipe_next (r : C.Store) (t : Task C) : (r.next t).countP Task.isWipe = 0 := by
  rw [List.countP_eq_zero]
  intro u hu
  cases u with
  | wipe => exact absurd hu Registry.wipe_not_mem_next
  | _ => exact Bool.false_ne_true

@[simp]
theorem countP_isWipe_visit (names : List Name) :
    (names.map (Task.visit : Name → Task C)).countP Task.isWipe = 0 := by
  rw [List.countP_map, List.countP_eq_zero]
  intro n _
  exact Bool.false_ne_true

theorem Change.destroying_of_not_tears {change : Change C} {before : Bool}
    (h : ¬ change.Tears) (hclear : before = true → change ≠ .perform .clear) :
    change.destroying before = before := by
  cases change with
  | announce => exact absurd trivial h
  | wipe => exact absurd trivial h
  | perform o =>
    cases o with
    | clear => simpa [destroying] using hclear
    | _ => rfl
  | _ => rfl

theorem Move.destroying_iff {r : C.Store} {change : Change C} {lost : List (Task C)}
    {calls calls' : List Body} {ls ls' : List (List (Task C))}
    (h : Move r change lost calls ls calls' ls') {before : Bool} (hle : wipes ls ≤ 1)
    (hiff : before = true ↔ wipes ls = 1) (hannounce : before = true → change ≠ .announce)
    (hclear : before = true → change ≠ .perform .clear) (hlost : lost.countP Task.isWipe = 0) :
    wipes ls' ≤ 1 ∧ (change.destroying before = true ↔ wipes ls' = 1) := by
  cases h with
  | stay htears =>
    rw [Change.destroying_of_not_tears htears hclear]
    exact ⟨hle, hiff⟩
  | enter htears =>
    rw [Change.destroying_of_not_tears htears hclear, wipes_cons, List.countP_nil, Nat.zero_add]
    exact ⟨hle, hiff⟩
  | leave htears =>
    -- the frame has not been the one of a teardown of everything
    rw [wipes_cons, hlost, Nat.zero_add] at hle hiff
    rw [Change.destroying_of_not_tears htears hclear]
    exact ⟨hle, hiff⟩
  | destroy n =>
    have hvisit : [Task.visit (C := C) n].countP Task.isWipe = 0 := rfl
    rw [wipes_cons, hvisit, Nat.zero_add]
    exact ⟨hle, hiff⟩
  | announce =>
    -- there has been no teardown of everything, so that this is the only one
    have hbefore : ¬ before = true := fun hbefore => hannounce hbefore rfl
    have hwipe : [Task.wipe (C := C)].countP Task.isWipe = 1 := rfl
    rw [wipes_cons, List.countP_append, countP_isWipe_visit, hwipe]
    rw [hiff] at hbefore
    have hzero : wipes ls = 0 := by omega
    simp [Change.destroying, hzero]
  | work t =>
    rw [wipes_cons, List.countP_cons] at hle hiff
    rw [wipes_cons, List.countP_append, countP_isWipe_next, Nat.zero_add]
    cases t with
    | wipe =>
      rw [Task.isWipe, if_pos rfl] at hle
      simp only [Task.change, Change.destroying, Bool.false_eq_true, false_iff]
      omega
    | _ => exact ⟨hle, hiff⟩

namespace Machine

def InDestruction (m : Machine C) : Prop :=
  .wipe ∈ m.layers.flatten

/--
No teardown of everything begins within another one or is given up to a panic, and the cache is not
cleared within one.
-/
structure Undisturbed (m : Machine C) : Prop where
  not_announce : m.InDestruction → m.change ≠ .announce
  not_clear : m.InDestruction → m.change ≠ .perform .clear
  not_lost : ¬ .wipe ∈ m.lost

variable {m m' : Machine C}

theorem inDestruction_iff (hle : wipes m.layers ≤ 1) : m.InDestruction ↔ wipes m.layers = 1 := by
  have hzero : ¬ m.InDestruction ↔ wipes m.layers = 0 := wipes_eq_zero_iff.symm
  rw [← Decidable.not_not (p := wipes m.layers = 1), ← Classical.not_not (a := m.InDestruction),
    hzero]
  omega

theorem destroying_iff_of_leadsBy (config : Config) (resolver : Option (Name → Name))
    (state : C.State) (p : Program C .block)
    (h : (start (.fresh config resolver state) p).LeadsBy Undisturbed m) :
    wipes m.layers ≤ 1 ∧ (m.world.registry.cache.destroying = true ↔ wipes m.layers = 1) := by
  induction h with
  | refl =>
    constructor
    · exact Nat.zero_le 1
    · exact ⟨nofun, nofun⟩
  | @tail m m' _ hstep ih =>
    obtain ⟨⟨hannounce, hclear, hlost⟩, hstep⟩ := hstep
    obtain ⟨hle, hiff⟩ := ih
    rw [inDestruction_iff hle, ← hiff] at hannounce hclear
    rw [(shift_of_step hstep).destroying_eq]
    apply (move_of_step hstep).destroying_iff hle hiff hannounce hclear
    rw [List.countP_eq_zero]
    intro t ht hwipe
    cases t with
    | wipe => exact hlost ht
    | _ => cases hwipe

theorem exists_announce (h : m.Leads m') (hm : m.world.registry.cache.destroying = false)
    (hm' : m'.world.registry.cache.destroying = true) :
    ∃ k k', m.Leads k ∧ k.change = .announce ∧ k.step = some k' ∧
      k'.LeadsBy (fun i => ¬ i.change.Resets) m' := by
  induction h with
  | refl =>
    rw [hm] at hm'
    cases hm'
  | @tail i i' hi hstep ih =>
    rw [(shift_of_step hstep.2).destroying_eq] at hm'
    cases Change.destroying_eq_true hm' with
    | inl hannounce => exact ⟨i, i', hi, hannounce, hstep.2, .refl⟩
    | inr hi' =>
      obtain ⟨k, k', hk, hannounce, hk', hkeep⟩ := ih hi'.1
      exact ⟨k, k', hk, hannounce, hk', hkeep.tail ⟨hi'.2, hstep.2⟩⟩

theorem destroying_of_announce {k k' : Machine C} (hannounce : k.change = .announce)
    (hstep : k.step = some k') (h : k'.LeadsBy (fun i => ¬ i.change.Resets) m) :
    m.world.registry.cache.destroying = true := by
  induction h with
  | refl =>
    rw [(shift_of_step hstep).destroying_eq, hannounce]
    rfl
  | tail _ hstep ih =>
    rw [(shift_of_step hstep.2).destroying_eq, ih]
    exact Change.destroying_of_not_resets hstep.1

theorem not_destroying_of_start {c : Creation} (h : m.change = .start c) :
    m.world.registry.cache.destroying = false := by
  cases hstep : m.step with
  | none =>
    rw [change_of_step_eq_none hstep] at h
    cases h
  | some m' =>
    have hshift := shift_of_step hstep
    rw [h] at hshift
    exact hshift.not_destroying_of_start

theorem destroying_of_refuse {n : Name} (h : m.change = .refuse (.creationDuringDestruction n)) :
    m.world.registry.cache.destroying = true := by
  cases hstep : m.step with
  | none =>
    rw [change_of_step_eq_none hstep] at h
    cases h
  | some m' =>
    have hshift := shift_of_step hstep
    rw [h] at hshift
    exact hshift.destroying_of_refuse

/--
A registry is being destroyed exactly from the beginning of a teardown of everything until creations
are let in again. As long as no such teardown is disturbed this is while one goes on, so that no
creation starts within one, and none is refused for it outside of one.
-/
theorem destroying_iff_announced (config : Config) (resolver : Option (Name → Name))
    (state : C.State) (p : Program C .block)
    (h : (start (.fresh config resolver state) p).Leads m) :
    (m.world.registry.cache.destroying = true ↔
      ∃ k k', (start (.fresh config resolver state) p).Leads k ∧ k.change = .announce ∧
        k.step = some k' ∧ k'.LeadsBy (fun i => ¬ i.change.Resets) m) ∧
    ((start (.fresh config resolver state) p).LeadsBy Undisturbed m →
      (m.world.registry.cache.destroying = true ↔ m.InDestruction) ∧
      (∀ c, m.change = .start c → ¬ m.InDestruction) ∧
      ∀ n, m.change = .refuse (.creationDuringDestruction n) → m.InDestruction) := by
  constructor
  · constructor
    · exact exists_announce h rfl
    · intro hlatest
      obtain ⟨k, k', _, hannounce, hstep, hkeep⟩ := hlatest
      exact destroying_of_announce hannounce hstep hkeep
  · intro hundisturbed
    obtain ⟨hle, hiff⟩ := destroying_iff_of_leadsBy config resolver state p hundisturbed
    rw [← inDestruction_iff hle] at hiff
    refine ⟨hiff, ?_, ?_⟩
    · intro c hstart
      rw [← hiff, not_destroying_of_start hstart]
      exact Bool.false_ne_true
    · intro n hrefuse
      rw [← hiff]
      exact destroying_of_refuse hrefuse

def requesting : Program .plain .block :=
  .addHandle "a" (.getOrCreate "b" (.done (.ok ⟨0, .unit⟩)) fun _ => .done (.ok ()))
    (.destroyAll (.done ()))

theorem leadsBy_requesting : ∃ m : Machine .plain,
    (start (.fresh {} none ()) requesting).LeadsBy Undisturbed m ∧
      m.change = .refuse (.creationDuringDestruction "b") := by
  refine ⟨_, .tail (.tail (.tail (.tail .refl ⟨?_, rfl⟩) ⟨?_, rfl⟩) ⟨?_, rfl⟩) ⟨?_, rfl⟩, rfl⟩
  all_goals exact ⟨nofun, nofun, nofun⟩

theorem destroying_of_requesting : ∃ m : Machine .plain,
    (start (.fresh {} none ()) requesting).Leads m ∧
      m.change = .refuse (.creationDuringDestruction "b") ∧
      m.world.registry.cache.destroying = true ∧ m.InDestruction := by
  obtain ⟨m, hundisturbed, hrefuse⟩ := leadsBy_requesting
  have hleads := leads_of_leadsBy hundisturbed
  have hphase := (destroying_iff_announced {} none () requesting hleads).2 hundisturbed
  have hin := hphase.2.2 "b" hrefuse
  exact ⟨m, hleads, hrefuse, hphase.1.mpr hin, hin⟩

def nestedTeardown : Program .plain .block :=
  .addHandle "a"
    (.destroyAll (.getOrCreate "b" (.done (.ok ⟨0, .unit⟩)) fun _ => .done (.ok ())))
    (.destroyAll (.done ()))

theorem leads_nestedTeardown : ∃ m : Machine .plain,
    (start (.fresh {} none ()) nestedTeardown).Leads m ∧ m.change = .start ⟨"b", true, true⟩ ∧
      m.layers = [[.release "a", .wipe]] := by
  refine ⟨_, .tail (.tail (.tail (.tail (.tail (.tail (.tail .refl ⟨trivial, rfl⟩) ⟨trivial, rfl⟩)
    ⟨trivial, rfl⟩) ⟨trivial, rfl⟩) ⟨trivial, rfl⟩) ⟨trivial, rfl⟩) ⟨trivial, rfl⟩, rfl, rfl⟩

theorem not_destroying_iff_inDestruction :
    ¬ ∀ (p : Program .plain .block) (m : Machine .plain), (start (.fresh {} none ()) p).Leads m →
      (m.world.registry.cache.destroying = true ↔ m.InDestruction) ∧
      ∀ c, m.change = .start c → ¬ m.InDestruction := by
  intro h
  obtain ⟨m, hleads, hstart, hlayers⟩ := leads_nestedTeardown
  have hin : m.InDestruction := by
    rw [InDestruction, hlayers]
    simp
  exact (h nestedTeardown m hleads).2 _ hstart hin

end Machine

end InstanceRegistry
