import InstanceRegistry.Proofs.Creation.Outcome
import InstanceRegistry.Proofs.Run

/-!
This module contains how long a name stays marked: until a creation of the name comes to its end
while the name is not exempt. A creation that ends while its name is exempt leaves the mark behind
(`Machine.isMarked_iff_not_unmarked`).
-/

namespace InstanceRegistry

variable {C : Client}

theorem Marks.mem_active_of_mark {m m' : Marks} {n : Name} (h : m.mark n = some m') (k : Name) :
    k ∈ m'.active ↔ k ∈ m.active ∨ k = n ∧ ¬ n ∈ m.exempt := by
  unfold mark at h
  split at h
  · next hexempt =>
    cases h
    simp [hexempt]
  · next hexempt =>
    split at h
    · cases h
    · cases h
      simp [hexempt]

theorem Marks.mem_active_unmark (m : Marks) (n k : Name) :
    k ∈ ((m.unmark n).getD m).active ↔ k ∈ m.active ∧ ¬ (n = k ∧ ¬ k ∈ m.exempt) := by
  unfold unmark
  split
  · next hexempt =>
    have hne : ¬ (n = k ∧ ¬ k ∈ m.exempt) := by
      intro h
      exact h.2 (h.1 ▸ hexempt)
    simp [hne]
  · next hexempt =>
    by_cases hk : n = k
    · have hnk : ¬ k ∈ m.exempt := hk ▸ hexempt
      split
      · simp [hk, hnk]
      · next hactive => simp [hk ▸ hactive]
    · split
      · simp [hk, Ne.symm hk]
      · simp [hk]

def Change.Unmarks (change : Change C) (r : C.Store) (n : Name) : Prop :=
  ∃ c, change.ended? = some c ∧ c.name = n ∧ ¬ n ∈ r.marks.exempt

section Shift

variable {change : Change C} {r r' : C.Store} {cs cs' : List Creation}

theorem Change.unmarks_iff {c : Creation} (h : change.ended? = some c) (n : Name) :
    change.Unmarks r n ↔ c.name = n ∧ ¬ n ∈ r.marks.exempt := by
  simp [Unmarks, h]

theorem Shift.mem_active_iff (h : Shift change r cs r' cs') (n : Name) :
    n ∈ r'.marks.active ↔ (∃ c, change = .start c ∧ c.name = n ∧ c.marks = true) ∨
      n ∈ r.marks.active ∧ ¬ change.Unmarks r n := by
  -- a change that neither starts nor ends a creation leaves the marks as they are
  have hkept : (∀ c, change ≠ .start c) → change.ended? = none → (n ∈ r.marks.active ↔
      (∃ c, change = .start c ∧ c.name = n ∧ c.marks = true) ∨
        n ∈ r.marks.active ∧ ¬ change.Unmarks r n) := by
    intro hstart hended
    simp [Change.Unmarks, hstart, hended]
  cases h with
  | perform o =>
    have hactive : (r.perform o).registry.marks.active = r.marks.active := by
      rw [Registry.perform_marks]
      split
      · rfl
      · rfl
    rw [hactive]
    exact hkept nofun rfl
  | @start _ _ _ k c hstart =>
    obtain ⟨_, _, hc, hmark, _⟩ := Registry.startCreation_eq_started hstart
    have hnew : (∃ d, Change.start (C := C) c = .start d ∧ d.name = n ∧ d.marks = true) ↔
        n = k ∧ ¬ k ∈ r.marks.exempt := by
      simp [hc, eq_comm (a := n)]
    rw [Marks.mem_active_of_mark hmark, hnew, or_comm]
    simp [Change.Unmarks, Change.ended?]
  | conclude c result =>
    rw [Registry.conclude_marks, Marks.mem_active_unmark, Change.unmarks_iff rfl]
    simp
  | rollback c =>
    rw [Registry.rollback_marks, Marks.mem_active_unmark, Change.unmarks_iff rfl]
    simp
  | _ => exact hkept nofun rfl

def Marks.Owned (m : Marks) (cs : List Creation) : Prop :=
  ∀ n ∈ m.active, ∃ c ∈ cs, c.name = n ∧ c.marks = true

theorem Shift.creations_eq (h : Shift change r cs r' cs') :
    (∃ c, change = .start c ∧ cs' = c :: cs) ∨ (∃ c, change.ended? = some c ∧ cs = c :: cs') ∨
      cs' = cs := by
  cases h with
  | start hstart => exact Or.inl ⟨_, rfl, rfl⟩
  | conclude c result => exact Or.inr (Or.inl ⟨c, rfl, rfl⟩)
  | rollback c => exact Or.inr (Or.inl ⟨c, rfl, rfl⟩)
  | _ => exact Or.inr (Or.inr rfl)

theorem Shift.owned (h : Shift change r cs r' cs') (howned : r.marks.Owned cs)
    (hexempt : ∀ c, change.ended? = some c → c.marks = true → ¬ c.name ∈ r.marks.exempt) :
    r'.marks.Owned cs' := by
  intro n hn
  rw [h.mem_active_iff] at hn
  cases hn with
  | inl hnew =>
    obtain ⟨c, hstart, hc⟩ := hnew
    rw [hstart] at h
    cases h
    exact ⟨c, List.mem_cons_self .., hc⟩
  | inr hkept =>
    obtain ⟨c, hc, hn, hmarks⟩ := howned n hkept.1
    rcases h.creations_eq with hcs | hcs | hcs
    · obtain ⟨d, _, hcs⟩ := hcs
      rw [hcs]
      exact ⟨c, List.mem_cons_of_mem d hc, hn, hmarks⟩
    · obtain ⟨d, hended, hcs⟩ := hcs
      rw [hcs, List.mem_cons] at hc
      cases hc with
      | inl hcd =>
        -- the creation that ends would take the mark away
        rw [← hcd] at hended
        exact absurd ⟨c, hended, hn, hn ▸ hexempt c hended hmarks⟩ hkept.2
      | inr hc => exact ⟨c, hc, hn, hmarks⟩
    · rw [hcs]
      exact ⟨c, hc, hn, hmarks⟩

end Shift

namespace Machine

def EndsUnexempted (m : Machine C) : Prop :=
  ∀ c, m.change.ended? = some c → c.marks = true → ¬ c.name ∈ m.world.registry.marks.exempt

variable {m : Machine C}

theorem owned_of_leadsBy (config : Config) (resolver : Option (Name → Name)) (state : C.State)
    (p : Program C .block) (h : (start (.fresh config resolver state) p).LeadsBy EndsUnexempted m) :
    m.world.registry.marks.Owned m.creations := by
  apply of_leadsBy (I := fun r cs => r.marks.Owned cs) h
  · intro n hn
    cases hn
  · intro k r' cs' hk hshift howned
    exact hshift.owned howned hk

theorem exists_started {r : C.Store} {n : Name} (hready : r.cache.ready.find? n = none)
    (hdestroying : r.cache.destroying = false) (hmarked : r.marks.isMarked n = false) :
    ∃ c r', r.startCreation n = .started c r' := by
  rw [Marks.isMarked, decide_eq_false_iff_not] at hmarked
  unfold Registry.startCreation Marks.mark
  by_cases hexempt : n ∈ r.marks.exempt
  · simp [hready, hdestroying, hexempt]
  · simp [hready, hdestroying, hexempt, hmarked]

/--
A name is marked exactly if a creation has marked it and no creation of the name has come to its end
since while the name was not exempt. As long as no creation that marked its name ends while the name
is exempt, no name is marked while no creation is running, and each name that is not ready can be
created then, unless instances are being destroyed.
-/
theorem isMarked_iff_not_unmarked (config : Config) (resolver : Option (Name → Name))
    (state : C.State) (p : Program C .block)
    (h : (start (.fresh config resolver state) p).Leads m) :
    (∀ n, m.world.registry.marks.isMarked n = true ↔
      ∃ k k', (start (.fresh config resolver state) p).Leads k ∧
        (∃ c, k.change = .start c ∧ c.name = n ∧ c.marks = true) ∧ k.step = some k' ∧
        k'.LeadsBy (fun i => ¬ i.change.Unmarks i.world.registry n) m) ∧
    ((start (.fresh config resolver state) p).LeadsBy EndsUnexempted m → m.creations = [] →
      ∀ n, m.world.registry.marks.isMarked n = false ∧
        (m.world.registry.cache.ready.find? n = none →
          m.world.registry.cache.destroying = false →
          ∃ c r, m.world.registry.startCreation n = .started c r)) := by
  constructor
  · intro n
    apply iff_exists_since (P := fun k => k.world.registry.marks.isMarked n = true) _ h
    · exact Bool.false_ne_true
    · intro k k' hstep
      simp only [Marks.isMarked, decide_eq_true_eq]
      exact (shift_of_step hstep).mem_active_iff n
  · intro hexempt hnone n
    have howned := owned_of_leadsBy config resolver state p hexempt
    rw [hnone] at howned
    have hmarked : m.world.registry.marks.isMarked n = false := by
      rw [Marks.isMarked, decide_eq_false_iff_not]
      intro hn
      obtain ⟨c, hc, _⟩ := howned n hn
      cases hc
    refine ⟨hmarked, ?_⟩
    intro hready hdestroying
    exact exists_started hready hdestroying hmarked

def toggling : Program .plain .block :=
  .attempt
    (.getOrCreate "a"
      (.call (.setInCreation "a" false) fun _ =>
        .call (.setInCreation "a" true) fun _ => .panic "stuck")
      fun _ => .done ())
    fun _ => .done ()

theorem leadsBy_toggling : ∃ m : Machine .plain,
    (start (.fresh {} none ()) toggling).LeadsBy EndsUnexempted m ∧ m.creations = [] ∧
      m.world.registry.cache.ready.find? "a" = none ∧
      m.world.registry.cache.destroying = false ∧
      ∃ k k', (start (.fresh {} none ()) toggling).Leads k ∧ k.change = .start ⟨"a", true, true⟩ ∧
        k.step = some k' ∧ k'.Leads m := by
  refine ⟨_, .tail (.tail (.tail (.tail (.tail (.tail .refl ⟨?_, rfl⟩) ⟨?_, rfl⟩) ⟨?_, rfl⟩)
    ⟨?_, rfl⟩) ⟨?_, rfl⟩) ⟨?_, rfl⟩, rfl, rfl, rfl, _, _, .single ⟨trivial, rfl⟩, rfl, rfl,
    .head ⟨trivial, rfl⟩ (.head ⟨trivial, rfl⟩ (.head ⟨trivial, rfl⟩ (leads_of_step rfl)))⟩
  case refine_6 =>
    -- the creation ends with this step, and the exemption has been lifted
    intro c hended _
    cases hended
    decide
  all_goals
    intro c hended
    cases hended

theorem startable_of_toggling : ∃ m : Machine .plain,
    (start (.fresh {} none ()) toggling).Leads m ∧ m.creations = [] ∧
      (∃ k k', (start (.fresh {} none ()) toggling).Leads k ∧
        k.change = .start ⟨"a", true, true⟩ ∧ k.step = some k' ∧ k'.Leads m) ∧
      m.world.registry.marks.isMarked "a" = false ∧
      ∃ c r, m.world.registry.startCreation "a" = .started c r := by
  obtain ⟨m, hexempt, hnone, hready, hdestroying, hstarted⟩ := leadsBy_toggling
  have hleads := leads_of_leadsBy hexempt
  obtain ⟨hmarked, hstartable⟩ :=
    (isMarked_iff_not_unmarked {} none () toggling hleads).2 hexempt hnone "a"
  exact ⟨m, hleads, hnone, hstarted, hmarked, hstartable hready hdestroying⟩

def exempting : Program .plain .block :=
  .getOrCreate "a" (.call (.setInCreation "a" false) fun _ => .done (.ok ⟨0, .unit⟩))
    fun _ => .done ()

theorem leads_exempting : ∃ m : Machine .plain,
    (start (.fresh {} none ()) exempting).Leads m ∧ m.creations = [] ∧
      m.world.registry.marks.isMarked "a" = true := by
  refine ⟨_, .head ⟨trivial, rfl⟩ (.head ⟨trivial, rfl⟩ (.head ⟨trivial, rfl⟩ .refl)), rfl, ?_⟩
  decide

theorem not_isMarked_of_idle : ¬ ∀ (p : Program .plain .block) (m : Machine .plain) (n : Name),
    (start (.fresh {} none ()) p).Leads m → m.creations = [] →
      m.world.registry.marks.isMarked n = false := by
  intro h
  obtain ⟨m, hm, hnone, hmarked⟩ := leads_exempting
  rw [h exempting m "a" hm hnone] at hmarked
  cases hmarked

end Machine

end InstanceRegistry
