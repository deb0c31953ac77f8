import InstanceRegistry.Proofs.Cache.Settlement
import InstanceRegistry.Proofs.Creation.Exposure

/-!
This module contains how the parts of a cache fit together in every moment of a run: no name is
ready and has a slot, and what is ready or pending is listed. As long as nobody changes whether a
name is exempt while it is being created, what does not fit is due to creations that are running, so
that nothing of it is left when none is (`Machine.coherent_of_leads`).
-/

namespace InstanceRegistry

variable {C : Client}

namespace Cache

variable {ε : Type}

structure CoherentAt (c : Cache ε) (n : Name) : Prop where
  slots_of_ready : ∀ i, c.ready.find? n = some i → c.slots.find? n = none
  listed_of_ready : ∀ i, c.ready.find? n = some i → n ∈ c.listed
  listed_of_pending : ∀ code, c.slots.find? n = some (.pending code) → n ∈ c.listed

def Coherent (c : Cache ε) : Prop :=
  ∀ n, c.CoherentAt n

def Shows (c : Cache ε) (n : Name) : Prop :=
  (∃ i, c.ready.find? n = some i) ∨ ∃ code, c.slots.find? n = some (.pending code)

structure Accounted (c : Cache ε) (cs : List Creation) (n : Name) : Prop where
  running_of_early : ∀ i, c.slots.find? n = some (.early i) → ∃ d ∈ cs, d.name = n
  shows_of_listed : n ∈ c.listed → c.Shows n ∨ ∃ d ∈ cs, d.name = n

section Coherent

variable {c c' : Cache ε} {n : Name}

theorem Coherent.of_eqOff (h : c.Coherent) (heq : EqOff c c' n) (hn : c'.CoherentAt n) :
    c'.Coherent := by
  intro m
  by_cases hm : m = n
  · rw [hm]
    exact hn
  · have hmc := h m
    constructor
    · rw [heq.ready m hm, heq.slots m hm]
      exact hmc.slots_of_ready
    · rw [heq.ready m hm, heq.mem_listed hm]
      exact hmc.listed_of_ready
    · rw [heq.slots m hm, heq.mem_listed hm]
      exact hmc.listed_of_pending

theorem Coherent.congr (h : c.Coherent) (hready : c'.ready = c.ready) (hslots : c'.slots = c.slots)
    (hlisted : c'.listed = c.listed) : c'.Coherent := by
  intro m
  have hm := h m
  constructor
  · rw [hready, hslots]
    exact hm.slots_of_ready
  · rw [hready, hlisted]
    exact hm.listed_of_ready
  · rw [hslots, hlisted]
    exact hm.listed_of_pending

theorem coherentAt_of_absent (hready : c.ready.find? n = none) (hslot : c.slots.find? n = none) :
    c.CoherentAt n := by
  constructor
  · intro i hi
    exact hslot
  · intro i hi
    rw [hready] at hi
    cases hi
  · intro code hcode
    rw [hslot] at hcode
    cases hcode

theorem coherent_empty : (empty : Cache ε).Coherent := by
  intro n
  exact coherentAt_of_absent rfl rfl

theorem coherent_clear (c : Cache ε) : c.clear.Coherent := by
  intro n
  exact coherentAt_of_absent rfl rfl

theorem Coherent.publish (h : c.Coherent) (n : Name) (i : Instance) : (c.publish n i).Coherent := by
  apply h.of_eqOff (c.eqOff_publish n i)
  constructor
  · simp [Cache.publish, Table.find?_erase]
  · simp [Cache.publish]
  · simp [Cache.publish]

theorem Coherent.addEarlyFactory (h : c.Coherent) (n : Name) (code : ε) :
    (c.addEarlyFactory n code).Coherent := by
  apply h.of_eqOff (c.eqOff_addEarlyFactory n code)
  unfold Cache.addEarlyFactory
  split
  · exact h n
  · next hready =>
    rw [Table.contains_iff, ← Table.find?_eq_none_iff] at hready
    constructor
    · simp [hready]
    · simp
    · simp

theorem Coherent.takeSlot (h : c.Coherent) (n : Name) : (c.takeSlot n).Coherent := by
  apply h.of_eqOff (c.eqOff_takeSlot n)
  constructor
  · simp [Cache.takeSlot, Table.find?_erase]
  · exact (h n).listed_of_ready
  · simp [Cache.takeSlot, Table.find?_erase]

theorem Coherent.expose (h : c.Coherent) (n : Name) (i : Instance) :
    (c.expose n i).2.Coherent := by
  apply h.of_eqOff (c.eqOff_expose n i)
  unfold Cache.expose
  split
  · exact h n
  · next hready =>
    constructor
    · simp [hready]
    · simp [hready]
    · simp [Table.find?_insert]

theorem Coherent.discard (h : c.Coherent) (hready : c.ready.find? n = none) :
    (c.discard n).Coherent := by
  apply h.of_eqOff (c.eqOff_discard n)
  exact coherentAt_of_absent hready (by simp [Cache.discard, Table.find?_erase])

theorem Coherent.remove (h : c.Coherent) (n : Name) : (c.remove n).Coherent := by
  apply h.of_eqOff (c.eqOff_remove n)
  apply coherentAt_of_absent
  · simp [Cache.remove, Table.find?_erase]
  · simp [Cache.remove, Cache.discard, Table.find?_erase]

end Coherent

section Accounted

variable {c c' : Cache ε} {cs cs' : List Creation} {n m : Name}

theorem Accounted.mono (h : c.Accounted cs n) (hcs : ∀ d ∈ cs, d.name = n → d ∈ cs') :
    c.Accounted cs' n := by
  have hrunning : (∃ d ∈ cs, d.name = n) → ∃ d ∈ cs', d.name = n := by
    intro hd
    obtain ⟨d, hd, hn⟩ := hd
    exact ⟨d, hcs d hd hn, hn⟩
  constructor
  · intro i hi
    exact hrunning (h.running_of_early i hi)
  · intro hn
    exact (h.shows_of_listed hn).imp id hrunning

theorem Accounted.congr (h : c.Accounted cs n) (hready : c'.ready = c.ready)
    (hslots : c'.slots = c.slots) (hlisted : c'.listed = c.listed) : c'.Accounted cs n := by
  constructor
  · rw [hslots]
    exact h.running_of_early
  · unfold Shows
    rw [hready, hslots, hlisted]
    exact h.shows_of_listed

theorem Accounted.of_eqOff (h : c.Accounted cs m) (heq : EqOff c c' n) (hm : m ≠ n) :
    c'.Accounted cs m := by
  constructor
  · rw [heq.slots m hm]
    exact h.running_of_early
  · unfold Shows
    rw [heq.mem_listed hm, heq.ready m hm, heq.slots m hm]
    exact h.shows_of_listed

theorem accounted_of_eqOff (h : ∀ m, c.Accounted cs m) (heq : EqOff c c' n)
    (hcs : ∀ d ∈ cs, d.name ≠ n → d ∈ cs') (hn : c'.Accounted cs' n) (m : Name) :
    c'.Accounted cs' m := by
  by_cases hm : m = n
  · rw [hm]
    exact hn
  · apply ((h m).of_eqOff heq hm).mono
    intro d hd hname
    apply hcs d hd
    rw [hname]
    exact hm

theorem accounted_of_running (h : ∃ d ∈ cs, d.name = n) : c.Accounted cs n :=
  ⟨fun _ _ => h, fun _ => Or.inr h⟩

theorem accounted_of_settled (h : c.CoherentAt n) (hn : c.Settled n) : c.Accounted cs n := by
  cases hn with
  | inl hready =>
    obtain ⟨i, hi⟩ := hready
    constructor
    · intro j hj
      rw [h.slots_of_ready i hi] at hj
      cases hj
    · intro _
      exact Or.inl (Or.inl ⟨i, hi⟩)
  | inr habsent =>
    constructor
    · intro j hj
      rw [habsent.1] at hj
      cases hj
    · intro hlisted
      exact absurd hlisted habsent.2

theorem accounted_addEarlyFactory (h : c.Accounted cs n) (code : ε) :
    (c.addEarlyFactory n code).Accounted cs n := by
  unfold addEarlyFactory
  split
  · exact h
  · constructor
    · simp [Table.find?_insert]
    · intro _
      apply Or.inl
      apply Or.inr
      exists code
      simp [Table.find?_insert]

end Accounted

end Cache

section Shift

variable {change : Change C} {r r' : C.Store} {cs cs' : List Creation}

theorem Registry.coherent_discardUnready (h : r.cache.Coherent) (n : Name) :
    (r.discardUnready n).cache.Coherent := by
  rw [discardUnready_cache]
  split
  · exact h
  · next hready =>
    apply h.discard
    rwa [Table.contains_iff, ← Table.find?_eq_none_iff] at hready

theorem Registry.coherent_perform (h : r.cache.Coherent) (o : Operation) :
    (r.perform o).registry.cache.Coherent := by
  rw [perform_cache]
  cases o with
  | register n i =>
    dsimp only
    split
    · exact h
    · exact h.publish n i
  | suppress f => exact h.congr rfl rfl rfl
  | remove n => exact h.remove n
  | clear => exact Cache.coherent_clear _
  | _ => exact h

theorem Shift.coherent (h : Shift change r cs r' cs') (hr : r.cache.Coherent) :
    r'.cache.Coherent := by
  cases h with
  | perform o => exact Registry.coherent_perform hr o
  | consult _ => exact hr.takeSlot _
  | start hstart =>
    obtain ⟨_, _, _, _, hcache, _⟩ := Registry.startCreation_eq_started hstart
    rw [hcache]
    exact hr.congr rfl rfl rfl
  | conclude c result =>
    cases result with
    | ok i =>
      rw [Registry.conclude_ok_cache]
      split
      · exact hr.congr rfl rfl rfl
      · exact (hr.publish c.name i).congr rfl rfl rfl
    | error e =>
      rw [Registry.conclude_error_cache]
      exact (Registry.coherent_discardUnready hr c.name).congr rfl rfl rfl
  | rollback c =>
    rw [Registry.rollback_cache]
    exact (Registry.coherent_discardUnready hr c.name).congr rfl rfl rfl
  | expose n i => exact hr.expose n i
  | addEarlyFactory n code => exact hr.addEarlyFactory n code
  | announce => exact hr.congr rfl rfl rfl
  | visit n => exact hr.remove n
  | wipe => exact Cache.coherent_clear _
  | _ => exact hr

theorem Registry.accounted_perform (hr : ∀ n, r.cache.Accounted cs n) (o : Operation)
    (hcoherent : (r.perform o).registry.cache.Coherent) :
    ∀ n, (r.perform o).registry.cache.Accounted cs n := by
  rw [perform_cache] at hcoherent ⊢
  cases o with
  | register n i =>
    dsimp only at hcoherent ⊢
    split
    · exact hr
    · next hready =>
      rw [if_neg hready] at hcoherent
      apply Cache.accounted_of_eqOff hr (r.cache.eqOff_publish n i) fun d hd _ => hd
      exact Cache.accounted_of_settled (hcoherent n) (r.cache.settled_publish n i)
  | remove n =>
    apply Cache.accounted_of_eqOff hr (r.cache.eqOff_remove n) fun d hd _ => hd
    exact Cache.accounted_of_settled (hcoherent n) (r.cache.settled_remove n)
  | clear =>
    intro n
    exact ⟨nofun, nofun⟩
  | suppress f =>
    intro n
    exact (hr n).congr rfl rfl rfl
  | _ => exact hr

theorem Shift.accounted (h : Shift change r cs r' cs') (hfollow : r.marks.Follow cs)
    (hexpose : ∀ n i, change = .expose n i → ∃ c ∈ cs, c.name = n) (hr : r.cache.Coherent)
    (haccounted : ∀ n, r.cache.Accounted cs n) : ∀ n, r'.cache.Accounted cs' n := by
  have hcoherent := h.coherent hr
  have hended : ∀ (c : Creation) (cs : List Creation), ∀ d ∈ c :: cs, d.name ≠ c.name → d ∈ cs := by
    intro c cs d hd hne
    rw [List.mem_cons] at hd
    apply hd.resolve_left
    intro hdc
    exact hne (congrArg Creation.name hdc)
  cases h with
  | perform o => exact Registry.accounted_perform haccounted o hcoherent
  | @consult _ _ n _ _ hconsult =>
    -- the name shows nothing while its early factory runs, but it is being created
    apply Cache.accounted_of_eqOff haccounted (r.cache.eqOff_takeSlot n) fun d hd _ => hd
    exact Cache.accounted_of_running (hfollow.exists_creation hconsult)
  | start hstart =>
    obtain ⟨_, _, _, _, hcache, _⟩ := Registry.startCreation_eq_started hstart
    intro n
    rw [hcache]
    refine Cache.Accounted.congr (c := r.cache) ?_ rfl rfl rfl
    apply (haccounted n).mono
    intro d hd _
    exact List.mem_cons_of_mem _ hd
  | conclude c result =>
    apply Cache.accounted_of_eqOff haccounted (r.eqOff_conclude c result) (hended c cs')
    apply Cache.accounted_of_settled (hcoherent c.name)
    exact Registry.settled_conclude fun _ _ => hfollow.isSome_unmark
  | rollback c =>
    apply Cache.accounted_of_eqOff haccounted (r.eqOff_rollback c) (hended c cs')
    exact Cache.accounted_of_settled (hcoherent c.name) (r.settled_rollback c)
  | expose n i =>
    apply Cache.accounted_of_eqOff haccounted (r.cache.eqOff_expose n i) fun d hd _ => hd
    exact Cache.accounted_of_running (hexpose n i rfl)
  | addEarlyFactory n code =>
    apply Cache.accounted_of_eqOff haccounted (r.cache.eqOff_addEarlyFactory n code)
      fun d hd _ => hd
    exact Cache.accounted_addEarlyFactory (haccounted n) code
  | announce =>
    intro n
    exact (haccounted n).congr rfl rfl rfl
  | visit n =>
    apply Cache.accounted_of_eqOff haccounted (r.cache.eqOff_remove n) fun d hd _ => hd
    exact Cache.accounted_of_settled (hcoherent n) (r.cache.settled_remove n)
  | wipe =>
    intro n
    exact ⟨nofun, nofun⟩
  | _ => exact haccounted

end Shift

namespace Machine

variable {m : Machine C}

theorem coherent_cache_of_leads (config : Config) (resolver : Option (Name → Name))
    (state : C.State) (p : Program C .block)
    (h : (start (.fresh config resolver state) p).Leads m) : m.world.registry.cache.Coherent := by
  apply of_leadsBy (I := fun r _ => r.cache.Coherent) h
  · exact Cache.coherent_empty
  · intro k r' cs' _ hshift hk
    exact hshift.coherent hk

theorem accounted_of_leadsBy (config : Config) (resolver : Option (Name → Name)) (state : C.State)
    (p : Program C .block)
    (h : (start (.fresh config resolver state) p).LeadsBy KeepsExemptions m) :
    ∀ n, m.world.registry.cache.Accounted m.creations n := by
  induction h with
  | refl =>
    intro n
    exact ⟨nofun, nofun⟩
  | tail hleads hstep ih =>
    apply (shift_of_step hstep.2).accounted _ _ _ ih
    · exact follow_of_leadsBy config resolver state p hleads
    · intro n i hexpose
      exact (founded_of_leadsBy config resolver state p hleads).exists_creation hexpose
    · exact coherent_cache_of_leads config resolver state p (leads_of_leadsBy hleads)

/--
In every moment of a run no name is ready and has a slot, every name that is ready or has an early
factory is listed, and the listed names are counted once each. As long as nobody changes whether a
name is exempt while it is being created, no early reference is left while no creation is running,
and the listed names are then those that are ready or have an early factory.
-/
theorem coherent_of_leads (config : Config) (resolver : Option (Name → Name)) (state : C.State)
    (p : Program C .block) (h : (start (.fresh config resolver state) p).Leads m) :
    (∀ n, m.world.registry.cache.CoherentAt n) ∧
    (m.world.registry.perform .names).answer.Nodup ∧
    (m.world.registry.perform .count).answer = (m.world.registry.perform .names).answer.length ∧
    ((start (.fresh config resolver state) p).LeadsBy KeepsExemptions m → m.creations = [] →
      (∀ n i, m.world.registry.cache.slots.find? n ≠ some (.early i)) ∧
      ∀ n, n ∈ (m.world.registry.perform .names).answer ↔ m.world.registry.cache.Shows n) := by
  have hcoherent := coherent_cache_of_leads config resolver state p h
  refine ⟨hcoherent, m.world.registry.cache.listed.nodup, rfl, ?_⟩
  intro hkeeps hnone
  have haccounted := accounted_of_leadsBy config resolver state p hkeeps
  rw [hnone] at haccounted
  have hidle : ∀ n, ¬ ∃ d ∈ ([] : List Creation), d.name = n := by
    simp
  constructor
  · intro n i hi
    exact hidle n ((haccounted n).running_of_early i hi)
  · intro n
    constructor
    · intro hn
      exact ((haccounted n).shows_of_listed hn).resolve_right (hidle n)
    · intro hn
      cases hn with
      | inl hready =>
        obtain ⟨i, hi⟩ := hready
        exact (hcoherent n).listed_of_ready i hi
      | inr hpending =>
        obtain ⟨code, hcode⟩ := hpending
        exact (hcoherent n).listed_of_pending code hcode

def abandoning : Program .plain .block :=
  .addEarlyFactory "b" (.done ⟨0, .unit⟩)
    (.attempt
      (.getOrCreate "a"
        (.addEarlyFactory "a" (.done ⟨1, .unit⟩) (.lookup "a" true fun _ => .panic "stuck"))
        fun _ => .done ())
      fun _ => .done ())

theorem leadsBy_abandoning : ∃ k m : Machine .plain,
    (start (.fresh {} none ()) abandoning).LeadsBy KeepsExemptions k ∧
      k.world.registry.cache.slots.find? "a" = some (.early ⟨1, .unit⟩) ∧
      k.LeadsBy KeepsExemptions m ∧ m.creations = [] := by
  refine ⟨_, _, .tail (.tail (.tail (.tail (.tail (.tail .refl ⟨?_, rfl⟩) ⟨?_, rfl⟩) ⟨?_, rfl⟩)
    ⟨?_, rfl⟩) ⟨?_, rfl⟩) ⟨?_, rfl⟩, rfl, .tail (.tail (.tail .refl ⟨?_, rfl⟩) ⟨?_, rfl⟩)
    ⟨?_, rfl⟩, rfl⟩
  all_goals
    intro n value h
    cases h

theorem names_of_abandoning : ∃ k m : Machine .plain,
    (start (.fresh {} none ()) abandoning).LeadsBy KeepsExemptions k ∧
      k.world.registry.cache.slots.find? "a" = some (.early ⟨1, .unit⟩) ∧
      k.LeadsBy KeepsExemptions m ∧ m.creations = [] ∧
      m.world.registry.cache.slots.find? "a" ≠ some (.early ⟨1, .unit⟩) ∧
      ∀ n, n ∈ (m.world.registry.perform .names).answer ↔ m.world.registry.cache.Shows n := by
  obtain ⟨k, m, hk, hearly, hm, hnone⟩ := leadsBy_abandoning
  have hkeeps := hk.trans hm
  obtain ⟨_, _, _, hidle⟩ := coherent_of_leads {} none () abandoning (leads_of_leadsBy hkeeps)
  obtain ⟨hlate, hnames⟩ := hidle hkeeps hnone
  exact ⟨k, m, hk, hearly, hm, hnone, hlate "a" _, hnames⟩

end Machine

end InstanceRegistry
