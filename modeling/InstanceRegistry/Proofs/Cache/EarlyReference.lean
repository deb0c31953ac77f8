import InstanceRegistry.Proofs.Cache.EarlyFactory
import InstanceRegistry.Proofs.Cache.Publication
import InstanceRegistry.Proofs.Cache.Settlement
import InstanceRegistry.Proofs.Creation.Exposure
import InstanceRegistry.Proofs.Creation.Unmarking

/-!
This module contains how long a name that is not ready shows the same early reference: until another
early factory is registered for it, until an early factory of the name that was already running
gives another instance, or until a creation of the name comes to its end
(`Machine.early_reference_kept_iff`).
-/

namespace InstanceRegistry

variable {C : Client}

structure Registry.ShowsEarly {ε δ : Type} (r : Registry ε δ) (n : Name) (i : Instance) : Prop where
  not_ready : r.cache.ready.find? n = none
  marked : r.marks.isMarked n = true
  slot : r.cache.slots.find? n = some (.early i)

theorem Registry.lookup_eq_found_iff {ε δ : Type} {r : Registry ε δ} {n : Name} {i : Instance}
    (h : r.cache.ready.find? n = none) (allowEarly : Bool) :
    r.lookup n allowEarly = .found i ↔ r.ShowsEarly n i := by
  constructor
  · intro hlookup
    unfold lookup at hlookup
    rw [h] at hlookup
    dsimp only at hlookup
    split at hlookup
    · next hmarked =>
      split at hlookup
      · next hslot =>
        cases hlookup
        exact ⟨h, hmarked, hslot⟩
      · split at hlookup
        · cases hlookup
        · cases hlookup
      · cases hlookup
    · cases hlookup
  · intro hshows
    simp [lookup, h, hshows.marked, hshows.slot]

theorem Marks.isSome_unmark {m : Marks} {n : Name} (h : m.isMarked n = true) :
    (m.unmark n).isSome = true := by
  rw [isMarked, decide_eq_true_eq] at h
  unfold unmark
  split
  · rfl
  · rfl

def Change.Supersedes (change : Change C) (n : Name) (i : Instance) : Prop :=
  (∃ code, change = .addEarlyFactory n code) ∨ (∃ j, j ≠ i ∧ change = .expose n j) ∨
    ∃ c, change.ended? = some c ∧ c.name = n

section Shift

variable {change : Change C} {r r' : C.Store} {cs cs' : List Creation} {n : Name} {i : Instance}

theorem Shift.isMarked (h : Shift change r cs r' cs') (hmarked : r.marks.isMarked n = true)
    (hended : ∀ c, change.ended? = some c → c.name ≠ n) : r'.marks.isMarked n = true := by
  rw [Marks.isMarked, decide_eq_true_eq] at hmarked ⊢
  rw [h.mem_active_iff]
  refine Or.inr ⟨hmarked, ?_⟩
  intro hunmarks
  obtain ⟨c, hc, hn, _⟩ := hunmarks
  exact hended c hc hn

theorem Registry.slot_perform {o : Operation}
    (hforgets : ¬ Change.Forgets (C := C) (.perform o) n)
    (hready : (r.perform o).registry.cache.ready.find? n = none) :
    (r.perform o).registry.cache.slots.find? n = r.cache.slots.find? n := by
  rw [perform_cache] at hready ⊢
  cases o with
  | register m j =>
    dsimp only at hready ⊢
    split
    · rfl
    · next hm =>
      rw [if_neg hm] at hready
      apply (r.cache.eqOff_publish m j).slots
      rintro rfl
      simp [Cache.publish, Table.find?_insert] at hready
  | remove m =>
    apply (r.cache.eqOff_remove m).slots
    exact fun hnm => hforgets hnm.symm
  | clear => exact absurd trivial hforgets
  | _ => rfl

theorem Shift.ne_consult (h : Shift change r cs r' cs') (hi : r.ShowsEarly n i) :
    change ≠ .consult n := by
  rintro rfl
  cases h with
  | @consult _ _ _ allowEarly e hconsult =>
    rw [(Registry.lookup_eq_found_iff hi.not_ready allowEarly).mpr hi] at hconsult
    cases hconsult

theorem Shift.slot_eq (h : Shift change r cs r' cs') (hi : r.ShowsEarly n i)
    (hforgets : ¬ change.Forgets n) (hready : r'.cache.ready.find? n = none)
    (hsupersedes : ¬ change.Supersedes n i) :
    r'.cache.slots.find? n = r.cache.slots.find? n := by
  have hconsult := h.ne_consult hi
  cases h with
  | perform o => exact Registry.slot_perform hforgets hready
  | @consult _ _ m _ _ _ =>
    apply (r.cache.eqOff_takeSlot m).slots
    rintro rfl
    exact hconsult rfl
  | start hstart =>
    obtain ⟨_, _, _, _, hcache, _⟩ := Registry.startCreation_eq_started hstart
    rw [hcache]
  | conclude c result =>
    apply (r.eqOff_conclude c result).slots
    intro hn
    exact hsupersedes (Or.inr (Or.inr ⟨c, rfl, hn.symm⟩))
  | rollback c =>
    apply (r.eqOff_rollback c).slots
    intro hn
    exact hsupersedes (Or.inr (Or.inr ⟨c, rfl, hn.symm⟩))
  | expose m j =>
    by_cases hn : n = m
    · have hji : j = i := by
        apply Classical.byContradiction
        intro hji
        exact hsupersedes (Or.inr (Or.inl ⟨j, hji, hn ▸ rfl⟩))
      rw [← hn, hji, hi.slot]
      simp [Cache.expose, hi.not_ready, Table.find?_insert]
    · exact (r.cache.eqOff_expose m j).slots n hn
  | addEarlyFactory m code =>
    apply (r.cache.eqOff_addEarlyFactory m code).slots
    rintro rfl
    exact hsupersedes (Or.inl ⟨code, rfl⟩)
  | visit m =>
    apply (r.cache.eqOff_remove m).slots
    exact fun hnm => hforgets hnm.symm
  | wipe => exact absurd trivial hforgets
  | _ => rfl

theorem Shift.showsEarly (h : Shift change r cs r' cs') (hi : r.ShowsEarly n i)
    (hforgets : ¬ change.Forgets n) (hready : r'.cache.ready.find? n = none)
    (hsupersedes : ¬ change.Supersedes n i) : r'.ShowsEarly n i := by
  refine ⟨hready, ?_, ?_⟩
  · apply h.isMarked hi.marked
    intro c hc hn
    exact hsupersedes (Or.inr (Or.inr ⟨c, hc, hn⟩))
  · rw [h.slot_eq hi hforgets hready hsupersedes]
    exact hi.slot

theorem Registry.ShowsEarly.not_settled (h : r.ShowsEarly n i) : ¬ r.cache.Settled n := by
  intro hsettled
  cases hsettled with
  | inl hready =>
    obtain ⟨j, hj⟩ := hready
    rw [h.not_ready] at hj
    cases hj
  | inr habsent =>
    rw [h.slot] at habsent
    cases habsent.1

theorem Shift.not_showsEarly (h : Shift change r cs r' cs') (hi : r.ShowsEarly n i)
    (hsupersedes : change.Supersedes n i) : ¬ r'.ShowsEarly n i := by
  intro hshows
  rcases hsupersedes with ⟨code, hadd⟩ | ⟨j, hji, hexpose⟩ | ⟨c, hended, hn⟩
  · rw [hadd] at h
    cases h
    have hslot := hshows.slot
    have hready : r.cache.ready.contains n = false := by
      rw [Table.contains, hi.not_ready]
      rfl
    simp [Cache.addEarlyFactory, hready, Table.find?_insert] at hslot
  · rw [hexpose] at h
    cases h
    have hslot := hshows.slot
    simp [Cache.expose, hi.not_ready, Table.find?_insert, hji] at hslot
  · -- the end of a creation leaves its name settled, since the name is marked
    apply hshows.not_settled
    rw [← hn]
    have hmarked := Marks.isSome_unmark hi.marked
    cases h with
    | conclude d result =>
      cases hended
      exact Registry.settled_conclude fun _ _ => hn ▸ hmarked
    | rollback d =>
      cases hended
      exact r.settled_rollback c
    | _ => cases hended

end Shift

def Stack.exposures : {r : Role} → Stack C r → List Name
  | _, .bottom => []
  | _, .creating _ _ s => s.exposures
  | _, .exposing n _ _ s => n :: s.exposures
  | _, .settling _ _ _ _ s => s.exposures
  | _, .attempting _ s => s.exposures

namespace Machine

def exposures (m : Machine C) : List Name :=
  match m.control with
  | .run _ s => s.exposures
  | .tear _ _ s => s.exposures
  | .unwind _ s => s.exposures
  | .halted _ => []

section Exposures

variable {n : Name}

theorem exposures_eq_map {r : Role} (s : Stack C r) : s.exposures = s.consulting.map (·.1) := by
  induction s with
  | bottom => rfl
  | creating c next s ih => exact ih
  | exposing m ticket next s ih => exact congrArg (m :: ·) ih
  | settling m ticket tasks next s ih => exact ih
  | attempting next s ih => exact ih

theorem exposures_eq (m : Machine C) : m.exposures = m.consulting.map (·.1) := by
  obtain ⟨w, control⟩ := m
  cases control with
  | run p s => exact exposures_eq_map s
  | tear tasks next s => exact exposures_eq_map s
  | unwind text s => exact exposures_eq_map s
  | halted outcome => rfl

theorem exposures_of_step {m m' : Machine C} (hstep : m.step = some m') (h : n ∈ m'.exposures) :
    n ∈ m.exposures ∨ m.change = .consult n := by
  rw [exposures_eq] at h ⊢
  cases consults_of_step hstep with
  | inl hconsults =>
    obtain ⟨n', e, hconsults⟩ := hconsults
    rw [hconsults.consulting, List.map_cons, List.mem_cons] at h
    cases h with
    | inl hn =>
      rw [hn]
      exact Or.inr hconsults.change
    | inr h => exact Or.inl h
  | inr hnone => exact Or.inl (List.map_subset _ hnone.consulting h)

theorem mem_exposures_of_expose {m : Machine C} {i : Instance} (h : m.change = .expose n i) :
    n ∈ m.exposures := by
  obtain ⟨r, ticket, next, s, hcontrol⟩ := exists_exposing_of_expose h
  obtain ⟨w, control⟩ := m
  cases hcontrol
  exact List.mem_cons_self ..

end Exposures

abbrev Unready (n : Name) : Machine C → Machine C → Prop :=
  LeadsBy fun k => k.ready? n = none ∧ ¬ k.change.Forgets n

variable {m m' k k' : Machine C} {n : Name} {i : Instance}

theorem Unready.ready (h : k.Unready n m') (hm' : m'.ready? n = none) : k.ready? n = none := by
  have hunready : k.LeadsBy (fun j => j.ready? n = none) m' := leadsBy_mono h fun _ hj => hj.1
  exact holds_of_leadsBy hunready hm'

/--
Between two machines another early factory is registered for a name, or an early factory of the name
that is running in the first one gives another instance, or a creation of the name ends.
-/
def Superseded (m m' : Machine C) (n : Name) (i : Instance) : Prop :=
  ∃ k k', m.Unready n k ∧ k.ready? n = none ∧ k.step = some k' ∧ k'.Unready n m' ∧
    ((∃ code, k.change = .addEarlyFactory n code) ∨
      (∃ j, j ≠ i ∧ k.change = .expose n j ∧ n ∈ m.exposures) ∨
      ∃ c, k.change.ended? = some c ∧ c.name = n)

theorem not_forgets_of_supersedes (h : k.change.Supersedes n i) : ¬ k.change.Forgets n := by
  rcases h with ⟨code, hadd⟩ | ⟨j, _, hexpose⟩ | ⟨c, hended, _⟩
  · rw [hadd]
    exact id
  · rw [hexpose]
    exact id
  · cases hchange : k.change with
    | conclude d result => exact id
    | rollback d => exact id
    | _ =>
      rw [hchange] at hended
      cases hended

theorem showsEarly_of_not_superseded (hi : m.world.registry.ShowsEarly n i)
    (hm' : m'.ready? n = none) (hsuperseded : ¬ m.Superseded m' n i) (hk : m.Unready n k)
    (hk' : k.Unready n m') :
    k.world.registry.ShowsEarly n i ∧ (n ∈ k.exposures → n ∈ m.exposures) := by
  -- the run up to `k` is built step by step, each time followed by the rest of the run
  induction hk with
  | refl => exact ⟨hi, id⟩
  | @tail k k' hk hstep ih =>
    obtain ⟨hshows, hexposures⟩ := ih (Relation.ReflTransGen.head hstep hk')
    obtain ⟨⟨hready, hforgets⟩, hstep⟩ := hstep
    have hsupersedes : ¬ k.change.Supersedes n i := by
      intro h
      apply hsuperseded
      refine ⟨k, k', hk, hready, hstep, hk', ?_⟩
      refine h.imp id (Or.imp_left ?_)
      intro hexpose
      obtain ⟨j, hji, hj⟩ := hexpose
      exact ⟨j, hji, hj, hexposures (mem_exposures_of_expose hj)⟩
    have hshift := shift_of_step hstep
    constructor
    · exact hshift.showsEarly hshows hforgets (Unready.ready hk' hm') hsupersedes
    · intro hn
      cases exposures_of_step hstep hn with
      | inl hn => exact hexposures hn
      | inr hconsult => exact absurd hconsult (hshift.ne_consult hshows)

/--
An early reference is what every lookup of its name is answered with, as long as the name is neither
ready nor forgotten, if and only if no other early factory is registered for the name, no early
factory of the name that is running when the reference is first shown gives another instance, and no
creation of the name comes to its end.
-/
theorem early_reference_kept_iff (hready : m.ready? n = none)
    (hi : m.world.registry.lookup n false = .found i) (hm' : m'.ready? n = none) :
    (∀ k, m.Unready n k → k.Unready n m' →
      ∀ allowEarly, k.world.registry.lookup n allowEarly = .found i) ↔
    ¬ m.Superseded m' n i := by
  have hshows := (Registry.lookup_eq_found_iff hready false).mp hi
  constructor
  · intro hkept hsuperseded
    obtain ⟨k, k', hk, hkready, hstep, hk', hchange⟩ := hsuperseded
    have hsupersedes : k.change.Supersedes n i := by
      refine hchange.imp id (Or.imp_left ?_)
      intro hexpose
      obtain ⟨j, hji, hj, _⟩ := hexpose
      exact ⟨j, hji, hj⟩
    have hkk' : k.Unready n k' := .single ⟨⟨hkready, not_forgets_of_supersedes hsupersedes⟩, hstep⟩
    have hki := hkept k hk (hkk'.trans hk') false
    have hk'i := hkept k' (hk.trans hkk') hk' false
    rw [Registry.lookup_eq_found_iff hkready] at hki
    rw [Registry.lookup_eq_found_iff (Unready.ready hk' hm')] at hk'i
    exact (shift_of_step hstep).not_showsEarly hki hsupersedes hk'i
  · intro hsuperseded k hk hk' allowEarly
    obtain ⟨hki, _⟩ := showsEarly_of_not_superseded hshows hm' hsuperseded hk hk'
    exact (Registry.lookup_eq_found_iff hki.not_ready allowEarly).mpr hki

def reexposing : Program .plain .block :=
  .getOrCreate "a"
    (.addEarlyFactory "a" (.done ⟨0, .int 1⟩)
      (.lookup "a" true fun _ => .addEarlyFactory "a" (.done ⟨1, .int 2⟩)
        (.lookup "a" true fun _ => .done (.ok ⟨2, .int 3⟩))))
    fun _ => .done ()

structure Creating (n : Name) (m : Machine C) : Prop where
  running : ∃ c ∈ m.creations, c.name = n
  not_exempt : ¬ n ∈ m.world.registry.marks.exempt
  not_ready : m.ready? n = none

structure KeepsCreating (n : Name) (m : Machine C) : Prop where
  creating : m.Creating n
  not_ended : ∀ c, m.change.ended? = some c → c.name ≠ n
  not_forgets : ¬ m.change.Forgets n

theorem leads_reexposing : ∃ m m' : Machine .plain,
    (start (.fresh {} none ()) reexposing).Leads m ∧ m.LeadsBy (KeepsCreating "a") m' ∧
      m'.Creating "a" ∧ m.world.registry.lookup "a" false = .found ⟨0, .int 1⟩ ∧
      m'.world.registry.lookup "a" false = .found ⟨1, .int 2⟩ := by
  refine ⟨_, _, .head ⟨trivial, rfl⟩ (.head ⟨trivial, rfl⟩ (.head ⟨trivial, rfl⟩
    (.head ⟨trivial, rfl⟩ .refl))), .head ⟨?_, rfl⟩ (.head ⟨?_, rfl⟩ (.head ⟨?_, rfl⟩ .refl)), ?_,
    rfl, rfl⟩
  · exact ⟨⟨⟨_, List.mem_cons_self, rfl⟩, by decide, rfl⟩, fun _ h => (by cases h), id⟩
  · exact ⟨⟨⟨_, List.mem_cons_self, rfl⟩, by decide, rfl⟩, fun _ h => (by cases h), id⟩
  · exact ⟨⟨⟨_, List.mem_cons_self, rfl⟩, by decide, rfl⟩, fun _ h => (by cases h), id⟩
  · exact ⟨⟨_, List.mem_cons_self, rfl⟩, by decide, rfl⟩

theorem not_kept_of_keepsCreating : ¬ ∀ (p : Program .plain .block) (m m' : Machine .plain)
    (n : Name) (i j : Instance), (start (.fresh {} none ()) p).Leads m →
      m.LeadsBy (KeepsCreating n) m' → m'.Creating n →
      m.world.registry.lookup n false = .found i →
      m'.world.registry.lookup n false = .found j → j = i := by
  intro h
  obtain ⟨m, m', hm, hm', hcreating, hi, hj⟩ := leads_reexposing
  cases h reexposing m m' "a" _ _ hm hm' hcreating hi hj

theorem superseded_of_reexposing : ∃ m m' : Machine .plain,
    (start (.fresh {} none ()) reexposing).Leads m ∧ m.ready? "a" = none ∧
      m.world.registry.lookup "a" false = .found ⟨0, .int 1⟩ ∧ m'.ready? "a" = none ∧
      m.Superseded m' "a" ⟨0, .int 1⟩ := by
  obtain ⟨m, m', hm, hm', hcreating, hi, hj⟩ := leads_reexposing
  have hunready : m.Unready "a" m' :=
    leadsBy_mono hm' fun k hk => ⟨hk.creating.not_ready, hk.not_forgets⟩
  have hready := Unready.ready hunready hcreating.not_ready
  refine ⟨m, m', hm, hready, hi, hcreating.not_ready, ?_⟩
  apply Classical.byContradiction
  intro hsuperseded
  have hkept := (early_reference_kept_iff hready hi hcreating.not_ready).mpr hsuperseded m'
    hunready .refl false
  rw [hj] at hkept
  cases hkept

end Machine

end InstanceRegistry
