import InstanceRegistry.Proofs.Cache.EarlyReference

/-!
This module contains whether a name is listed when a lookup finds an instance for it. It is, unless
what the lookup finds is the product of an early factory during whose run the name was taken off the
list (`Machine.listed_of_found_iff`).
-/

namespace InstanceRegistry

variable {C : Client}

structure Cache.Stray {ε : Type} (c : Cache ε) (n : Name) : Prop where
  not_ready : c.ready.find? n = none
  early : ∃ i, c.slots.find? n = some (.early i)
  not_listed : ¬ n ∈ c.listed

inductive Cache.ShowsOne {ε : Type} (c : Cache ε) (n : Name) (i : Instance) : Prop
  | ready (h : c.ready.find? n = some i)
  | early (h : c.ready.find? n = none) (hslot : c.slots.find? n = some (.early i))

def Change.Settles (r : C.Store) (n : Name) : Change C → Prop
  | perform (.register m _) => m = n
  | perform (.remove m) => m = n
  | perform .clear => True
  | conclude c (.ok _) => c.name = n ∧ (r.marks.unmark n).isSome = true
  | conclude c (.error _) => c.name = n
  | rollback c => c.name = n
  | addEarlyFactory m _ => m = n
  | visit m => m = n
  | wipe => True
  | _ => False

namespace Cache

variable {ε : Type} {c c' : Cache ε} {n m : Name}

theorem Settled.not_stray (h : c.Settled n) : ¬ c.Stray n := by
  intro hstray
  obtain ⟨i, hearly⟩ := hstray.early
  cases h with
  | inl hready =>
    obtain ⟨j, hj⟩ := hready
    rw [hstray.not_ready] at hj
    cases hj
  | inr habsent =>
    rw [hearly] at habsent
    cases habsent.1

theorem stray_congr (hready : c'.ready = c.ready) (hslots : c'.slots = c.slots)
    (hlisted : c'.listed = c.listed) : c'.Stray n ↔ c.Stray n := by
  constructor
  · intro h
    exact ⟨hready ▸ h.not_ready, hslots ▸ h.early, hlisted ▸ h.not_listed⟩
  · intro h
    exact ⟨hready ▸ h.not_ready, hslots ▸ h.early, hlisted ▸ h.not_listed⟩

theorem EqOff.stray_iff (h : EqOff c c' m) (hn : n ≠ m) : c'.Stray n ↔ c.Stray n := by
  constructor
  · intro hstray
    refine ⟨?_, ?_, ?_⟩
    · rw [← h.ready n hn]
      exact hstray.not_ready
    · rw [← h.slots n hn]
      exact hstray.early
    · rw [← h.mem_listed hn]
      exact hstray.not_listed
  · intro hstray
    refine ⟨?_, ?_, ?_⟩
    · rw [h.ready n hn]
      exact hstray.not_ready
    · rw [h.slots n hn]
      exact hstray.early
    · rw [h.mem_listed hn]
      exact hstray.not_listed

theorem EqOff.stray_iff_of_not_stray (h : EqOff c c' m) (hm : ¬ c'.Stray m) :
    c'.Stray n ↔ c.Stray n ∧ ¬ m = n := by
  by_cases hn : n = m
  · subst hn
    simp [hm]
  · simp [h.stray_iff hn, Ne.symm hn]

theorem not_stray_of_ready {i : Instance} (h : c.ready.find? n = some i) : ¬ c.Stray n :=
  Settled.not_stray (Or.inl ⟨i, h⟩)

theorem not_stray_of_listed (h : n ∈ c.listed) : ¬ c.Stray n :=
  fun hstray => hstray.not_listed h

theorem not_stray_of_pending {code : ε} (h : c.slots.find? n = some (.pending code)) :
    ¬ c.Stray n := by
  intro hstray
  obtain ⟨i, hearly⟩ := hstray.early
  rw [h] at hearly
  cases hearly

theorem not_stray_takeSlot (c : Cache ε) (n : Name) : ¬ (c.takeSlot n).Stray n := by
  intro hstray
  obtain ⟨i, hearly⟩ := hstray.early
  simp [takeSlot, Table.find?_erase] at hearly

theorem not_stray_clear (c : Cache ε) (n : Name) : ¬ c.clear.Stray n := by
  intro hstray
  obtain ⟨i, hearly⟩ := hstray.early
  cases hearly

theorem not_stray_addEarlyFactory (c : Cache ε) (n : Name) (code : ε) :
    ¬ (c.addEarlyFactory n code).Stray n := by
  unfold addEarlyFactory
  split
  · next hready =>
    obtain ⟨i, hi⟩ := Option.isSome_iff_exists.mp hready
    exact not_stray_of_ready hi
  · apply not_stray_of_listed
    simp

theorem stray_expose_iff (c : Cache ε) (n : Name) (i : Instance) :
    (c.expose n i).2.Stray n ↔ c.ready.find? n = none ∧ ¬ n ∈ c.listed := by
  unfold expose
  split
  · next j hj =>
    rw [hj]
    simp [not_stray_of_ready hj]
  · next hready =>
    constructor
    · intro h
      exact ⟨hready, h.not_listed⟩
    · intro h
      exact ⟨hready, ⟨i, by simp [Table.find?_insert]⟩, h.2⟩

theorem showsOne_expose (c : Cache ε) (n : Name) (i : Instance) :
    (c.expose n i).2.ShowsOne n (c.expose n i).1 := by
  unfold expose
  split
  · next hready => exact .ready hready
  · next hready => exact .early hready (by simp [Table.find?_insert])

end Cache

theorem Registry.showsOne_of_found {ε δ : Type} {r : Registry ε δ} {n : Name} {allowEarly : Bool}
    {i : Instance} (h : r.lookup n allowEarly = .found i) : r.cache.ShowsOne n i := by
  cases hready : r.cache.ready.find? n with
  | some j =>
    have hj : r.lookup n allowEarly = .found j := by
      simp [lookup, hready]
    rw [hj] at h
    cases h
    exact .ready hready
  | none => exact .early hready ((lookup_eq_found_iff hready allowEarly).mp h).slot

section Shift

variable {change : Change C} {r r' : C.Store} {cs cs' : List Creation} {n : Name}

theorem Registry.stray_perform_iff (r : C.Store) (o : Operation) (n : Name) :
    (r.perform o).registry.cache.Stray n ↔
      r.cache.Stray n ∧ ¬ Change.Settles r n (.perform o) := by
  rw [perform_cache]
  cases o with
  | register m i =>
    dsimp only [Change.Settles]
    split
    · next hready =>
      -- a ready name is refused, and was no stray before
      rw [iff_self_and]
      rintro hstray rfl
      obtain ⟨j, hj⟩ := Option.isSome_iff_exists.mp hready
      exact Cache.not_stray_of_ready hj hstray
    · apply (r.cache.eqOff_publish m i).stray_iff_of_not_stray
      exact (r.cache.settled_publish m i).not_stray
  | remove m =>
    apply (r.cache.eqOff_remove m).stray_iff_of_not_stray
    exact (r.cache.settled_remove m).not_stray
  | clear => simp [Change.Settles, Cache.not_stray_clear]
  | suppress f =>
    have hkept : (r.cache.suppress r.suppressedLimit f).Stray n ↔ r.cache.Stray n :=
      Cache.stray_congr rfl rfl rfl
    simp [Change.Settles, hkept]
  | _ => simp [Change.Settles]

theorem Registry.stray_conclude_iff (r : C.Store) (c : Creation)
    (result : Except CreationError Instance) (n : Name) :
    (r.conclude c result).2.cache.Stray n ↔
      r.cache.Stray n ∧ ¬ Change.Settles r n (.conclude c result) := by
  have hsettled (h : ∀ i, result = .ok i → (r.marks.unmark c.name).isSome = true) :
      (r.conclude c result).2.cache.Stray n ↔ r.cache.Stray n ∧ ¬ c.name = n := by
    apply (r.eqOff_conclude c result).stray_iff_of_not_stray
    exact (Registry.settled_conclude h).not_stray
  cases result with
  | ok i =>
    by_cases hmark : (r.marks.unmark c.name).isSome = true
    · rw [hsettled fun _ _ => hmark]
      simp only [Change.Settles]
      grind
    · have hkept : (r.conclude c (.ok i)).2.cache.Stray n ↔ r.cache.Stray n := by
        rw [conclude_ok_cache, if_pos (by simpa using hmark)]
        exact Cache.stray_congr rfl rfl rfl
      rw [hkept]
      simp only [Change.Settles]
      grind
  | error e => exact hsettled nofun

theorem Shift.stray_iff (h : Shift change r cs r' cs') :
    r'.cache.Stray n ↔
      (∃ i, change = .expose n i ∧ r.cache.ready.find? n = none ∧ ¬ n ∈ r.cache.listed) ∨
        r.cache.Stray n ∧ ¬ change.Settles r n := by
  cases h with
  | perform o => simp [Registry.stray_perform_iff]
  | @consult _ _ m _ _ hconsult =>
    obtain ⟨_, _, hslot, _⟩ := Registry.lookup_eq_consult hconsult
    have hkept : (r.cache.takeSlot m).Stray n ↔ r.cache.Stray n := by
      rw [(r.cache.eqOff_takeSlot m).stray_iff_of_not_stray (r.cache.not_stray_takeSlot m),
        and_iff_left_iff_imp]
      rintro hstray rfl
      exact Cache.not_stray_of_pending hslot hstray
    simpa [Change.Settles] using hkept
  | start hstart =>
    obtain ⟨_, _, _, _, hcache, _⟩ := Registry.startCreation_eq_started hstart
    have hkept : r'.cache.Stray n ↔ r.cache.Stray n := by
      rw [hcache]
      exact Cache.stray_congr rfl rfl rfl
    simpa [Change.Settles] using hkept
  | conclude c result => simp [Registry.stray_conclude_iff]
  | rollback c =>
    rw [(r.eqOff_rollback c).stray_iff_of_not_stray (r.settled_rollback c).not_stray]
    simp [Change.Settles]
  | expose m i =>
    by_cases hn : n = m
    · subst hn
      rw [Cache.stray_expose_iff]
      constructor
      · intro h
        exact Or.inl ⟨i, rfl, h⟩
      · intro h
        cases h with
        | inl h => exact h.choose_spec.2
        | inr h => exact ⟨h.1.not_ready, h.1.not_listed⟩
    · rw [(r.cache.eqOff_expose m i).stray_iff hn]
      simp [Change.Settles, Ne.symm hn]
  | addEarlyFactory m code =>
    rw [(r.cache.eqOff_addEarlyFactory m code).stray_iff_of_not_stray
      (r.cache.not_stray_addEarlyFactory m code)]
    simp [Change.Settles]
  | visit m =>
    have hremoved : (r.visit m).cache.Stray n ↔ r.cache.Stray n ∧ ¬ m = n :=
      (r.cache.eqOff_remove m).stray_iff_of_not_stray (r.cache.settled_remove m).not_stray
    simpa [Change.Settles] using hremoved
  | wipe =>
    have hwiped : ¬ r.wipe.cache.Stray n := r.cache.not_stray_clear n
    simp [Change.Settles, hwiped]
  | announce =>
    have hkept : r.announce.cache.Stray n ↔ r.cache.Stray n := Cache.stray_congr rfl rfl rfl
    simpa [Change.Settles] using hkept
  | release m =>
    have hkept : (r.release m).cache.Stray n ↔ r.cache.Stray n := .rfl
    simpa [Change.Settles] using hkept
  | scrub m =>
    have hkept : (r.scrub m).cache.Stray n ↔ r.cache.Stray n := .rfl
    simpa [Change.Settles] using hkept
  | _ => simp [Change.Settles]

theorem Shift.of_consult (h : Shift (.consult n) r cs r' cs') :
    (∃ code, r.cache.slots.find? n = some (.pending code)) ∧ r'.cache.listed = r.cache.listed := by
  cases h with
  | consult hconsult =>
    obtain ⟨_, _, hslot, _⟩ := Registry.lookup_eq_consult hconsult
    exact ⟨⟨_, hslot⟩, rfl⟩

end Shift

namespace Machine

def Lists (m : Machine C) (n : Name) : Prop :=
  n ∈ m.world.registry.cache.listed

structure ExposesUnlisted (n : Name) (m : Machine C) : Prop where
  running : n ∈ m.exposures
  not_listed : ¬ m.Lists n

structure Unlists (n : Name) (m m' : Machine C) : Prop where
  running : n ∈ m.exposures
  listed : m.Lists n
  step : m.step = some m'
  not_listed : ¬ m'.Lists n

/--
On the way from one machine to another, the list of names has lost a name while an early factory was
running for it. The factory came to its end with the name neither ready nor listed again, and since
then the name has not been listed, nor has its slot been taken away.
-/
def ExposedUnlisted (m m' : Machine C) (n : Name) : Prop :=
  ∃ l l' k k' i, m.Leads l ∧ l.Unlists n l' ∧ l'.LeadsBy (ExposesUnlisted n) k ∧
    k.change = .expose n i ∧ k.ready? n = none ∧ ¬ k.Lists n ∧ k.step = some k' ∧
    k'.LeadsBy (fun j => ¬ j.change.Settles j.world.registry n) m'

variable {m m' : Machine C} {n : Name} {i : Instance}

theorem shows_of_lookupAnswer? (h : m.lookupAnswer? = some (n, some i)) (hstep : m.step = some m') :
    m'.world.registry.cache.ShowsOne n i := by
  obtain ⟨r, next, s, w', hnext, hcontrol⟩ := step_of_lookupAnswer? h
  obtain ⟨w, control⟩ := m
  cases hcontrol with
  | inl hlookup =>
    obtain ⟨allowEarly, hlookup⟩ := hlookup
    cases hlookup
    simp only [lookupAnswer?, World.lookupAnswer?] at h
    split at h
    · next hfound =>
      cases h
      cases hstep
      rw [World.exec, World.lookup, hfound]
      exact Registry.showsOne_of_found hfound
    · cases h
    · cases h
  | inr hexpose =>
    obtain ⟨j, ticket, hexpose⟩ := hexpose
    cases hexpose
    cases h
    cases hstep
    exact w.registry.cache.showsOne_expose n j

theorem exists_unlists (config : Config) (resolver : Option (Name → Name)) (state : C.State)
    (p : Program C .block) (hm : (start (.fresh config resolver state) p).Leads m)
    (hn : ExposesUnlisted n m) : ∃ l l', (start (.fresh config resolver state) p).Leads l ∧
      l.Unlists n l' ∧ l'.LeadsBy (ExposesUnlisted n) m := by
  induction hm with
  | refl => cases hn.running
  | @tail k m hk hstep ih =>
    cases exposures_of_step hstep.2 hn.running with
    | inl hrunning =>
      by_cases hlisted : k.Lists n
      · exact ⟨k, m, hk, ⟨hrunning, hlisted, hstep.2, hn.not_listed⟩, .refl⟩
      · obtain ⟨l, l', hl, hunlists, hsince⟩ := ih ⟨hrunning, hlisted⟩
        exact ⟨l, l', hl, hunlists, hsince.tail ⟨⟨hrunning, hlisted⟩, hstep.2⟩⟩
    | inr hconsult =>
      -- the slot of the name was pending, so the name was listed, and the consultation leaves it so
      exfalso
      apply hn.not_listed
      have hshift := shift_of_step hstep.2
      rw [hconsult] at hshift
      obtain ⟨⟨code, hslot⟩, hlisted⟩ := hshift.of_consult
      rw [Lists, hlisted]
      exact (coherent_cache_of_leads config resolver state p hk n).listed_of_pending code hslot

theorem stray_iff (config : Config) (resolver : Option (Name → Name)) (state : C.State)
    (p : Program C .block) (hm : (start (.fresh config resolver state) p).Leads m) (n : Name) :
    m.world.registry.cache.Stray n ↔
      (start (.fresh config resolver state) p).ExposedUnlisted m n := by
  have hiff := iff_exists_since (P := fun k : Machine C => k.world.registry.cache.Stray n)
    (fun k k' hstep => (shift_of_step hstep).stray_iff) hm nofun
  rw [hiff]
  constructor
  · intro h
    obtain ⟨k, k', hk, hexposes, hstep, hsince⟩ := h
    obtain ⟨i, hexpose, hready, hlisted⟩ := hexposes
    obtain ⟨l, l', hl, hunlists, hrun⟩ := exists_unlists config resolver state p hk
      ⟨mem_exposures_of_expose hexpose, hlisted⟩
    exact ⟨l, l', k, k', i, hl, hunlists, hrun, hexpose, hready, hlisted, hstep, hsince⟩
  · intro h
    obtain ⟨l, l', k, k', i, hl, hunlists, hrun, hexpose, hready, hlisted, hstep, hsince⟩ := h
    have hk := hl.trans ((leads_of_step hunlists.step).trans (leads_of_leadsBy hrun))
    exact ⟨k, k', hk, ⟨i, hexpose, hready, hlisted⟩, hstep, hsince⟩

/--
When a lookup has found an instance, its name is listed, and counted, unless the list has lost the
name while an early factory was running for it, and what the factory gave is still what the name
shows.
-/
theorem listed_of_found_iff (config : Config) (resolver : Option (Name → Name)) (state : C.State)
    (p : Program C .block) (hm : (start (.fresh config resolver state) p).Leads m)
    (hfound : m.lookupAnswer? = some (n, some i)) (hstep : m.step = some m') :
    (n ∈ (m'.world.registry.perform .names).answer ↔
      ¬ (start (.fresh config resolver state) p).ExposedUnlisted m' n) ∧
    (m'.world.registry.perform .count).answer =
      (m'.world.registry.perform .names).answer.length := by
  have hm' := hm.trans (leads_of_step hstep)
  refine ⟨?_, rfl⟩
  rw [← stray_iff config resolver state p hm']
  have hcoherent := coherent_cache_of_leads config resolver state p hm' n
  cases shows_of_lookupAnswer? hfound hstep with
  | ready hready =>
    exact iff_of_true (hcoherent.listed_of_ready i hready) (Cache.not_stray_of_ready hready)
  | early hready hearly =>
    constructor
    · exact fun hlisted => Cache.not_stray_of_listed hlisted
    · intro hstray
      apply Classical.byContradiction
      intro hlisted
      exact hstray ⟨hready, ⟨i, hearly⟩, hlisted⟩

def removing : Program .plain .block :=
  .getOrCreate "a"
    (.addEarlyFactory "a" (.call (.remove "a") fun _ => .done ⟨0, .int 1⟩)
      (.lookup "a" true fun _ => .done (.ok ⟨1, .int 2⟩)))
    fun _ => .done ()

theorem leads_removing : ∃ m m' : Machine .plain,
    (start (.fresh {} none ()) removing).Leads m ∧
      m.lookupAnswer? = some ("a", some ⟨0, .int 1⟩) ∧ m.step = some m' ∧
      (m'.world.registry.perform .names).answer = [] := by
  exact ⟨_, _, .head ⟨trivial, rfl⟩ (.head ⟨trivial, rfl⟩ (.head ⟨trivial, rfl⟩
    (.head ⟨trivial, rfl⟩ .refl))), rfl, rfl, rfl⟩

theorem not_listed_of_found : ¬ ∀ (p : Program .plain .block) (m m' : Machine .plain) (n : Name)
    (i : Instance), (start (.fresh {} none ()) p).Leads m →
      m.lookupAnswer? = some (n, some i) → m.step = some m' →
      n ∈ (m'.world.registry.perform .names).answer := by
  intro h
  obtain ⟨m, m', hm, hfound, hstep, hnames⟩ := leads_removing
  have hlisted := h removing m m' "a" _ hm hfound hstep
  rw [hnames] at hlisted
  cases hlisted

theorem exposedUnlisted_of_removing : ∃ m m' : Machine .plain,
    (start (.fresh {} none ()) removing).Leads m ∧
      m.lookupAnswer? = some ("a", some ⟨0, .int 1⟩) ∧ m.step = some m' ∧
      (start (.fresh {} none ()) removing).ExposedUnlisted m' "a" := by
  obtain ⟨m, m', hm, hfound, hstep, hnames⟩ := leads_removing
  refine ⟨m, m', hm, hfound, hstep, ?_⟩
  have hiff := (listed_of_found_iff {} none () removing hm hfound hstep).1
  apply Classical.byContradiction
  intro hlisted
  have hlisted := hiff.mpr hlisted
  rw [hnames] at hlisted
  cases hlisted

end Machine

end InstanceRegistry
