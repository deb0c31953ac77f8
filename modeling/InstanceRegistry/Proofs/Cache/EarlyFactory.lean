import InstanceRegistry.Proofs.Cache.Coherence
import InstanceRegistry.Proofs.Cache.Publication
import InstanceRegistry.Proofs.Teardown.Handles

/-!
This module contains what becomes of early factories. An early factory waits in the slot of the name
that it was registered for until a lookup takes it out and runs it, and it never gets back there
(`Machine.early_factory_runs_once`).
-/

namespace InstanceRegistry

variable {C : Client}

namespace Cache

variable {ε : Type} {c c' : Cache ε} {n m : Name} {code : ε}

def Pending (c : Cache ε) (n : Name) (code : ε) : Prop :=
  c.slots.find? n = some (.pending code)

theorem Pending.of_erase (h : c'.Pending n code) (hslots : c'.slots = c.slots.erase m) :
    n ≠ m ∧ c.Pending n code := by
  unfold Pending at h
  rw [hslots, Table.find?_erase] at h
  split at h
  · cases h
  · next hn => exact ⟨hn, h⟩

theorem Pending.of_addEarlyFactory {code' : ε} (h : (c.addEarlyFactory m code').Pending n code) :
    n = m ∧ code = code' ∨ c.Pending n code := by
  unfold Pending addEarlyFactory at h
  split at h
  · exact Or.inr h
  · rw [Table.find?_insert] at h
    split at h
    · next hn =>
      cases h
      exact Or.inl ⟨hn, rfl⟩
    · exact Or.inr h

theorem Pending.of_expose {i : Instance} (h : (c.expose m i).2.Pending n code) :
    c.Pending n code := by
  unfold Pending expose at h
  split at h
  · exact h
  · rw [Table.find?_insert] at h
    split at h
    · cases h
    · exact h

end Cache

section Shift

variable {change : Change C} {r r' : C.Store} {cs cs' : List Creation} {n : Name}
  {e : Entrusted C .early}

theorem Registry.pending_of_discardUnready {m : Name}
    (h : (r.discardUnready m).cache.Pending n e) : r.cache.Pending n e := by
  rw [discardUnready_cache] at h
  split at h
  · exact h
  · exact (h.of_erase rfl).2

theorem Registry.pending_of_perform {o : Operation}
    (h : (r.perform o).registry.cache.Pending n e) : r.cache.Pending n e := by
  rw [perform_cache] at h
  cases o with
  | register m i =>
    dsimp only at h
    split at h
    · exact h
    · exact (h.of_erase rfl).2
  | remove m => exact (h.of_erase rfl).2
  | clear => cases h
  | _ => exact h

theorem Shift.pending (h : Shift change r cs r' cs') (hpending : r'.cache.Pending n e) :
    change = .addEarlyFactory n e ∨ r.cache.Pending n e ∧ change ≠ .consult n := by
  cases h with
  | perform o => exact Or.inr ⟨Registry.pending_of_perform hpending, nofun⟩
  | @consult _ _ m _ _ _ =>
    obtain ⟨hn, hpending⟩ := hpending.of_erase rfl
    refine Or.inr ⟨hpending, ?_⟩
    intro hconsult
    cases hconsult
    exact hn rfl
  | start hstart =>
    obtain ⟨_, _, _, _, hcache, _⟩ := Registry.startCreation_eq_started hstart
    rw [hcache] at hpending
    exact Or.inr ⟨hpending, nofun⟩
  | conclude c result =>
    refine Or.inr ⟨?_, nofun⟩
    cases result with
    | ok i =>
      rw [Registry.conclude_ok_cache] at hpending
      split at hpending
      · exact hpending
      · exact (hpending.of_erase rfl).2
    | error e =>
      rw [Registry.conclude_error_cache] at hpending
      exact Registry.pending_of_discardUnready hpending
  | rollback c =>
    rw [Registry.rollback_cache] at hpending
    exact Or.inr ⟨Registry.pending_of_discardUnready hpending, nofun⟩
  | expose m i => exact Or.inr ⟨hpending.of_expose, nofun⟩
  | addEarlyFactory m code =>
    cases hpending.of_addEarlyFactory with
    | inl hnew =>
      rw [hnew.1, hnew.2]
      exact Or.inl rfl
    | inr hpending => exact Or.inr ⟨hpending, nofun⟩
  | visit m => exact Or.inr ⟨(hpending.of_erase rfl).2, nofun⟩
  | wipe => cases hpending
  | _ => exact Or.inr ⟨hpending, nofun⟩

end Shift

def Event.consultation? : Event C → Option (Name × Nat)
  | .began (.early n ticket) => some (n, ticket)
  | _ => none

def World.consultations (w : World C) : List (Name × Nat) :=
  w.history.filterMap Event.consultation?

@[simp]
theorem World.consultations_log (w : World C) (events : List LogEvent) :
    (w.log events).consultations = w.consultations := by
  unfold World.consultations
  rw [filterMap_log]
  intro event
  rfl

def Stack.consulting : {r : Role} → Stack C r → List (Name × Nat)
  | _, .bottom => []
  | _, .creating _ _ s => s.consulting
  | _, .exposing n ticket _ s => (n, ticket) :: s.consulting
  | _, .settling _ _ _ _ s => s.consulting
  | _, .attempting _ s => s.consulting

namespace Machine

def consulting (m : Machine C) : List (Name × Nat) :=
  match m.control with
  | .run _ s => s.consulting
  | .tear _ _ s => s.consulting
  | .unwind _ s => s.consulting
  | .halted _ => []

structure Consults (m m' : Machine C) (n : Name) (e : Entrusted C .early) : Prop where
  looking : ∃ (r : Role) (next : Option Instance → Program C r) (s : Stack C r),
    m.control = .run (.lookup n true next) s ∧
      m'.control = .run e.code (.exposing n e.ticket next s)
  lookup : m.world.registry.lookup n true = .consult e
  consultations : m'.world.consultations = (n, e.ticket) :: m.world.consultations

structure ConsultsNone (m m' : Machine C) : Prop where
  consulting : m'.consulting ⊆ m.consulting
  consultations : m'.world.consultations = m.world.consultations

section Step

variable {w : World C} {r : Role} {m m' : Machine C} {n : Name} {e : Entrusted C .early}

theorem Consults.change (h : m.Consults m' n e) : m.change = .consult n := by
  obtain ⟨r, next, s, hcontrol, _⟩ := h.looking
  have hlookup := h.lookup
  obtain ⟨w, control⟩ := m
  cases hcontrol
  simp only [Machine.change, World.change, hlookup]

theorem Consults.pending (h : m.Consults m' n e) : m.world.registry.cache.Pending n e :=
  (Registry.lookup_eq_consult h.lookup).2.2.1

theorem Consults.consulting (h : m.Consults m' n e) :
    m'.consulting = (n, e.ticket) :: m.consulting := by
  obtain ⟨r, next, s, hcontrol, hcontrol'⟩ := h.looking
  unfold Machine.consulting
  rw [hcontrol, hcontrol']
  rfl

theorem consultsNone_finish (result : C.Result r) (s : Stack C r) :
    ConsultsNone ⟨w, .run (.done result) s⟩ (w.finish result s) := by
  cases s with
  | bottom => exact ⟨List.Subset.refl _, rfl⟩
  | creating c next s =>
    refine ⟨List.Subset.refl _, ?_⟩
    simp only [World.finish, World.conclude, World.run, World.consultations_log]
    rfl
  | exposing n ticket next s => exact ⟨List.subset_cons_self .., rfl⟩
  | settling n ticket tasks next s =>
    refine ⟨List.Subset.refl _, ?_⟩
    simp only [World.finish, World.settled, World.consultations_log]
    rfl
  | attempting next s => exact ⟨List.Subset.refl _, rfl⟩

theorem consults_lookup (allowEarly : Bool) (next : Option Instance → Program C r)
    (s : Stack C r) :
    (∃ e, Consults ⟨w, .run (.lookup n allowEarly next) s⟩ (w.lookup n allowEarly next s) n e) ∨
      ConsultsNone ⟨w, .run (.lookup n allowEarly next) s⟩ (w.lookup n allowEarly next s) := by
  unfold World.lookup
  cases hlookup : w.registry.lookup n allowEarly with
  | found i => exact Or.inr ⟨List.Subset.refl _, rfl⟩
  | absent => exact Or.inr ⟨List.Subset.refl _, rfl⟩
  | consult e =>
    obtain ⟨_, _, _, rfl⟩ := Registry.lookup_eq_consult hlookup
    exact Or.inl ⟨e, ⟨r, next, s, rfl, rfl⟩, hlookup, rfl⟩

theorem consultsNone_getOrCreate (factory : Program C .factory)
    (next : Except RegistryError Instance → Program C r) (s : Stack C r) :
    ConsultsNone ⟨w, .run (.getOrCreate n factory next) s⟩ (w.getOrCreate n factory next s) := by
  unfold World.getOrCreate
  cases w.registry.startCreation n with
  | ready i => exact ⟨List.Subset.refl _, rfl⟩
  | refused error =>
    refine ⟨List.Subset.refl _, ?_⟩
    simp only [World.run, World.consultations_log]
  | started c registry => exact ⟨List.Subset.refl _, rfl⟩

theorem consults_exec (p : Program C r) (s : Stack C r) :
    (∃ n e, Consults ⟨w, .run p s⟩ (w.exec p s) n e) ∨
      ConsultsNone ⟨w, .run p s⟩ (w.exec p s) := by
  cases p with
  | done result => exact Or.inr (consultsNone_finish result s)
  | call o next =>
    refine Or.inr ⟨List.Subset.refl _, ?_⟩
    simp only [World.exec, World.perform, World.run, World.consultations_log]
    rfl
  | lookup n allowEarly next => exact (consults_lookup allowEarly next s).imp (⟨n, ·⟩) id
  | getOrCreate n factory next => exact Or.inr (consultsNone_getOrCreate factory next s)
  | _ => exact Or.inr ⟨List.Subset.refl _, rfl⟩

theorem consultsNone_unwind (text : String) (s : Stack C r) :
    ConsultsNone ⟨w, .unwind text s⟩ (w.unwind text s) := by
  cases s with
  | creating c next s =>
    refine ⟨List.Subset.refl _, ?_⟩
    simp only [World.unwind, World.consultations_log]
    rfl
  | exposing n ticket next s => exact ⟨List.subset_cons_self .., rfl⟩
  | _ => exact ⟨List.Subset.refl _, rfl⟩

theorem consults_of_step (h : m.step = some m') :
    (∃ n e, m.Consults m' n e) ∨ m.ConsultsNone m' := by
  obtain ⟨w, control⟩ := m
  cases control with
  | run p s =>
    cases h
    exact consults_exec p s
  | tear tasks next s =>
    cases tasks with
    | nil =>
      cases h
      exact Or.inr ⟨List.Subset.refl _, rfl⟩
    | cons t tasks =>
      cases h
      cases t <;> exact Or.inr ⟨List.Subset.refl _, rfl⟩
  | unwind text s =>
    cases h
    exact Or.inr (consultsNone_unwind text s)
  | halted outcome => cases h

end Step

section Tickets

variable {m k k' : Machine C} {n : Name} {e : Entrusted C .early}

theorem tickets_le_of_leads (h : m.Leads k) : m.world.tickets ≤ k.world.tickets := by
  induction h with
  | refl => exact Nat.le_refl _
  | tail _ hstep ih =>
    rw [tickets_of_step hstep.2]
    omega

theorem eq_of_tickets_eq (h : m.Leads k) (hm : m.change.tickets = 1)
    (htickets : m.world.tickets = k.world.tickets) : m = k := by
  cases h.cases_head with
  | inl heq => exact heq
  | inr hnext =>
    obtain ⟨i, hstep, hi⟩ := hnext
    have hlt := tickets_le_of_leads hi
    rw [tickets_of_step hstep.2] at hlt
    omega

theorem ticket_of_addEarlyFactory (h : m.change = .addEarlyFactory n e) :
    e.ticket = m.world.tickets := by
  obtain ⟨w, control⟩ := m
  cases control with
  | run p s =>
    cases p with
    | done result => cases s <;> cases h
    | lookup k allowEarly next =>
      simp only [change, World.change] at h
      cases hlookup : w.registry.lookup k allowEarly <;> rw [hlookup] at h <;> cases h
    | getOrCreate k factory next =>
      simp only [change, World.change] at h
      cases hstart : w.registry.startCreation k <;> rw [hstart] at h <;> cases h
    | addEarlyFactory k code next =>
      cases h
      rfl
    | _ => cases h
  | tear tasks next s =>
    cases tasks with
    | nil => cases h
    | cons t tasks => cases t <;> cases h
  | unwind text s => cases s <;> cases h
  | halted outcome => cases h

end Tickets

-- an early factory waits in one slot, or has been run once, or neither
structure OneShot (m : Machine C) : Prop where
  ticket_lt : ∀ n e, m.world.registry.cache.Pending n e → e.ticket < m.world.tickets
  slot_unique : ∀ n n' e e', m.world.registry.cache.Pending n e →
    m.world.registry.cache.Pending n' e' → e.ticket = e'.ticket → n = n'
  consulted_lt : ∀ c ∈ m.world.consultations, c.2 < m.world.tickets
  not_consulted : ∀ n e, m.world.registry.cache.Pending n e →
    ¬ e.ticket ∈ m.world.consultations.map (·.2)
  nodup : (m.world.consultations.map (·.2)).Nodup
  consulted : m.consulting ⊆ m.world.consultations

section OneShot

variable {m m' : Machine C} {n : Name} {e : Entrusted C .early}

theorem OneShot.consult (h : m.OneShot) (hstep : m.step = some m') (hconsults : m.Consults m' n e) :
    m'.OneShot := by
  have hconsulted := hconsults.pending
  have htickets : m'.world.tickets = m.world.tickets := by
    rw [tickets_of_step hstep, hconsults.change]
    rfl
  have hpending : ∀ n' e', m'.world.registry.cache.Pending n' e' →
      m.world.registry.cache.Pending n' e' ∧ n ≠ n' := by
    intro n' e' hpending
    have hshift := (shift_of_step hstep).pending hpending
    rw [hconsults.change] at hshift
    obtain ⟨hpending, hne⟩ := hshift.resolve_left nofun
    exact ⟨hpending, fun hn => hne (congrArg _ hn)⟩
  constructor
  · intro n' e' he'
    rw [htickets]
    exact h.ticket_lt n' e' (hpending n' e' he').1
  · intro n₁ n₂ e₁ e₂ he₁ he₂
    exact h.slot_unique n₁ n₂ e₁ e₂ (hpending n₁ e₁ he₁).1 (hpending n₂ e₂ he₂).1
  · intro c hc
    rw [hconsults.consultations, List.mem_cons] at hc
    rw [htickets]
    cases hc with
    | inl hc =>
      rw [hc]
      exact h.ticket_lt n e hconsulted
    | inr hc => exact h.consulted_lt c hc
  · intro n' e' he'
    obtain ⟨he', hne⟩ := hpending n' e' he'
    rw [hconsults.consultations, List.map_cons, List.mem_cons, not_or]
    constructor
    · intro hticket
      exact hne (h.slot_unique n n' e e' hconsulted he' hticket.symm)
    · exact h.not_consulted n' e' he'
  · rw [hconsults.consultations, List.map_cons, List.nodup_cons]
    exact ⟨h.not_consulted n e hconsulted, h.nodup⟩
  · rw [hconsults.consultations, hconsults.consulting]
    exact List.cons_subset_cons _ h.consulted

theorem OneShot.keep (h : m.OneShot) (hstep : m.step = some m') (hnone : m.ConsultsNone m') :
    m'.OneShot := by
  have htickets := tickets_of_step hstep
  have hpending : ∀ n' e', m'.world.registry.cache.Pending n' e' →
      m.change = .addEarlyFactory n' e' ∨ m.world.registry.cache.Pending n' e' := by
    intro n' e' hpending
    exact ((shift_of_step hstep).pending hpending).imp id And.left
  -- a ticket that has just been given out is not known from before
  have hnew : ∀ n' e', m.change = .addEarlyFactory n' e' → m.world.tickets ≤ e'.ticket := by
    intro n' e' hadd
    exact Nat.le_of_eq (ticket_of_addEarlyFactory hadd).symm
  constructor
  · intro n' e' he'
    cases hpending n' e' he' with
    | inl hadd =>
      rw [htickets, hadd, ticket_of_addEarlyFactory hadd]
      exact Nat.lt_succ_self _
    | inr he' =>
      have hlt := h.ticket_lt n' e' he'
      omega
  · intro n₁ n₂ e₁ e₂ he₁ he₂ hticket
    cases hpending n₁ e₁ he₁ with
    | inl hadd₁ =>
      cases hpending n₂ e₂ he₂ with
      | inl hadd₂ =>
        rw [hadd₁] at hadd₂
        cases hadd₂
        rfl
      | inr he₂ =>
        have hlt := h.ticket_lt n₂ e₂ he₂
        have hle := hnew n₁ e₁ hadd₁
        omega
    | inr he₁ =>
      cases hpending n₂ e₂ he₂ with
      | inl hadd₂ =>
        have hlt := h.ticket_lt n₁ e₁ he₁
        have hle := hnew n₂ e₂ hadd₂
        omega
      | inr he₂ => exact h.slot_unique n₁ n₂ e₁ e₂ he₁ he₂ hticket
  · intro c hc
    rw [hnone.consultations] at hc
    have hlt := h.consulted_lt c hc
    omega
  · intro n' e' he'
    rw [hnone.consultations]
    cases hpending n' e' he' with
    | inl hadd =>
      intro hmem
      obtain ⟨c, hc, hticket⟩ := List.mem_map.mp hmem
      have hlt := h.consulted_lt c hc
      have hle := hnew n' e' hadd
      omega
    | inr he' => exact h.not_consulted n' e' he'
  · rw [hnone.consultations]
    exact h.nodup
  · rw [hnone.consultations]
    exact List.Subset.trans hnone.consulting h.consulted

theorem oneShot_of_leads (config : Config) (resolver : Option (Name → Name)) (state : C.State)
    (p : Program C .block) (h : (start (.fresh config resolver state) p).Leads m) : m.OneShot := by
  induction h with
  | refl => exact ⟨nofun, nofun, nofun, nofun, List.nodup_nil, List.Subset.refl _⟩
  | tail _ hstep ih =>
    cases consults_of_step hstep.2 with
    | inl hconsults =>
      obtain ⟨n, e, hconsults⟩ := hconsults
      exact ih.consult hstep.2 hconsults
    | inr hnone => exact ih.keep hstep.2 hnone

end OneShot

structure Traced (m : Machine C) (n : Name) (e : Entrusted C .early) : Prop where
  pending : ∀ n' e', m.world.registry.cache.Pending n' e' → e'.ticket = e.ticket → n' = n ∧ e' = e
  consulted : ∀ n', (n', e.ticket) ∈ m.world.consultations → n' = n

section Traced

variable {j k m m' : Machine C} {n : Name} {e : Entrusted C .early}

theorem eq_of_addEarlyFactory (hk : j.Leads k) (hadd : k.change = .addEarlyFactory n e)
    (hm : j.Leads m) {n' : Name} {e' : Entrusted C .early}
    (hadd' : m.change = .addEarlyFactory n' e') (hticket : e'.ticket = e.ticket) :
    n' = n ∧ e' = e := by
  rw [ticket_of_addEarlyFactory hadd, ticket_of_addEarlyFactory hadd'] at hticket
  have heq : m = k := by
    cases leadsBy_or_leads hk hm with
    | inl hmk => exact eq_of_tickets_eq hmk (by rw [hadd']; rfl) hticket
    | inr hkm => exact (eq_of_tickets_eq hkm (by rw [hadd]; rfl) hticket.symm).symm
  rw [heq, hadd] at hadd'
  cases hadd'
  exact ⟨rfl, rfl⟩

theorem traced_of_leads (config : Config) (resolver : Option (Name → Name)) (state : C.State)
    (p : Program C .block) (hk : (start (.fresh config resolver state) p).Leads k)
    (hadd : k.change = .addEarlyFactory n e)
    (hm : (start (.fresh config resolver state) p).Leads m) : m.Traced n e := by
  induction hm with
  | refl => exact ⟨nofun, nofun⟩
  | tail hm hstep ih =>
    constructor
    · intro n' e' he' hticket
      cases (shift_of_step hstep.2).pending he' with
      | inl hadd' => exact eq_of_addEarlyFactory hk hadd hm hadd' hticket
      | inr hpending => exact ih.pending n' e' hpending.1 hticket
    · intro n' hn'
      cases consults_of_step hstep.2 with
      | inl hconsults =>
        obtain ⟨n'', e', hconsults⟩ := hconsults
        rw [hconsults.consultations, List.mem_cons] at hn'
        cases hn' with
        | inl hn' =>
          rw [Prod.mk.injEq] at hn'
          rw [hn'.1]
          exact (ih.pending n'' e' hconsults.pending hn'.2.symm).1
        | inr hn' => exact ih.consulted n' hn'
      | inr hnone =>
        rw [hnone.consultations] at hn'
        exact ih.consulted n' hn'

end Traced

theorem step_of_ready {w : World C} {r : Role} {n : Name} {ticket : Nat} {i j : Instance}
    (h : w.registry.cache.ready.find? n = some j) (next : Option Instance → Program C r)
    (s : Stack C r) :
    (w.run (.done i) (.exposing n ticket next s)).step =
      some ((w.record (.ended (.early n ticket))).run (next (some j)) s) := by
  simp only [World.run, step, World.exec, World.finish, World.expose, Cache.expose, h]
  rfl

/--
The code of an early factory is run at most once. It is run to answer a lookup that allows that,
while the name that it was registered for is marked and not ready. From then on no lookup consults
it, least of all one that it makes itself. If the name is ready when it is done, then the lookup is
answered with the ready instance, and the registry is left as it is, with no slot for the name.
-/
theorem early_factory_runs_once (config : Config) (resolver : Option (Name → Name))
    (state : C.State) (p : Program C .block) {r : Role} {k m : Machine C} {n : Name}
    {code : Program C .early} {next : Program C r} {s : Stack C r}
    (hk : (start (.fresh config resolver state) p).Leads k)
    (hcall : k.control = .run (.addEarlyFactory n code next) s)
    (hm : (start (.fresh config resolver state) p).Leads m) :
    (m.world.consultations.map (·.2)).count k.world.tickets ≤ 1 ∧
    (∀ m' n', m.step = some m' →
      m'.world.consultations = (n', k.world.tickets) :: m.world.consultations →
      n' = n ∧ m.ready? n = none ∧ m.world.registry.marks.isMarked n = true ∧
        ∃ (q : Role) (next : Option Instance → Program C q) (s : Stack C q),
          m.control = .run (.lookup n true next) s ∧
          m'.control = .run code (.exposing n k.world.tickets next s)) ∧
    (∀ n', (n', k.world.tickets) ∈ m.consulting →
      n' = n ∧ (n, k.world.tickets) ∈ m.world.consultations) ∧
    ((n, k.world.tickets) ∈ m.world.consultations → ∀ n' allowEarly e,
      m.world.registry.lookup n' allowEarly = .consult e → e.ticket ≠ k.world.tickets) ∧
    ∀ (q : Role) (next : Option Instance → Program C q) (s : Stack C q) (i j : Instance),
      m.control = .run (.done i) (.exposing n k.world.tickets next s) → m.ready? n = some j →
      m.step = some ((m.world.record (.ended (.early n k.world.tickets))).run (next (some j)) s) ∧
        m.world.registry.cache.slots.find? n = none := by
  have hadd : k.change = .addEarlyFactory n ⟨k.world.tickets, code⟩ := by
    unfold change
    rw [hcall]
    rfl
  have honce := oneShot_of_leads config resolver state p hm
  have htraced := traced_of_leads config resolver state p hk hadd hm
  refine ⟨?_, ?_, ?_, ?_, ?_⟩
  · exact List.nodup_iff_count.mp honce.nodup _
  · intro m' n' hstep hnew
    cases consults_of_step hstep with
    | inl hconsults =>
      obtain ⟨n'', e, hconsults⟩ := hconsults
      rw [hconsults.consultations, List.cons.injEq, Prod.mk.injEq] at hnew
      obtain ⟨⟨rfl, hticket⟩, _⟩ := hnew
      obtain ⟨rfl, rfl⟩ := htraced.pending _ e hconsults.pending hticket
      obtain ⟨hready, hmarked, _⟩ := Registry.lookup_eq_consult hconsults.lookup
      exact ⟨rfl, hready, hmarked, hconsults.looking⟩
    | inr hnone =>
      rw [hnone.consultations] at hnew
      exact absurd hnew.symm (List.cons_ne_self _ _)
  · intro n' hn'
    have hconsulted := honce.consulted hn'
    have hn := htraced.consulted n' hconsulted
    rw [hn] at hconsulted
    exact ⟨hn, hconsulted⟩
  · intro hconsulted n' allowEarly e hlookup hticket
    obtain ⟨_, _, hpending, _⟩ := Registry.lookup_eq_consult hlookup
    apply honce.not_consulted n' e hpending
    rw [hticket]
    exact List.mem_map_of_mem hconsulted
  · intro q next s i j hcontrol hready
    constructor
    · obtain ⟨w, control⟩ := m
      cases hcontrol
      exact step_of_ready hready next s
    · exact (coherent_cache_of_leads config resolver state p hm n).slots_of_ready j hready

def publishing : Program .plain .early :=
  .lookup "a" true fun _ => .call (.register "a" ⟨0, .int 1⟩) fun _ => .done ⟨1, .int 2⟩

def selfPublishing : Program .plain .block :=
  .getOrCreate "a"
    (.addEarlyFactory "a" publishing
      (.lookup "a" true fun _ => .done (.error (.custom (.plain "stuck")))))
    fun _ => .done ()

theorem leads_selfPublishing : ∃ (k m m' m'' : Machine .plain)
    (next : Program .plain .factory) (s : Stack .plain .factory)
    (answered : Option Instance → Program .plain .factory),
    (start (.fresh {} none ()) selfPublishing).Leads k ∧ k.world.tickets = 0 ∧
      k.control = .run (.addEarlyFactory "a" publishing next) s ∧ k.Leads m ∧
      m.step = some m' ∧ m'.world.consultations = ("a", 0) :: m.world.consultations ∧
      m'.Leads m'' ∧
      m''.control = .run (r := .early) (.done ⟨1, .int 2⟩) (.exposing "a" 0 answered s) ∧
      m''.ready? "a" = some ⟨0, .int 1⟩ := by
  refine ⟨_, _, _, _, _, _, _, .tail .refl ⟨trivial, rfl⟩, rfl, rfl, .tail .refl ⟨trivial, rfl⟩,
    rfl, rfl, .tail (.tail .refl ⟨trivial, rfl⟩) ⟨trivial, rfl⟩, rfl, ?_⟩
  decide

theorem runs_once_of_selfPublishing : ∃ (m m' m'' : Machine .plain)
    (s : Stack .plain .factory) (answered : Option Instance → Program .plain .factory),
    (start (.fresh {} none ()) selfPublishing).Leads m ∧ m.step = some m' ∧
      m.ready? "a" = none ∧ m.world.registry.marks.isMarked "a" = true ∧
      (∃ (r : Role) (next : Option Instance → Program .plain r) (s : Stack .plain r),
        m'.control = .run publishing (.exposing "a" 0 next s)) ∧
      m'.Leads m'' ∧ (m''.world.consultations.map (·.2)).count 0 ≤ 1 ∧
      m''.step = some ((m''.world.record (.ended (.early "a" 0))).run
        (answered (some ⟨0, .int 1⟩)) s) := by
  obtain ⟨k, m, m', m'', next, s, answered, hk, htickets, hcall, hkm, hstep, hnew, hm'', hdone,
    hready⟩ := leads_selfPublishing
  have hm := hk.trans hkm
  have hkm'' := (hm.tail ⟨trivial, hstep⟩).trans hm''
  obtain ⟨_, hrun, _⟩ := early_factory_runs_once {} none () selfPublishing hk hcall hm
  obtain ⟨hcount, _, _, _, hanswer⟩ :=
    early_factory_runs_once {} none () selfPublishing hk hcall hkm''
  rw [htickets] at hrun hcount hanswer
  obtain ⟨_, hmready, hmarked, q, next, s', _, hcontrol⟩ := hrun m' "a" hstep hnew
  refine ⟨m, m', m'', s, answered, hm, hstep, hmready, hmarked, ⟨q, next, s', hcontrol⟩, hm'',
    hcount, ?_⟩
  exact (hanswer _ _ _ _ _ hdone hready).1

end Machine

end InstanceRegistry
