import InstanceRegistry.Machine.Run
import Mathlib.Logic.Relation

/-!
This module contains runs of the machine, step by step. Seen from the registry, a step makes one of
a few changes, and starts or ends at most one creation (`Machine.shift_of_step`). What holds in
every moment of a run is shown change by change.
-/

namespace InstanceRegistry

variable {C : Client}

abbrev Client.Store (C : Client) := Registry (Entrusted C .early) (Entrusted C .callback)

abbrev Client.plain : Client :=
  ⟨Unit, Empty, Unit⟩

inductive Change (C : Client) where
  | idle
  | refuse (error : RegistryError)
  | perform (operation : Operation)
  | consult (name : Name)
  | start (creation : Creation)
  | conclude (creation : Creation) (result : Except CreationError Instance)
  | rollback (creation : Creation)
  | expose (name : Name) (inst : Instance)
  | addEarlyFactory (name : Name) (code : Entrusted C .early)
  | addHandle (name : Name) (code : Entrusted C .callback)
  | announce
  | visit (name : Name)
  | release (name : Name)
  | scrub (name : Name)
  | wipe

def Change.refusal? (r : C.Store) : Change C → Option RegistryError
  | refuse e => some e
  | perform (.register n i) =>
    match (r.register n i).answer with
    | .ok _ => none
    | .error e => some e
  | conclude c result =>
    match (r.conclude c result).1 with
    | .ok _ => none
    | .error e => some e
  | _ => none

def Change.ended? : Change C → Option Creation
  | conclude c _ => some c
  | rollback c => some c
  | _ => none

namespace Registry

variable {ε δ : Type}

def visit (r : Registry ε δ) (n : Name) : Registry ε δ :=
  { (r.detach n).2 with graph := (r.graph.takeDependents n).2 }

def release (r : Registry ε δ) (n : Name) : Registry ε δ :=
  { r with graph := (r.graph.takeContained n).2 }

def scrub (r : Registry ε δ) (n : Name) : Registry ε δ :=
  { r with graph := r.graph.removeReferences n }

def announce (r : Registry ε δ) : Registry ε δ :=
  { r with cache := { r.cache with destroying := true } }

end Registry

/--
What a change leaves of a registry and of the creations that are running, the innermost first.
-/
inductive Shift : Change C → C.Store → List Creation → C.Store → List Creation → Prop
  | idle {r : C.Store} {cs : List Creation} : Shift .idle r cs r cs
  | refuse {r : C.Store} {cs : List Creation} {n : Name} {e : RegistryError}
    (h : r.startCreation n = .refused e) : Shift (.refuse e) r cs r cs
  | perform {r : C.Store} {cs : List Creation} (o : Operation) :
    Shift (.perform o) r cs (r.perform o).registry cs
  | consult {r : C.Store} {cs : List Creation} {n : Name} {allowEarly : Bool}
    {e : Entrusted C .early} (h : r.lookup n allowEarly = .consult e) :
    Shift (.consult n) r cs { r with cache := r.cache.takeSlot n } cs
  | start {r r' : C.Store} {cs : List Creation} {n : Name} {c : Creation}
    (h : r.startCreation n = .started c r') : Shift (.start c) r cs r' (c :: cs)
  | conclude {r : C.Store} {cs : List Creation} (c : Creation)
    (result : Except CreationError Instance) :
    Shift (.conclude c result) r (c :: cs) (r.conclude c result).2 cs
  | rollback {r : C.Store} {cs : List Creation} (c : Creation) :
    Shift (.rollback c) r (c :: cs) (r.rollback c).2 cs
  | expose {r : C.Store} {cs : List Creation} (n : Name) (i : Instance) :
    Shift (.expose n i) r cs { r with cache := (r.cache.expose n i).2 } cs
  | addEarlyFactory {r : C.Store} {cs : List Creation} (n : Name) (code : Entrusted C .early) :
    Shift (.addEarlyFactory n code) r cs { r with cache := r.cache.addEarlyFactory n code } cs
  | addHandle {r : C.Store} {cs : List Creation} (n : Name) (code : Entrusted C .callback) :
    Shift (.addHandle n code) r cs { r with handles := r.handles.insert n code } cs
  | announce {r : C.Store} {cs : List Creation} : Shift .announce r cs r.announce cs
  | visit {r : C.Store} {cs : List Creation} (n : Name) : Shift (.visit n) r cs (r.visit n) cs
  | release {r : C.Store} {cs : List Creation} (n : Name) : Shift (.release n) r cs (r.release n) cs
  | scrub {r : C.Store} {cs : List Creation} (n : Name) : Shift (.scrub n) r cs (r.scrub n) cs
  | wipe {r : C.Store} {cs : List Creation} : Shift .wipe r cs r.wipe cs

theorem Shift.eq_of_conclude {c : Creation} {result : Except CreationError Instance}
    {r r' : C.Store} {cs cs' : List Creation} (h : Shift (.conclude c result) r cs r' cs') :
    r' = (r.conclude c result).2 := by
  cases h
  rfl

theorem Shift.eq_of_rollback {c : Creation} {r r' : C.Store} {cs cs' : List Creation}
    (h : Shift (.rollback c) r cs r' cs') : r' = (r.rollback c).2 := by
  cases h
  rfl

theorem Shift.eq_cons_of_ended {change : Change C} {r r' : C.Store} {cs cs' : List Creation}
    (h : Shift change r cs r' cs') {c : Creation} (hended : change.ended? = some c) :
    cs = c :: cs' := by
  cases h with
  | conclude d result =>
    cases hended
    rfl
  | rollback d =>
    cases hended
    rfl
  | _ => cases hended

def Stack.creations : {r : Role} → Stack C r → List Creation
  | _, .bottom => []
  | _, .creating c _ s => c :: s.creations
  | _, .exposing _ _ _ s => s.creations
  | _, .settling _ _ _ _ s => s.creations
  | _, .attempting _ s => s.creations

def Stack.changeAtEnd : {r : Role} → C.Result r → Stack C r → Change C
  | _, _, .bottom => .idle
  | _, result, .creating c _ _ => .conclude c result
  | _, i, .exposing n _ _ _ => .expose n i
  | _, _, .settling _ _ _ _ _ => .idle
  | _, _, .attempting _ _ => .idle

def Stack.changeAtPanic : {r : Role} → Stack C r → Change C
  | _, .creating c _ _ => .rollback c
  | _, _ => .idle

def World.change {r : Role} (w : World C) (p : Program C r) (s : Stack C r) : Change C :=
  match p with
  | .done result => s.changeAtEnd result
  | .call o _ => .perform o
  | .lookup n allowEarly _ =>
    match w.registry.lookup n allowEarly with
    | .consult _ => .consult n
    | _ => .idle
  | .getOrCreate n _ _ =>
    match w.registry.startCreation n with
    | .ready _ => .idle
    | .refused e => .refuse e
    | .started c _ => .start c
  | .addEarlyFactory n code _ => .addEarlyFactory n ⟨w.tickets, code⟩
  | .addHandle n code _ => .addHandle n ⟨w.tickets, code⟩
  | .destroyAll _ => .announce
  | _ => .idle

def World.lookupAnswerAtEnd? (w : World C) : {r : Role} → C.Result r → Stack C r →
    Option (Name × Option Instance)
  | _, i, .exposing n _ _ _ => some (n, some (w.registry.cache.expose n i).1)
  | _, _, _ => none

def World.lookupAnswer? {r : Role} (w : World C) (p : Program C r) (s : Stack C r) :
    Option (Name × Option Instance) :=
  match p with
  | .done result => w.lookupAnswerAtEnd? result s
  | .lookup n allowEarly _ =>
    match w.registry.lookup n allowEarly with
    | .found i => some (n, some i)
    | .absent => some (n, none)
    | .consult _ => none
  | _ => none

def Task.change : Task C → Change C
  | .visit n => .visit n
  | .settle _ _ => .idle
  | .release n => .release n
  | .scrub n => .scrub n
  | .wipe => .wipe

theorem World.filterMap_log {β : Type} (w : World C) (events : List LogEvent)
    (f : Event C → Option β) (hf : ∀ event, f (.logged event) = none) :
    (w.log events).history.filterMap f = w.history.filterMap f := by
  have hnone : (events.map Event.logged).reverse.filterMap f = [] := by
    rw [List.filterMap_eq_nil_iff]
    intro e he
    rw [List.mem_reverse, List.mem_map] at he
    obtain ⟨event, _, he⟩ := he
    rw [← he]
    exact hf event
  unfold World.log
  rw [List.filterMap_append, hnone, List.nil_append]

def World.fresh (config : Config) (resolver : Option (Name → Name)) (state : C.State) :
    World C where
  registry := .empty config resolver
  state := state
  history := []
  tickets := 0

namespace Registry

variable {r : C.Store} {n m : Name}

theorem resolve_of_find?_eq_none (hresolver : r.resolver = none)
    (h : r.aliases.targets.find? n = none) : r.resolve n = n := by
  unfold resolve AliasTable.canonical
  rw [hresolver, AliasTable.chain_of_find?_eq_none h]
  rfl

theorem resolve_of_find?_eq_some (hresolver : r.resolver = none)
    (h : r.aliases.targets.find? n = some m)
    (hm : (r.aliases.targets.erase n).find? m = none) : r.resolve n = m := by
  unfold resolve AliasTable.canonical
  rw [hresolver, AliasTable.chain_of_find?_eq_some h, AliasTable.chain_of_find?_eq_none hm]
  rfl

end Registry

theorem World.resolve_fresh (config : Config) (state : C.State) :
    (fresh config none state).registry.resolve = id := by
  funext n
  exact Registry.resolve_of_find?_eq_none rfl rfl

namespace Machine

def creations (m : Machine C) : List Creation :=
  match m.control with
  | .run _ s => s.creations
  | .tear _ _ s => s.creations
  | .unwind _ s => s.creations
  | .halted _ => []

def change (m : Machine C) : Change C :=
  match m.control with
  | .run p s => m.world.change p s
  | .tear [] _ _ => .idle
  | .tear (t :: _) _ _ => t.change
  | .unwind _ s => s.changeAtPanic
  | .halted _ => .idle

def lookupAnswer? (m : Machine C) : Option (Name × Option Instance) :=
  match m.control with
  | .run p s => m.world.lookupAnswer? p s
  | _ => none

variable {w : World C} {r : Role}

theorem shift_finish (result : C.Result r) (s : Stack C r) :
    Shift (s.changeAtEnd result) w.registry s.creations
      (w.finish result s).world.registry (w.finish result s).creations := by
  cases s with
  | bottom => apply Shift.idle
  | creating c next s => apply Shift.conclude
  | exposing n ticket next s => apply Shift.expose
  | settling n ticket tasks next s => apply Shift.idle
  | attempting next s => apply Shift.idle

theorem shift_lookup (n : Name) (allowEarly : Bool) (next : Option Instance → Program C r)
    (s : Stack C r) :
    Shift (w.change (.lookup n allowEarly next) s) w.registry s.creations
      (w.lookup n allowEarly next s).world.registry (w.lookup n allowEarly next s).creations := by
  simp only [World.change, World.lookup]
  split
  · next e h =>
    rw [h]
    apply Shift.consult h
  · next h =>
    split
    · apply Shift.idle
    · apply Shift.idle
    · next e he =>
      exact absurd he (h e)

theorem shift_getOrCreate (n : Name) (factory : Program C .factory)
    (next : Except RegistryError Instance → Program C r) (s : Stack C r) :
    Shift (w.change (.getOrCreate n factory next) s) w.registry s.creations
      (w.getOrCreate n factory next s).world.registry
      (w.getOrCreate n factory next s).creations := by
  simp only [World.change, World.getOrCreate]
  cases h : w.registry.startCreation n with
  | ready i => apply Shift.idle
  | refused e => apply Shift.refuse h
  | started c registry => apply Shift.start h

theorem shift_exec (p : Program C r) (s : Stack C r) :
    Shift (w.change p s) w.registry s.creations
      (w.exec p s).world.registry (w.exec p s).creations := by
  cases p with
  | done result => apply shift_finish
  | panic text => apply Shift.idle
  | read next => apply Shift.idle
  | write state next => apply Shift.idle
  | note n next => apply Shift.idle
  | call o next => apply Shift.perform
  | lookup n allowEarly next => apply shift_lookup
  | getOrCreate n factory next => apply shift_getOrCreate
  | addEarlyFactory n code next => apply Shift.addEarlyFactory
  | addHandle n code next => apply Shift.addHandle
  | destroy n next => apply Shift.idle
  | destroyAll next => apply Shift.announce
  | attempt body next => apply Shift.idle

theorem shift_work (t : Task C) (tasks : List (Task C)) (next : Program C r) (s : Stack C r) :
    Shift t.change w.registry s.creations
      (w.work t tasks next s).world.registry (w.work t tasks next s).creations := by
  cases t with
  | visit n => apply Shift.visit
  | settle n handle => apply Shift.idle
  | release n => apply Shift.release
  | scrub n => apply Shift.scrub
  | wipe => apply Shift.wipe

theorem shift_unwind (text : String) (s : Stack C r) :
    Shift s.changeAtPanic w.registry s.creations
      (w.unwind text s).world.registry (w.unwind text s).creations := by
  cases s with
  | bottom => apply Shift.idle
  | creating c next s => apply Shift.rollback
  | exposing n ticket next s => apply Shift.idle
  | settling n ticket tasks next s => apply Shift.idle
  | attempting next s => apply Shift.idle

theorem shift_of_step {m m' : Machine C} (h : m.step = some m') :
    Shift m.change m.world.registry m.creations m'.world.registry m'.creations := by
  obtain ⟨w, control⟩ := m
  cases control with
  | run p s =>
    cases h
    apply shift_exec
  | tear tasks next s =>
    cases tasks with
    | nil =>
      cases h
      apply Shift.idle
    | cons t tasks =>
      cases h
      apply shift_work
  | unwind text s =>
    cases h
    apply shift_unwind
  | halted outcome => cases h

theorem change_of_step_eq_none {m : Machine C} (h : m.step = none) : m.change = .idle := by
  obtain ⟨w, control⟩ := m
  cases control with
  | run p s => cases h
  | tear tasks next s =>
    cases tasks with
    | nil => cases h
    | cons t tasks => cases h
  | unwind text s => cases h
  | halted outcome => rfl

theorem exists_call_of_perform {m : Machine C} {o : Operation} (h : m.change = .perform o) :
    ∃ (r : Role) (next : o.Answer → Program C r) (s : Stack C r),
      m.control = .run (.call o next) s := by
  obtain ⟨w, control⟩ := m
  cases control with
  | run p s =>
    cases p with
    | done result =>
      cases s with
      | _ => cases h
    | call o' next =>
      cases h
      exact ⟨_, next, s, rfl⟩
    | lookup n allowEarly next =>
      simp only [change, World.change] at h
      split at h
      · cases h
      · cases h
    | getOrCreate n factory next =>
      simp only [change, World.change] at h
      split at h
      · cases h
      · cases h
      · cases h
    | _ => cases h
  | tear tasks next s =>
    cases tasks with
    | nil => cases h
    | cons t tasks =>
      cases t with
      | _ => cases h
  | unwind text s =>
    cases s with
    | _ => cases h
  | halted outcome => cases h

theorem step_of_lookupAnswer? {m : Machine C} {n : Name} {answer : Option Instance}
    (h : m.lookupAnswer? = some (n, answer)) :
    ∃ (r : Role) (next : Option Instance → Program C r) (s : Stack C r) (w' : World C),
      m.step = some (w'.run (next answer) s) ∧
      ((∃ allowEarly, m.control = .run (.lookup n allowEarly next) s) ∨
        ∃ i ticket, m.control = .run (.done (r := .early) i) (.exposing n ticket next s)) := by
  obtain ⟨w, control⟩ := m
  cases control with
  | @run r p s =>
    cases p with
    | done result =>
      cases s with
      | exposing n ticket next s =>
        cases h
        exact ⟨_, next, s, _, rfl, .inr ⟨result, ticket, rfl⟩⟩
      | _ => cases h
    | lookup n allowEarly next =>
      simp only [lookupAnswer?, World.lookupAnswer?] at h
      split at h
      · next hfound =>
        cases h
        refine ⟨r, next, s, w, ?_, .inl ⟨allowEarly, rfl⟩⟩
        simp only [step, World.exec, World.lookup, hfound]
      · next habsent =>
        cases h
        refine ⟨r, next, s, w, ?_, .inl ⟨allowEarly, rfl⟩⟩
        simp only [step, World.exec, World.lookup, habsent]
      · cases h
    | _ => cases h
  | _ => cases h

def StepBy (P : Machine C → Prop) (m m' : Machine C) : Prop :=
  P m ∧ m.step = some m'

abbrev LeadsBy (P : Machine C → Prop) : Machine C → Machine C → Prop :=
  Relation.ReflTransGen (StepBy P)

abbrev Leads : Machine C → Machine C → Prop :=
  LeadsBy fun _ => True

theorem leads_of_step {m m' : Machine C} (h : m.step = some m') : m.Leads m' := by
  apply Relation.ReflTransGen.single
  exact ⟨trivial, h⟩

theorem leadsBy_mono {P Q : Machine C → Prop} {m m' : Machine C} (h : m.LeadsBy P m')
    (hPQ : ∀ k, P k → Q k) : m.LeadsBy Q m' :=
  Relation.ReflTransGen.mono (fun k _ hstep => ⟨hPQ k hstep.1, hstep.2⟩) _ _ h

theorem holds_of_leadsBy {P : Machine C → Prop} {m m' : Machine C} (h : m.LeadsBy P m')
    (hm' : P m') : P m := by
  cases h.cases_head with
  | inl heq => rwa [heq]
  | inr hnext =>
    obtain ⟨_, hstep, _⟩ := hnext
    exact hstep.1

theorem leads_of_leadsBy {P : Machine C → Prop} {m m' : Machine C} (h : m.LeadsBy P m') :
    m.Leads m' :=
  leadsBy_mono h fun _ _ => trivial

theorem leadsBy_or_leads {P : Machine C → Prop} {m m' k : Machine C} (h : m.LeadsBy P m')
    (hk : m.Leads k) : k.LeadsBy P m' ∨ m'.Leads k := by
  induction hk with
  | refl => exact Or.inl h
  | @tail k k' _ hstep ih =>
    cases ih with
    | inr hk => exact Or.inr (hk.tail hstep)
    | inl hk =>
      cases hk.cases_head with
      | inl heq =>
        rw [← heq]
        exact Or.inr (.single hstep)
      | inr hnext =>
        -- a machine has one next step, so the runs agree as far as both go
        obtain ⟨i, hi, hnext⟩ := hnext
        have heq : some k' = some i := hstep.2.symm.trans hi.2
        rw [Option.some.injEq] at heq
        rw [heq]
        exact Or.inl hnext

theorem eq_of_leads {m m' : Machine C} (h : m.Leads m') (hm : m.step = none) : m = m' := by
  cases h.cases_head with
  | inl heq => exact heq
  | inr hnext =>
    obtain ⟨k, hk, _⟩ := hnext
    have hstep := hk.2
    rw [hm] at hstep
    cases hstep

theorem halted_unique {m k k' : Machine C} (h : m.Leads k) (h' : m.Leads k') (hk : k.step = none)
    (hk' : k'.step = none) : k = k' := by
  cases leadsBy_or_leads h h' with
  | inl hleads => exact (eq_of_leads hleads hk').symm
  | inr hleads => exact eq_of_leads hleads hk

/--
What some steps bring about, and others undo, is true of a machine exactly if it has been brought
about before, and not been undone since.
-/
theorem iff_exists_since {P On Off : Machine C → Prop}
    (hstep : ∀ k k', k.step = some k' → (P k' ↔ On k ∨ P k ∧ ¬ Off k)) {m m' : Machine C}
    (h : m.Leads m') (hm : ¬ P m) :
    P m' ↔ ∃ k k', m.Leads k ∧ On k ∧ k.step = some k' ∧ k'.LeadsBy (fun i => ¬ Off i) m' := by
  constructor
  · intro hm'
    induction h with
    | refl => exact absurd hm' hm
    | @tail i i' hi hi' ih =>
      rw [hstep i i' hi'.2] at hm'
      cases hm' with
      | inl hon => exact ⟨i, i', hi, hon, hi'.2, .refl⟩
      | inr hkept =>
        obtain ⟨k, k', hk, hon, hk', hsince⟩ := ih hkept.1
        exact ⟨k, k', hk, hon, hk', hsince.tail ⟨hkept.2, hi'.2⟩⟩
  · intro hsince
    obtain ⟨k, k', _, hon, hk', hsince⟩ := hsince
    clear h
    induction hsince with
    | refl => exact (hstep k k' hk').mpr (Or.inl hon)
    | tail _ hi' ih => exact (hstep _ _ hi'.2).mpr (Or.inr ⟨ih, hi'.1⟩)

inductive MakesBy (P : Machine C → Prop) (m : Machine C) : List (Change C) → Machine C → Prop
  | refl : MakesBy P m [] m
  | tail {changes : List (Change C)} {k k' : Machine C} (h : MakesBy P m changes k) (hk : P k)
    (hstep : k.step = some k') : MakesBy P m (changes ++ [k.change]) k'

theorem of_leadsBy {P : Machine C → Prop} {I : C.Store → List Creation → Prop} {m m' : Machine C}
    (h : m.LeadsBy P m') (hstart : I m.world.registry m.creations)
    (hkeep : ∀ k r' cs', P k → Shift k.change k.world.registry k.creations r' cs' →
      I k.world.registry k.creations → I r' cs') :
    I m'.world.registry m'.creations := by
  induction h with
  | refl => exact hstart
  | tail _ hstep ih =>
    apply hkeep
    · exact hstep.1
    · exact shift_of_step hstep.2
    · exact ih

end Machine

end InstanceRegistry
