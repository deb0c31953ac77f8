import InstanceRegistry.Proofs.Run

/-!
This module contains programs that go on when another one is done. A block does the same in front of
something else, in any place, as on its own: a machine that runs it on its own is hosted, step by
step, by one that runs it in that place (`Machine.leads_host`).
-/

namespace InstanceRegistry

variable {C : Client}

def Program.bind {q r : Role} (k : C.Result r → Program C q) : Program C r → Program C q
  | .done result => k result
  | .panic text => .panic text
  | .read next => .read fun state => (next state).bind k
  | .write state next => .write state (next.bind k)
  | .note n next => .note n (next.bind k)
  | .call o next => .call o fun answer => (next answer).bind k
  | .lookup n allowEarly next => .lookup n allowEarly fun i => (next i).bind k
  | .getOrCreate n factory next => .getOrCreate n factory fun answer => (next answer).bind k
  | .addEarlyFactory n code next => .addEarlyFactory n code (next.bind k)
  | .addHandle n code next => .addHandle n code (next.bind k)
  | .destroy n next => .destroy n (next.bind k)
  | .destroyAll next => .destroyAll (next.bind k)
  | .attempt body next => .attempt body fun outcome => (next outcome).bind k

theorem Program.bind_done {r : Role} (p : Program C r) : p.bind .done = p := by
  induction p with
  | done result => rfl
  | panic text => rfl
  | read next ih => exact congrArg _ (funext ih)
  | write state next ih => exact congrArg _ ih
  | note n next ih => exact congrArg _ ih
  | call o next ih => exact congrArg _ (funext ih)
  | lookup n allowEarly next ih => exact congrArg _ (funext ih)
  | getOrCreate n factory next _ ih => exact congrArg _ (funext ih)
  | addEarlyFactory n code next _ ih => exact congrArg _ ih
  | addHandle n code next _ ih => exact congrArg _ ih
  | destroy n next ih => exact congrArg _ ih
  | destroyAll next ih => exact congrArg _ ih
  | attempt body next _ ih => exact congrArg _ (funext ih)

namespace Stack

def roleOn (q : Role) : {r : Role} → Stack C r → Role
  | _, .bottom => q
  | _, .creating _ _ _ => .factory
  | _, .exposing _ _ _ _ => .early
  | _, .settling _ _ _ _ _ => .callback
  | _, .attempting _ _ => .block

variable {q : Role}

def follow (k : C.Answer → Program C q) : {r : Role} → (t : Stack C r) → Program C r →
    Program C (t.roleOn q)
  | _, .bottom, p => p.bind k
  | _, .creating _ _ _, p => p
  | _, .exposing _ _ _ _, p => p
  | _, .settling _ _ _ _ _, p => p
  | _, .attempting _ _, p => p

def carry (s : Stack C q) (k : C.Answer → Program C q) : {r : Role} → (t : Stack C r) →
    Stack C (t.roleOn q)
  | _, .bottom => s
  | _, .creating c next t => .creating c (fun answer => t.follow k (next answer)) (s.carry k t)
  | _, .exposing n ticket next t =>
    .exposing n ticket (fun i => t.follow k (next i)) (s.carry k t)
  | _, .settling n ticket tasks next t =>
    .settling n ticket tasks (t.follow k next) (s.carry k t)
  | _, .attempting next t => .attempting (fun outcome => t.follow k (next outcome)) (s.carry k t)

end Stack

namespace Machine

/-- Run the code of a machine in another place, on a stack, and go on with a program after it. -/
def host {q : Role} (k : C.Answer → Program C q) (s : Stack C q) (m : Machine C) : Machine C :=
  match m.control with
  | .run p t => m.world.run (t.follow k p) (s.carry k t)
  | .tear tasks next t => ⟨m.world, .tear tasks (t.follow k next) (s.carry k t)⟩
  | .unwind text t => ⟨m.world, .unwind text (s.carry k t)⟩
  | .halted (.ok answer) => m.world.run (k answer) s
  | .halted (.error text) => ⟨m.world, .unwind text s⟩

variable {w : World C} {q r : Role} {k : C.Answer → Program C q} {s : Stack C q}

theorem leads_host_finish (result : C.Result r) (t : Stack C r) :
    (w.run (t.follow k (.done result)) (s.carry k t)).Leads ((w.finish result t).host k s) := by
  cases t with
  | bottom => exact .refl
  | creating c next t => exact leads_of_step rfl
  | exposing n ticket next t => exact leads_of_step rfl
  | settling n ticket tasks next t => exact leads_of_step rfl
  | attempting next t => exact leads_of_step rfl

theorem host_lookup (n : Name) (allowEarly : Bool) (next : Option Instance → Program C r)
    (t : Stack C r) :
    (w.lookup n allowEarly next t).host k s =
      w.lookup n allowEarly (fun i => t.follow k (next i)) (s.carry k t) := by
  unfold World.lookup
  split
  · rfl
  · rfl
  · rfl

theorem host_getOrCreate (n : Name) (factory : Program C .factory)
    (next : Except RegistryError Instance → Program C r) (t : Stack C r) :
    (w.getOrCreate n factory next t).host k s =
      w.getOrCreate n factory (fun answer => t.follow k (next answer)) (s.carry k t) := by
  unfold World.getOrCreate
  split
  · rfl
  · rfl
  · rfl

theorem leads_host_exec (p : Program C r) (t : Stack C r) :
    (w.run (t.follow k p) (s.carry k t)).Leads ((w.exec p t).host k s) := by
  cases p with
  | done result => exact leads_host_finish result t
  | lookup n allowEarly next =>
    rw [World.exec, host_lookup]
    cases t <;> exact leads_of_step rfl
  | getOrCreate n factory next =>
    rw [World.exec, host_getOrCreate]
    cases t <;> exact leads_of_step rfl
  | _ => cases t <;> exact leads_of_step rfl

theorem leads_host_work (task : Task C) (tasks : List (Task C)) (next : Program C r)
    (t : Stack C r) :
    Leads ⟨w, .tear (task :: tasks) (t.follow k next) (s.carry k t)⟩
      ((w.work task tasks next t).host k s) := by
  cases task with
  | visit n => exact leads_of_step rfl
  | settle n handle => exact leads_of_step rfl
  | release n => exact leads_of_step rfl
  | scrub n => exact leads_of_step rfl
  | wipe => exact leads_of_step rfl

theorem leads_host_unwind (text : String) (t : Stack C r) :
    Leads ⟨w, .unwind text (s.carry k t)⟩ ((w.unwind text t).host k s) := by
  cases t with
  | bottom => exact .refl
  | creating c next t => exact leads_of_step rfl
  | exposing n ticket next t => exact leads_of_step rfl
  | settling n ticket tasks next t => exact leads_of_step rfl
  | attempting next t => exact leads_of_step rfl

theorem leads_host_of_step {m m' : Machine C} (hstep : m.step = some m') :
    (m.host k s).Leads (m'.host k s) := by
  obtain ⟨w, control⟩ := m
  cases control with
  | run p t =>
    cases hstep
    exact leads_host_exec p t
  | tear tasks next t =>
    cases tasks with
    | nil =>
      cases hstep
      exact leads_of_step rfl
    | cons task tasks =>
      cases hstep
      exact leads_host_work task tasks next t
  | unwind text t =>
    cases hstep
    exact leads_host_unwind text t
  | halted outcome => cases hstep

theorem leads_host {m m' : Machine C} (h : m.Leads m') : (m.host k s).Leads (m'.host k s) := by
  induction h with
  | refl => exact .refl
  | tail _ hstep ih => exact ih.trans (leads_host_of_step hstep.2)

theorem leads_run (m : Machine C) : m.Leads m.run := by
  fun_induction run m with
  | case1 m h => exact .refl
  | case2 m m' h ih => exact (leads_of_step h).trans ih

theorem exists_halted_of_step_eq_none {m : Machine C} (h : m.step = none) :
    ∃ w outcome, m = ⟨w, .halted outcome⟩ := by
  obtain ⟨w, control⟩ := m
  cases control with
  | run p t => cases h
  | tear tasks next t =>
    cases tasks with
    | nil => cases h
    | cons task tasks => cases h
  | unwind text t => cases h
  | halted outcome => exact ⟨w, outcome, rfl⟩

theorem exists_leads_halted (m : Machine C) : ∃ w outcome, m.Leads ⟨w, .halted outcome⟩ := by
  obtain ⟨w, outcome, hrun⟩ := exists_halted_of_step_eq_none (step_run m)
  exact ⟨w, outcome, hrun ▸ leads_run m⟩

variable {w' : World C} {body : Program C .block}

theorem leads_bind {answer : C.Answer} (h : (start w body).Leads ⟨w', .halted (.ok answer)⟩) :
    (w.run (body.bind k) s).Leads (w'.run (k answer) s) :=
  leads_host h

theorem leads_bind_of_panic {text : String}
    (h : (start w body).Leads ⟨w', .halted (.error text)⟩) :
    (w.run (body.bind k) s).Leads ⟨w', .unwind text s⟩ :=
  leads_host h

end Machine

def World.Attempts (w : World C) (body : Program C .block) (w' : World C)
    (outcome : Except String C.Answer) : Prop :=
  ∀ ⦃r : Role⦄ (next : Except String C.Answer → Program C r) (s : Stack C r),
    (w.run (.attempt body next) s).Leads (w'.run (next outcome) s)

theorem World.attempts_of_leads {w w' : World C} {body : Program C .block}
    {outcome : Except String C.Answer}
    (h : (Machine.start w body).Leads ⟨w', .halted outcome⟩) : w.Attempts body w' outcome := by
  intro r next s
  have hbody : (w.run (body.bind .done) (.attempting next s)).Leads (w'.run (next outcome) s) := by
    cases outcome with
    | ok answer => exact (Machine.leads_bind h).tail ⟨trivial, rfl⟩
    | error text => exact (Machine.leads_bind_of_panic h).tail ⟨trivial, rfl⟩
  rw [body.bind_done] at hbody
  exact hbody.head ⟨trivial, rfl⟩

end InstanceRegistry
