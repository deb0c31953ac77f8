import InstanceRegistry.Proofs.Creation.Rollback
import InstanceRegistry.Proofs.Teardown.Destroy

/-!
This module contains callers that request the same instance at the same time. Each looks for a ready
instance without any lock, and if it finds none, makes its request under the lock, which looks
again. However their actions are interleaved, the instance is created once, unless its creation
fails (`Crowd.creates_once`).
-/

namespace InstanceRegistry

variable {C : Client}

namespace Registry

variable {ε δ : Type} {r : Registry ε δ} {n : Name}

def created (r : Registry ε δ) (n : Name) : Except CreationError Instance →
    Except RegistryError Instance × Registry ε δ
  | .ok i => (.ok i, { r with cache := r.cache.publish n i })
  | .error e => (.error (.creationFailed n e []), { r with cache := r.cache.discard n })

theorem created_marks (r : Registry ε δ) (n : Name) (result : Except CreationError Instance) :
    (r.created n result).2.marks = r.marks := by
  cases result with
  | ok i => rfl
  | error e => rfl

@[simp]
theorem find?_ready_created (r : Registry ε δ) (n m : Name) (i : Instance) :
    (r.created n (.ok i)).2.cache.ready.find? m =
      if m = n then some i else r.cache.ready.find? m :=
  Table.find?_insert ..

@[simp]
theorem find?_slots_created (r : Registry ε δ) (n m : Name) (i : Instance) :
    (r.created n (.ok i)).2.cache.slots.find? m =
      if m = n then none else r.cache.slots.find? m :=
  Table.find?_erase ..

theorem exists_started (hready : r.cache.ready.find? n = none)
    (hdestroying : r.cache.destroying = false) (hmark : ¬ n ∈ r.marks.active) :
    ∃ c r', r.startCreation n = .started c r' := by
  unfold startCreation Marks.mark
  rw [hready, hdestroying]
  by_cases hexempt : n ∈ r.marks.exempt
  · simp [hexempt]
  · simp [hexempt, hmark]

theorem unmark_of_mark {m m' : Marks} (h : m.mark n = some m') (hmark : ¬ n ∈ m.active) :
    m'.unmark n = some m := by
  unfold Marks.mark at h
  split at h
  · next hexempt =>
    cases h
    simp [Marks.unmark, hexempt]
  · next hexempt =>
    cases h
    have herase : (m.active.insert n).erase n = m.active := by
      apply NameSet.ext
      rw [NameSet.toList_erase, NameSet.toList_insert_of_not_mem hmark, List.filter_append]
      have hkept : m.active.toList.filter (· ≠ n) = m.active.toList :=
        congrArg NameSet.toList (NameSet.erase_of_not_mem hmark)
      rw [hkept]
      simp
    simp [Marks.unmark, hexempt, herase]

def restore (r r₀ : Registry ε δ) : Registry ε δ :=
  { r with marks := r₀.marks, cache := { r.cache with window := r₀.cache.window } }

@[simp]
theorem restore_ready (r r₀ : Registry ε δ) : (r.restore r₀).cache.ready = r.cache.ready :=
  rfl

@[simp]
theorem restore_slots (r r₀ : Registry ε δ) : (r.restore r₀).cache.slots = r.cache.slots :=
  rfl

theorem conclude_eq_created {r' r'' : Registry ε δ} {c : Creation}
    (h : r.startCreation n = .started c r') (hmark : ¬ n ∈ r.marks.active)
    (hmarks : r''.marks = r'.marks) (hwindow : r''.cache.window = r'.cache.window)
    (hready : r''.cache.ready.find? n = none) (result : Except CreationError Instance) :
    r''.conclude c result = (r''.restore r).created n result := by
  obtain ⟨_, _, hc, hstarted, hcache, _⟩ := startCreation_eq_started h
  have hunmark := unmark_of_mark hstarted hmark
  rw [hcache] at hwindow
  have hclosed : (if r.cache.window = none then none else some (r.cache.window.getD [])) =
      r.cache.window := by
    cases r.cache.window with
    | none => rfl
    | some fs => rfl
  have hcollected : r.cache.window = none → r.cache.window.getD [] = [] := by
    intro hnone
    rw [hnone]
    rfl
  rw [hc]
  unfold conclude
  rw [closeWindow_eq]
  cases result with
  | ok i => simp [created, restore, unmark, hmarks, hunmark, hwindow, hclosed]
  | error e =>
    simpa [created, restore, unmark, discardUnready, collected, Table.contains, hmarks, hunmark,
      hwindow, hclosed, hready] using hcollected

theorem restore_of_started {r' : Registry ε δ} {c : Creation}
    (h : r.startCreation n = .started c r') : r'.restore r = r := by
  obtain ⟨_, _, _, _, hcache, hr'⟩ := startCreation_eq_started h
  rw [hr', hcache]
  rfl

end Registry

theorem Machine.leads_of_panic (w : World C) (text : String) :
    (w.run (.panic (r := .block) text) .bottom).Leads ⟨w, .halted (.error text)⟩ :=
  (leads_of_step rfl).trans (leads_of_step rfl)

namespace World

variable {w w₁ w₂ : World C} {n : Name} {factory : Program C .factory}
  {a₁ a₂ : Except RegistryError Instance}

theorem Answers.text_eq (h₁ : w.Answers n factory w₁ a₁) (h₂ : w.Answers n factory w₂ a₂)
    (text : Except RegistryError Instance → String) : w₁ = w₂ ∧ text a₁ = text a₂ := by
  have hleads₁ := (h₁ (fun a => .panic (text a)) .bottom).trans (Machine.leads_of_panic ..)
  have hleads₂ := (h₂ (fun a => .panic (text a)) .bottom).trans (Machine.leads_of_panic ..)
  have heq := Machine.halted_unique hleads₁ hleads₂ rfl rfl
  rwa [Machine.mk.injEq, Control.halted.injEq, Except.error.injEq] at heq

theorem Answers.unique (h₁ : w.Answers n factory w₁ a₁) (h₂ : w.Answers n factory w₂ a₂) :
    w₁ = w₂ ∧ a₁ = a₂ := by
  classical
  obtain ⟨heq, htext⟩ := h₁.text_eq h₂ fun a => if a = a₁ then "expected" else "other"
  refine ⟨heq, ?_⟩
  by_cases hanswer : a₂ = a₁
  · exact hanswer.symm
  · rw [if_pos rfl, if_neg hanswer] at htext
    exact absurd htext (by decide)

theorem answers_of_find?_eq_some {i : Instance}
    (h : w.registry.cache.ready.find? n = some i) : w.Answers n factory w (.ok i) := by
  apply answers_of_ready
  unfold Registry.startCreation
  rw [h]

theorem answers_of_destroying (hready : w.registry.cache.ready.find? n = none)
    (h : w.registry.cache.destroying = true) :
    w.Answers n factory (w.log [.refused (.creationDuringDestruction n)])
      (.error (.creationDuringDestruction n)) := by
  apply answers_of_refused
  unfold Registry.startCreation
  rw [hready, h]
  rfl

def reports : Except RegistryError Instance → List LogEvent
  | .ok _ => []
  | .error e => [.refused e]

theorem moments_enter (w : World C) (n : Name) (registry : C.Store) :
    (w.enter n registry).moments = w.moments ++ [.began (.factory n)] :=
  moments_record { w with registry } _

def leave (w : World C) (n : Name) (ended : Except RegistryError Instance × C.Store) : World C :=
  World.log { w.record (.ended (.factory n)) with registry := ended.2 } (reports ended.1)

theorem moments_leave (w : World C) (n : Name)
    (ended : Except RegistryError Instance × C.Store) :
    (w.leave n ended).moments = w.moments ++ [.ended (.factory n)] := by
  unfold leave
  rw [moments_log]
  exact w.moments_record _

theorem leadsBy_of_factory {P : Machine C → Prop} {c : Creation} {r' : C.Store} {role : Role}
    {result : Except CreationError Instance} {next : Except RegistryError Instance → Program C role}
    {s : Stack C role} (hstart : w.registry.startCreation n = .started c r')
    (hmark : ¬ n ∈ w.registry.marks.active) (hmarks : w₁.registry.marks = r'.marks)
    (hwindow : w₁.registry.cache.window = r'.cache.window)
    (hready : w₁.registry.cache.ready.find? n = none)
    (hbegin : P (w.run (.getOrCreate n factory next) s))
    (hfactory : ((w.enter n r').run factory (.creating c next s)).LeadsBy P
      (w₁.run (.done result) (.creating c next s)))
    (hend : P (w₁.run (.done result) (.creating c next s))) :
    (w.run (.getOrCreate n factory next) s).LeadsBy P
      ((w₁.leave n ((w₁.registry.restore w.registry).created n result)).run
        (next ((w₁.registry.restore w.registry).created n result).1) s) := by
  have hname : c.name = n := by
    rw [(Registry.startCreation_eq_started hstart).2.2.1]
  have hconclude := Registry.conclude_eq_created hstart hmark hmarks hwindow hready result
  have hentered : (w.run (.getOrCreate n factory next) s).step =
      some ((w.enter n r').run factory (.creating c next s)) := by
    simp only [run, Machine.step, exec, getOrCreate, hstart, enter]
  have hleft : (w₁.run (.done result) (.creating c next s)).step =
      some (w₁.conclude c result next s) :=
    rfl
  unfold conclude at hleft
  rw [hconclude, hname] at hleft
  exact (hfactory.tail ⟨hend, hleft⟩).head ⟨hbegin, hentered⟩

theorem answers_of_factory {c : Creation} {r' : C.Store} {result : Except CreationError Instance}
    (hstart : w.registry.startCreation n = .started c r') (hmark : ¬ n ∈ w.registry.marks.active)
    (hregistry : w₁.registry = r')
    (hfactory : ∀ s, ((w.enter n r').run factory s).Leads (w₁.run (.done result) s)) :
    ∃ w', w.Answers n factory w' (w.registry.created n result).1 ∧
      w'.registry = (w.registry.created n result).2 ∧
      w'.moments = w₁.moments ++ [.ended (.factory n)] := by
  have hrestore : w₁.registry.restore w.registry = w.registry := by
    rw [hregistry, Registry.restore_of_started hstart]
  obtain ⟨hready, _, _, _, hcache, _⟩ := Registry.startCreation_eq_started hstart
  refine ⟨w₁.leave n (w.registry.created n result), ?_, rfl, moments_leave ..⟩
  intro r next s
  have hanswer := leadsBy_of_factory hstart hmark (congrArg _ hregistry)
    (by rw [hregistry]) (by rwa [hregistry, hcache]) trivial (hfactory (.creating c next s)) trivial
  rwa [hrestore] at hanswer

theorem answers_of_creation (hready : w.registry.cache.ready.find? n = none)
    (hdestroying : w.registry.cache.destroying = false) (hmark : ¬ n ∈ w.registry.marks.active)
    {result : Except CreationError Instance} {state : C.State}
    (h : factory.alone w.state = some (.ok result, state)) :
    ∃ w', w.Answers n factory w' (w.registry.created n result).1 ∧
      w'.registry = (w.registry.created n result).2 ∧
      w'.moments = w.moments ++ (Body.factory n).moments := by
  obtain ⟨c, r', hstart⟩ := Registry.exists_started hready hdestroying hmark
  obtain ⟨w₁, hrun, _, hregistry, hmoments⟩ :=
    Machine.leadsBy_of_alone (fun _ _ => trivial) (w := w.enter n r') h
  obtain ⟨w', hanswers, hcreated, hended⟩ := answers_of_factory hstart hmark hregistry hrun
  refine ⟨w', hanswers, hcreated, ?_⟩
  rw [hended, hmoments, moments_enter, List.append_assoc]
  rfl

theorem exists_answers (hmark : ¬ n ∈ w.registry.marks.active) (hquiet : factory.Quiet) :
    ∃ w' answer, w.Answers n factory w' answer ∧ w'.registry.marks = w.registry.marks := by
  cases hready : w.registry.cache.ready.find? n with
  | some i => exact ⟨w, _, answers_of_find?_eq_some hready, rfl⟩
  | none =>
    cases hdestroying : w.registry.cache.destroying with
    | true => exact ⟨_, _, answers_of_destroying hready hdestroying, rfl⟩
    | false =>
      obtain ⟨result, state, halone⟩ := hquiet w.state
      obtain ⟨w', hanswers, hregistry, _⟩ := answers_of_creation hready hdestroying hmark halone
      refine ⟨w', _, hanswers, ?_⟩
      rw [hregistry, Registry.created_marks]

end World

inductive Caller where
  | outside
  | waiting
  | answered (answer : Except RegistryError Instance)

namespace Caller

def look : Option Instance → Caller
  | some i => .answered (.ok i)
  | none => .waiting

def isOutside : Caller → Bool
  | outside => true
  | _ => false

def isAnswered : Caller → Bool
  | answered _ => true
  | _ => false

-- the first look takes no lock, and all that is done under the lock is one action
inductive Acts (n : Name) (factory : Program C .factory) :
    World C → Caller → World C → Caller → Prop
  | read (w : World C) : Acts n factory w .outside w (look (w.registry.cache.ready.find? n))
  | enter {w w' : World C} {answer : Except RegistryError Instance}
    (h : w.Answers n factory w' answer) : Acts n factory w .waiting w' (.answered answer)

end Caller

structure Crowd (C : Client) where
  world : World C
  callers : List Caller

namespace Crowd

def start (w : World C) (k : Nat) : Crowd C :=
  ⟨w, .replicate k .outside⟩

def answered (crowd : Crowd C) : Nat :=
  crowd.callers.countP Caller.isAnswered

def left (crowd : Crowd C) : Nat :=
  crowd.callers.countP Caller.isOutside + crowd.callers.countP fun c => !c.isAnswered

inductive Step (n : Name) (factory : Program C .factory) : Crowd C → Crowd C → Prop
  | act {w w' : World C} {c c' : Caller} (h : c.Acts n factory w w' c')
    (before after : List Caller) :
    Step n factory ⟨w, before ++ c :: after⟩ ⟨w', before ++ c' :: after⟩

abbrev Reaches (n : Name) (factory : Program C .factory) : Crowd C → Crowd C → Prop :=
  Relation.ReflTransGen (Step n factory)

variable {w : World C} {n : Name} {factory : Program C .factory} {crowd crowd' : Crowd C} {k : Nat}

theorem left_lt_of_step (h : Step n factory crowd crowd') : crowd'.left < crowd.left := by
  cases h with
  | @act w w' c c' h before after =>
    unfold left
    simp only [List.countP_append, List.countP_cons]
    cases h with
    | read =>
      cases w.registry.cache.ready.find? n with
      | some i =>
        simp only [Caller.look, Caller.isOutside, Caller.isAnswered, Bool.false_eq_true, if_false,
          if_true, Bool.not_true, Bool.not_false]
        omega
      | none => simp [Caller.look, Caller.isOutside, Caller.isAnswered]
    | enter h => simp [Caller.isOutside, Caller.isAnswered]

theorem exists_step (hquiet : factory.Quiet) (hmark : ¬ n ∈ crowd.world.registry.marks.active)
    (h : crowd.answered < crowd.callers.length) : ∃ crowd', Step n factory crowd crowd' := by
  obtain ⟨u, callers⟩ := crowd
  have hleft : ¬ ∀ c ∈ callers, c.isAnswered = true := by
    rw [← List.countP_eq_length]
    exact Nat.ne_of_lt h
  rw [Classical.not_forall] at hleft
  obtain ⟨c, hc⟩ := hleft
  rw [Classical.not_imp] at hc
  obtain ⟨before, after, rfl⟩ := List.append_of_mem hc.1
  cases c with
  | outside => exact ⟨_, .act (.read u) before after⟩
  | waiting =>
    obtain ⟨w', answer, hanswers, _⟩ := World.exists_answers hmark hquiet
    exact ⟨_, .act (.enter hanswers) before after⟩
  | answered answer => exact absurd rfl hc.2

/--
However many callers have been answered, the next one can be served, and gets an answer of some
kind. What is known of the world depends on how many have been answered.
-/
structure Serves (Stage : Nat → World C → Prop) (A : Except RegistryError Instance → Prop)
    (n : Name) (factory : Program C .factory) : Prop where
  look : ∀ a u i, Stage a u → u.registry.cache.ready.find? n = some i → Stage (a + 1) u ∧ A (.ok i)
  enter : ∀ a u, Stage a u → ∃ u' answer, u.Answers n factory u' answer ∧ Stage (a + 1) u' ∧
    A answer

structure Served (Stage : Nat → World C → Prop) (A : Except RegistryError Instance → Prop)
    (k : Nat) (crowd : Crowd C) : Prop where
  stage : Stage crowd.answered crowd.world
  answers : ∀ answer, .answered answer ∈ crowd.callers → A answer
  length_eq : crowd.callers.length = k

variable {Stage : Nat → World C → Prop} {A : Except RegistryError Instance → Prop}

theorem served_start (hstart : Stage 0 w) (k : Nat) : Served Stage A k (start w k) where
  stage := by
    have hanswered : (start w k).answered = 0 := by
      simp [answered, start, List.countP_replicate, Caller.isAnswered]
    rwa [hanswered]
  answers := by
    intro answer hanswer
    cases List.eq_of_mem_replicate hanswer
  length_eq := List.length_replicate

theorem Serves.acts (h : Serves Stage A n factory) {a : Nat} {u u' : World C} {c c' : Caller}
    (hstage : Stage a u) (hact : c.Acts n factory u u' c') :
    c.isAnswered = false ∧
      (c' = .waiting ∧ u' = u ∨ ∃ answer, c' = .answered answer ∧ Stage (a + 1) u' ∧ A answer) := by
  cases hact with
  | read =>
    refine ⟨rfl, ?_⟩
    cases hready : u.registry.cache.ready.find? n with
    | some i => exact .inr ⟨.ok i, rfl, h.look a u i hstage hready⟩
    | none => exact .inl ⟨rfl, rfl⟩
  | enter hanswers =>
    refine ⟨rfl, .inr ?_⟩
    obtain ⟨u₁, answer, hanswers₁, hserved⟩ := h.enter a u hstage
    obtain ⟨rfl, rfl⟩ := hanswers.unique hanswers₁
    exact ⟨_, rfl, hserved⟩

theorem Serves.step (h : Serves Stage A n factory) (hserved : Served Stage A k crowd)
    (hstep : Step n factory crowd crowd') : Served Stage A k crowd' := by
  cases hstep with
  | @act u u' c c' hact before after =>
    obtain ⟨hstage, hanswers, hlength⟩ := hserved
    obtain ⟨hc, hc'⟩ := h.acts hstage hact
    have hcount : answered ⟨u', before ++ c' :: after⟩ =
        answered ⟨u, before ++ c :: after⟩ + if c'.isAnswered then 1 else 0 := by
      simp only [answered, List.countP_append, List.countP_cons, hc, Bool.false_eq_true, if_false,
        Nat.add_assoc, Nat.add_zero]
    have hother : ∀ answer, .answered answer ∈ before ++ c' :: after →
        .answered answer = c' ∨ A answer := by
      intro answer hmem
      rw [List.mem_append, List.mem_cons, or_left_comm] at hmem
      refine hmem.imp id fun hmem => hanswers answer ?_
      rw [List.mem_append, List.mem_cons]
      exact hmem.imp id .inr
    rw [List.length_append, List.length_cons] at hlength
    obtain ⟨rfl, rfl⟩ | ⟨answer, rfl, hstage', hanswer⟩ := hc'
    · refine ⟨?_, ?_, ?_⟩
      · rwa [hcount]
      · intro answer hmem
        exact (hother answer hmem).resolve_left nofun
      · simpa using hlength
    · refine ⟨?_, ?_, ?_⟩
      · rwa [hcount]
      · intro answer' hmem
        obtain heq | hA := hother answer' hmem
        · cases heq
          exact hanswer
        · exact hA
      · simpa using hlength

theorem Serves.reaches (h : Serves Stage A n factory) (hstart : Stage 0 w)
    (hreaches : Reaches n factory (start w k) crowd) : Served Stage A k crowd := by
  induction hreaches with
  | refl => exact served_start hstart k
  | tail _ hstep ih => exact h.step ih hstep

theorem Served.callers_eq {answer : Except RegistryError Instance}
    (h : Served Stage (· = answer) k crowd) (hall : crowd.answered = k) :
    crowd.callers = .replicate k (.answered answer) := by
  rw [List.eq_replicate_iff]
  refine ⟨h.length_eq, ?_⟩
  rw [← h.length_eq, answered, List.countP_eq_length] at hall
  intro c hc
  have hanswered := hall c hc
  cases c with
  | answered answer' => rw [h.answers answer' hc]
  | _ => cases hanswered

theorem serves_of_quiet (hquiet : factory.Quiet) :
    Serves (fun _ u => ¬ n ∈ u.registry.marks.active) (fun _ => True) n factory where
  look := by
    intro a u i hmark _
    exact ⟨hmark, trivial⟩
  enter := by
    intro a u hmark
    obtain ⟨u', answer, hanswers, hmarks⟩ := World.exists_answers hmark hquiet
    rw [← hmarks] at hmark
    exact ⟨u', answer, hanswers, hmark, trivial⟩

theorem serves_of_ready {i : Instance} (hready : w.registry.cache.ready.find? n = some i) :
    Serves (fun _ u => u = w) (· = .ok i) n factory where
  look := by
    intro a u j hu hj
    rw [hu, hready, Option.some.injEq] at hj
    exact ⟨hu, congrArg _ hj.symm⟩
  enter := by
    intro a u hu
    rw [hu]
    exact ⟨w, _, World.answers_of_find?_eq_some hready, rfl, rfl⟩

theorem serves_of_destroying (hready : w.registry.cache.ready.find? n = none)
    (hdestroying : w.registry.cache.destroying = true) :
    Serves (fun _ u => u.registry = w.registry ∧ u.moments = w.moments)
      (· = .error (.creationDuringDestruction n)) n factory where
  look := by
    intro a u j hu hj
    rw [hu.1, hready] at hj
    cases hj
  enter := by
    intro a u hu
    rw [← hu.1] at hready hdestroying
    refine ⟨_, _, World.answers_of_destroying hready hdestroying, ⟨hu.1, ?_⟩, rfl⟩
    rw [World.moments_log, hu.2]

def AfterCreation (w : World C) (n : Name) (i : Instance) : Nat → World C → Prop
  | 0, u => u = w
  | _ + 1, u => u.registry = { w.registry with cache := w.registry.cache.publish n i } ∧
    u.moments = w.moments ++ (Body.factory n).moments

theorem serves_of_ok (hready : w.registry.cache.ready.find? n = none)
    (hdestroying : w.registry.cache.destroying = false) (hmark : ¬ n ∈ w.registry.marks.active)
    {i : Instance} {state : C.State} (h : factory.alone w.state = some (.ok (.ok i), state)) :
    Serves (AfterCreation w n i) (· = .ok i) n factory := by
  have hpublished : (w.registry.cache.publish n i).ready.find? n = some i := by
    simp [Cache.publish, Table.find?_insert]
  constructor
  · intro a u j hu hj
    cases a with
    | zero =>
      rw [hu, hready] at hj
      cases hj
    | succ a =>
      rw [hu.1, hpublished, Option.some.injEq] at hj
      exact ⟨hu, congrArg _ hj.symm⟩
  · intro a u hu
    cases a with
    | zero =>
      rw [hu]
      obtain ⟨u', hanswers, hu'⟩ := World.answers_of_creation hready hdestroying hmark h
      exact ⟨u', _, hanswers, hu', rfl⟩
    | succ a =>
      have hfound : u.registry.cache.ready.find? n = some i := by
        rw [hu.1, hpublished]
      exact ⟨u, _, World.answers_of_find?_eq_some hfound, hu, rfl⟩

def AfterFailures (w : World C) (n : Name) (a : Nat) (u : World C) : Prop :=
  u.registry = { w.registry with
    cache := if a = 0 then w.registry.cache else w.registry.cache.discard n } ∧
  u.moments = w.moments ++ (List.replicate a (Body.factory n)).flatMap Body.moments

theorem discard_discard {ε : Type} (c : Cache ε) (n : Name) :
    (c.discard n).discard n = c.discard n := by
  have hslots : (c.slots.erase n).erase n = c.slots.erase n := by
    apply Table.erase_of_find?_eq_none
    simp [Table.find?_erase]
  have hlisted : (c.listed.erase n).erase n = c.listed.erase n := by
    apply NameSet.erase_of_not_mem
    simp
  unfold Cache.discard
  rw [hslots, hlisted]

theorem serves_of_error (hready : w.registry.cache.ready.find? n = none)
    (hdestroying : w.registry.cache.destroying = false) (hmark : ¬ n ∈ w.registry.marks.active)
    (fails : CreationError → Prop)
    (h : ∀ state, ∃ e state', fails e ∧ factory.alone state = some (.ok (.error e), state')) :
    Serves (AfterFailures w n)
      (fun answer => ∃ e, fails e ∧ answer = .error (.creationFailed n e [])) n factory := by
  -- a failed creation leaves everything but the slot and the listing of its name
  have hu {a : Nat} {u : World C} (hu : AfterFailures w n a u) :
      u.registry.cache.ready = w.registry.cache.ready ∧
      u.registry.cache.destroying = w.registry.cache.destroying ∧
      u.registry.marks = w.registry.marks := by
    rw [hu.1]
    cases a with
    | zero => exact ⟨rfl, rfl, rfl⟩
    | succ a => exact ⟨rfl, rfl, rfl⟩
  constructor
  · intro a u j hstage hj
    rw [(hu hstage).1, hready] at hj
    cases hj
  · intro a u hstage
    obtain ⟨hr, hd, hm⟩ := hu hstage
    rw [← hr] at hready
    rw [← hd] at hdestroying
    rw [← hm] at hmark
    obtain ⟨e, state, hfails, halone⟩ := h u.state
    obtain ⟨u', hanswers, hregistry, hmoments⟩ :=
      World.answers_of_creation hready hdestroying hmark halone
    refine ⟨u', _, hanswers, ⟨?_, ?_⟩, e, hfails, rfl⟩
    · rw [hregistry, Registry.created, hstage.1]
      cases a with
      | zero => rfl
      | succ a => simp [discard_discard]
    · rw [hmoments, hstage.2, List.replicate_succ', List.flatMap_append, List.flatMap_singleton,
        List.append_assoc]

/--
Callers request an instance at the same time whose name is not being created, with a factory that
asks nothing of the registry and does not panic. Whatever the order of their actions, one of them
can act until all are answered, and every action brings them closer to that. In the end they are
answered alike. Without any run of the factory they get the instance that was ready, or the refusal
that meets a request while instances are being destroyed. If the factory gives an instance, then it
is run once, and this instance is ready and the answer to all. If the factory fails, it is run for
each of them, and the name is absent.
-/
theorem creates_once (w : World C) (n : Name) (factory : Program C .factory) (k : Nat)
    (hk : 1 ≤ k) (hmark : ¬ n ∈ w.registry.marks.active) (hquiet : factory.Quiet)
    {crowd : Crowd C} (hreaches : Reaches n factory (start w k) crowd) :
    (crowd.answered < k → ∃ crowd', Step n factory crowd crowd') ∧
    (∀ crowd', Step n factory crowd crowd' → crowd'.left < crowd.left) ∧
    (crowd.answered = k →
      (∀ i, w.registry.cache.ready.find? n = some i →
        crowd.callers = .replicate k (.answered (.ok i)) ∧ crowd.world = w) ∧
      (w.registry.cache.ready.find? n = none → w.registry.cache.destroying = true →
        crowd.callers = .replicate k (.answered (.error (.creationDuringDestruction n))) ∧
        crowd.world.registry = w.registry ∧ crowd.world.moments = w.moments) ∧
      (w.registry.cache.ready.find? n = none → w.registry.cache.destroying = false →
        (∀ i state, factory.alone w.state = some (.ok (.ok i), state) →
          crowd.callers = .replicate k (.answered (.ok i)) ∧
          crowd.world.registry = { w.registry with cache := w.registry.cache.publish n i } ∧
          crowd.world.moments = w.moments ++ (Body.factory n).moments) ∧
        ((∀ state, ∃ e state', factory.alone state = some (.ok (.error e), state')) →
          (∀ e, (∀ state, ∃ state', factory.alone state = some (.ok (.error e), state')) →
            crowd.callers = .replicate k (.answered (.error (.creationFailed n e [])))) ∧
          crowd.world.registry = { w.registry with cache := w.registry.cache.discard n } ∧
          crowd.world.moments =
            w.moments ++ (List.replicate k (Body.factory n)).flatMap Body.moments))) := by
  refine ⟨?_, fun _ => left_lt_of_step, ?_⟩
  · intro hleft
    have hserved := (serves_of_quiet hquiet).reaches hmark hreaches
    rw [← hserved.length_eq] at hleft
    exact exists_step hquiet hserved.stage hleft
  · intro hall
    refine ⟨?_, ?_, ?_⟩
    · intro i hready
      have hserved := (serves_of_ready hready).reaches rfl hreaches
      exact ⟨hserved.callers_eq hall, hserved.stage⟩
    · intro hready hdestroying
      have hserved := (serves_of_destroying hready hdestroying).reaches ⟨rfl, rfl⟩ hreaches
      exact ⟨hserved.callers_eq hall, hserved.stage⟩
    · intro hready hdestroying
      have hpos : k ≠ 0 := Nat.ne_of_gt hk
      refine ⟨?_, ?_⟩
      · intro i state halone
        have hserved := (serves_of_ok hready hdestroying hmark halone).reaches rfl hreaches
        have hstage := hserved.stage
        obtain ⟨k, rfl⟩ := Nat.exists_eq_succ_of_ne_zero hpos
        rw [hall] at hstage
        exact ⟨hserved.callers_eq hall, hstage⟩
      · intro hfails
        have hstart : AfterFailures w n 0 w := ⟨rfl, by simp⟩
        refine ⟨?_, ?_⟩
        · intro e hfails
          have hserved := (serves_of_error hready hdestroying hmark (· = e)
            fun state => ⟨e, (hfails state).imp fun _ h => ⟨rfl, h⟩⟩).reaches hstart hreaches
          apply Served.callers_eq ⟨hserved.stage, ?_, hserved.length_eq⟩ hall
          intro answer hanswer
          obtain ⟨_, rfl, ha⟩ := hserved.answers answer hanswer
          exact ha
        · have hserved := (serves_of_error hready hdestroying hmark (fun _ => True)
            fun state => (hfails state).imp fun _ h => h.imp fun _ h => ⟨trivial, h⟩).reaches hstart
            hreaches
          have hstage := hserved.stage
          rw [hall] at hstage
          unfold AfterFailures at hstage
          rwa [if_neg hpos] at hstage

def making : Program .plain .factory :=
  .done (.ok ⟨0, .unit⟩)

theorem reaches_rivals : ∃ crowd,
    Reaches "a" making (start (.fresh {} none ()) 2) crowd ∧ crowd.answered = 2 := by
  have halone : making.alone (World.fresh (C := .plain) {} none ()).state =
      some (.ok (.ok ⟨0, .unit⟩), ()) :=
    rfl
  obtain ⟨w, hcreated, hregistry, _⟩ :=
    World.answers_of_creation (n := "a") rfl rfl (NameSet.not_mem_empty "a") halone
  have hready : w.registry.cache.ready.find? "a" = some ⟨0, .unit⟩ := by
    rw [hregistry]
    rfl
  have hread₁ : Step "a" making (start (.fresh {} none ()) 2)
      ⟨.fresh {} none (), [.waiting, .outside]⟩ :=
    .act (.read _) [] [.outside]
  have hread₂ : Step "a" making ⟨.fresh {} none (), [.waiting, .outside]⟩
      ⟨.fresh {} none (), [.waiting, .waiting]⟩ :=
    .act (.read _) [.waiting] []
  have henter₁ : Step "a" making ⟨.fresh {} none (), [.waiting, .waiting]⟩
      ⟨w, [.waiting, .answered (.ok ⟨0, .unit⟩)]⟩ :=
    .act (.enter hcreated) [.waiting] []
  have henter₂ : Step "a" making ⟨w, [.waiting, .answered (.ok ⟨0, .unit⟩)]⟩
      ⟨w, [.answered (.ok ⟨0, .unit⟩), .answered (.ok ⟨0, .unit⟩)]⟩ :=
    .act (.enter (World.answers_of_find?_eq_some hready)) [] [_]
  exact ⟨_, .head hread₁ (.head hread₂ (.head henter₁ (.single henter₂))), rfl⟩

theorem created_once_for_rivals : ∃ crowd,
    Reaches "a" making (start (.fresh {} none ()) 2) crowd ∧
    crowd.callers = .replicate 2 (.answered (.ok ⟨0, .unit⟩)) ∧
    crowd.world.moments = (Body.factory "a").moments := by
  obtain ⟨crowd, hreaches, hall⟩ := reaches_rivals
  have hquiet : making.Quiet := Program.quiet_done _
  obtain ⟨_, _, hanswered⟩ := creates_once _ "a" making 2 (by decide)
    (NameSet.not_mem_empty "a") hquiet hreaches
  obtain ⟨hcallers, _, hmoments⟩ := ((hanswered hall).2.2 rfl rfl).1 _ _ rfl
  exact ⟨crowd, hreaches, hcallers, hmoments⟩

end Crowd

end InstanceRegistry
