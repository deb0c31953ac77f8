import InstanceRegistry.Machine.Weight

/-!
This module contains runs of the machine. Every machine comes to a halt: with every step it holds
less code, or no more code and less work on a teardown (`Machine.closer_of_step`). `Machine.run` is
the machine after its last step.
-/

namespace InstanceRegistry

variable {C : Client}

namespace Machine

open Bag

abbrev Closer (m' m : Machine C) : Prop :=
  Smaller Code.After (m'.codes, m'.effort) (m.codes, m.effort)

section Count

open Classical

variable {w : World C} {r : Role} {c : Code C}

theorem count_codes_run (p : Program C r) (s : Stack C r) :
    (w.run p s).codes.count c =
      [Code.program p].count c + s.codes.count c + w.registry.codes.count c := by
  simp only [codes, World.run, Control.codes, List.count_append, List.count_cons, List.count_nil]
  omega

theorem count_codes_tear (tasks : List (Task C)) (next : Program C r) (s : Stack C r) :
    (codes ⟨w, .tear tasks next s⟩).count c =
      (tasks.flatMap Task.codes).count c + [Code.program next].count c + s.codes.count c +
        w.registry.codes.count c := by
  simp only [codes, Control.codes, List.count_append, List.count_cons, List.count_nil]
  omega

theorem count_codes_unwind (text : String) (s : Stack C r) :
    (codes ⟨w, .unwind text s⟩).count c = s.codes.count c + w.registry.codes.count c := by
  simp only [codes, Control.codes, List.count_append]

theorem count_codes_halted (outcome : Except String C.Answer) :
    (codes ⟨w, .halted outcome⟩).count c = w.registry.codes.count c := by
  simp only [codes, Control.codes, List.nil_append]

theorem flatMap_codes_visit (names : List Name) :
    (names.map Task.visit).flatMap (Task.codes : Task C → List (Code C)) = [] := by
  simp [List.flatMap_eq_nil_iff, Task.codes]

theorem flatMap_codes_settle (n : Name) (handle : Option (Entrusted C .callback)) :
    (handle.toList.map (Task.settle n)).flatMap Task.codes =
      handle.toList.flatMap Entrusted.codes := by
  cases handle <;> rfl

theorem efforts_append (tasks tasks' : List (Task C)) :
    Task.efforts (tasks ++ tasks') = Task.efforts tasks + Task.efforts tasks' := by
  induction tasks with
  | nil => simp [Task.efforts]
  | cons t tasks ih =>
    simp only [List.cons_append, Task.efforts, ih]
    omega

theorem efforts_visit (names : List Name) :
    Task.efforts (names.map (Task.visit : Name → Task C)) = 4 * names.length := by
  induction names with
  | nil => rfl
  | cons n names ih =>
    simp only [List.map_cons, Task.efforts, ih, Task.effort, List.length_cons]
    omega

theorem efforts_settle_le (n : Name) (handle : Option (Entrusted C .callback)) :
    Task.efforts (handle.toList.map (Task.settle n)) ≤ 1 := by
  cases handle <;> simp [Task.efforts, Task.effort]

end Count

section Closer

open Classical

variable {w : World C} {r : Role}

theorem closer_of_lighter {m' m : Machine C} (h : Lighter Code.After m'.codes m.codes) :
    m'.Closer m :=
  Or.inl h

theorem closer_of_effort_lt {m' m : Machine C} (h : ∀ c, m'.codes.count c ≤ m.codes.count c)
    (he : m'.effort < m.effort) : m'.Closer m :=
  Or.inr ⟨part_of_count h, he⟩

theorem closer_run {p : Program C r} {s : Stack C r} {m : Machine C} (new : List (Code C))
    (hnew : ∀ c ∈ new, c.After (.program p))
    (h : ∀ c, m.codes.count c ≤ new.count c + s.codes.count c + w.registry.codes.count c) :
    m.Closer (w.run p s) := by
  refine closer_of_lighter (lighter_of_count (.program p) new hnew ?_ fun c => ?_)
  · simp [codes, World.run, Control.codes]
  · have := h c
    rw [count_codes_run]
    omega

theorem closer_finish (result : C.Result r) (s : Stack C r) :
    (w.finish result s).Closer (w.run (.done result) s) := by
  cases s with
  | bottom =>
    refine closer_run [] (by simp) fun c => ?_
    simp only [World.finish, count_codes_halted]
    omega
  | creating creation next s =>
    refine closer_of_lighter (lighter_of_count (.reply next)
      [.program (next (w.registry.conclude creation result).1)]
      (List.forall_mem_singleton.mpr ⟨_, rfl⟩) ?_ fun c => ?_)
    · simp [codes, World.run, Control.codes, Stack.codes]
    · have := w.registry.count_codes_conclude_le c creation result
      simp only [World.finish, World.conclude, count_codes_run, Stack.codes, List.count_cons,
        List.count_nil, World.log]
      omega
  | exposing n ticket next s =>
    refine closer_of_lighter (lighter_of_count (.reply next)
      [.program (next (some (w.registry.cache.expose n result).1))]
      (List.forall_mem_singleton.mpr ⟨_, rfl⟩) ?_ fun c => ?_)
    · simp [codes, World.run, Control.codes, Stack.codes]
    · have := w.registry.count_codes_expose_le n c result
      simp only [World.finish, World.expose, count_codes_run, Stack.codes, List.count_cons,
        List.count_nil, World.record]
      omega
  | settling n ticket tasks next s =>
    refine closer_run [] (by simp) fun c => ?_
    simp only [World.finish, World.settled, count_codes_tear, Stack.codes, List.count_append,
      List.count_cons, List.count_nil, World.log, World.record]
    omega
  | attempting next s =>
    refine closer_of_lighter (lighter_of_count (.reply next) [.program (next (.ok result))]
      (List.forall_mem_singleton.mpr ⟨_, rfl⟩) ?_ fun c => ?_)
    · simp [codes, World.run, Control.codes, Stack.codes]
    · simp only [World.finish, count_codes_run, Stack.codes, List.count_cons, List.count_nil]
      omega

theorem closer_exec (p : Program C r) (s : Stack C r) : (w.exec p s).Closer (w.run p s) := by
  cases p with
  | done result => exact closer_finish result s
  | panic text =>
    refine closer_run [] (by simp) fun c => ?_
    simp only [World.exec, count_codes_unwind]
    omega
  | read next =>
    refine closer_run [.program (next w.state)]
      (List.forall_mem_singleton.mpr ⟨_, rfl⟩) fun c => ?_
    simp only [World.exec, count_codes_run]
    omega
  | write state next =>
    refine closer_run [.program next] (by simp [Code.After]) fun c => ?_
    simp only [World.exec, count_codes_run]
    omega
  | note n next =>
    refine closer_run [.program next] (by simp [Code.After]) fun c => ?_
    simp only [World.exec, count_codes_run, World.record]
    omega
  | call o next =>
    refine closer_run [.program (next (w.registry.perform o).answer)]
      (List.forall_mem_singleton.mpr ⟨_, rfl⟩) fun c => ?_
    have := w.registry.count_codes_perform_le c o
    simp only [World.exec, World.perform, count_codes_run, World.log]
    omega
  | lookup n allowEarly next =>
    cases h : w.registry.lookup n allowEarly with
    | found i =>
      refine closer_run [.program (next (some i))]
        (List.forall_mem_singleton.mpr (.inr ⟨_, rfl⟩)) fun c => ?_
      simp only [World.exec, World.lookup, h, count_codes_run]
      omega
    | absent =>
      refine closer_run [.program (next none)]
        (List.forall_mem_singleton.mpr (.inr ⟨_, rfl⟩)) fun c => ?_
      simp only [World.exec, World.lookup, h, count_codes_run]
      omega
    | consult e =>
      refine closer_run [.reply next] (by simp [Code.After]) fun c => ?_
      have := w.registry.count_codes_of_lookup n c h
      simp only [Entrusted.codes] at this
      simp only [World.exec, World.lookup, h, count_codes_run, World.record, Stack.codes,
        List.count_cons, List.count_nil] at this ⊢
      omega
  | getOrCreate n factory next =>
    cases h : w.registry.startCreation n with
    | ready i =>
      refine closer_run [.program (next (.ok i))]
        (List.forall_mem_singleton.mpr (.inr (.inr ⟨_, rfl⟩))) fun c => ?_
      simp only [World.exec, World.getOrCreate, h, count_codes_run]
      omega
    | refused e =>
      refine closer_run [.program (next (.error e))]
        (List.forall_mem_singleton.mpr (.inr (.inr ⟨_, rfl⟩))) fun c => ?_
      simp only [World.exec, World.getOrCreate, h, count_codes_run, World.log]
      omega
    | started creation registry =>
      refine closer_run [.program factory, .reply next] (by simp [Code.After]) fun c => ?_
      simp only [World.exec, World.getOrCreate, h, count_codes_run, World.record, Stack.codes,
        List.count_cons, List.count_nil, Registry.codes_of_startCreation _ _ h]
      omega
  | addEarlyFactory n code next =>
    refine closer_run [.program code, .program next] (by simp [Code.After]) fun c => ?_
    have := w.registry.count_codes_addEarlyFactory_le n c ⟨w.tickets, code⟩
    simp only [World.exec, World.addEarlyFactory, count_codes_run, Entrusted.codes,
      List.count_cons, List.count_nil] at this ⊢
    omega
  | addHandle n code next =>
    refine closer_run [.program code, .program next] (by simp [Code.After]) fun c => ?_
    have := w.registry.count_codes_addHandle_le n c ⟨w.tickets, code⟩
    simp only [World.exec, World.addHandle, count_codes_run, Entrusted.codes,
      List.count_cons, List.count_nil] at this ⊢
    omega
  | destroy n next =>
    refine closer_run [.program next] (by simp [Code.After]) fun c => ?_
    simp only [World.exec, count_codes_tear, List.flatMap_cons, List.flatMap_nil, Task.codes,
      List.append_nil, List.count_nil]
    omega
  | destroyAll next =>
    refine closer_run [.program next] (by simp [Code.After]) fun c => ?_
    simp only [World.exec, World.destroyAll, count_codes_tear, List.flatMap_append,
      flatMap_codes_visit, List.flatMap_cons, List.flatMap_nil, Task.codes, List.append_nil,
      List.count_nil, Registry.count_codes]
    omega
  | attempt body next =>
    refine closer_run [.program body, .reply next] (by simp [Code.After]) fun c => ?_
    simp only [World.exec, count_codes_run, Stack.codes, List.count_cons, List.count_nil]
    omega

theorem closer_work (t : Task C) (tasks : List (Task C)) (next : Program C r) (s : Stack C r) :
    (w.work t tasks next s).Closer ⟨w, .tear (t :: tasks) next s⟩ := by
  cases t with
  | visit n =>
    refine closer_of_effort_lt (fun c => ?_) ?_
    · have := w.registry.count_codes_detach_le n c
      simp only [World.work, Graph.takeDependents, count_codes_tear, List.flatMap_append,
        flatMap_codes_visit, flatMap_codes_settle, List.flatMap_cons, Task.codes, List.nil_append,
        List.count_append, Registry.count_codes] at this ⊢
      omega
    · have := w.registry.graph.dependents.count_erase n
      have := efforts_settle_le n (w.registry.handles.find? n)
      simp only [World.work, Registry.detach, Graph.takeDependents, effort, efforts_append,
        efforts_visit, Task.efforts, Task.effort, NameSet.size] at *
      omega
  | settle n handle =>
    refine closer_of_effort_lt (fun c => ?_) ?_
    · simp only [World.work, count_codes_run, count_codes_tear, World.record, Stack.codes,
        List.flatMap_cons, Task.codes, Entrusted.codes, List.count_append, List.count_cons,
        List.count_nil]
      omega
    · simp only [World.work, World.run, effort]
      omega
  | release n =>
    refine closer_of_effort_lt (fun c => ?_) ?_
    · simp only [World.work, Graph.takeContained, count_codes_tear, List.flatMap_append,
        flatMap_codes_visit, List.flatMap_cons, Task.codes, List.nil_append, Registry.count_codes]
      omega
    · have := w.registry.graph.contained.count_erase n
      simp only [World.work, Graph.takeContained, effort, efforts_append, efforts_visit,
        Task.efforts, Task.effort, NameSet.size] at *
      omega
  | scrub n =>
    refine closer_of_effort_lt (fun c => ?_) ?_
    · simp only [World.work, count_codes_tear, List.flatMap_cons, Task.codes, List.nil_append,
        Registry.count_codes]
      omega
    · have := w.registry.graph.dependents.count_scrub_le n
      simp only [World.work, Graph.removeReferences, effort, Task.efforts, Task.effort]
      omega
  | wipe =>
    refine closer_of_effort_lt (fun c => ?_) ?_
    · have := w.registry.count_codes_wipe_le c
      simp only [World.work, count_codes_tear, List.flatMap_cons, Task.codes, List.nil_append]
      omega
    · have : Edges.count ∅ = 0 := rfl
      simp only [World.work, Registry.wipe, Graph.empty, effort, Task.efforts, Task.effort]
      omega

theorem closer_unwind (text : String) (s : Stack C r) :
    (w.unwind text s).Closer ⟨w, .unwind text s⟩ := by
  cases s with
  | bottom =>
    refine closer_of_effort_lt (fun c => ?_) ?_
    · simp only [World.unwind, count_codes_unwind, count_codes_halted]
      omega
    · simp only [World.unwind, effort]
      omega
  | creating creation next s =>
    refine closer_of_lighter (lighter_of_count (.reply next) [] (by simp) ?_ fun c => ?_)
    · simp [codes, Control.codes, Stack.codes]
    · have := w.registry.count_codes_rollback_le c creation
      simp only [World.unwind, count_codes_unwind, Stack.codes, List.count_cons, List.count_nil,
        World.log]
      omega
  | exposing n ticket next s =>
    refine closer_of_lighter (lighter_of_count (.reply next) [] (by simp) ?_ fun c => ?_)
    · simp [codes, Control.codes, Stack.codes]
    · simp only [World.unwind, count_codes_unwind, Stack.codes, List.count_cons, List.count_nil]
      omega
  | settling n ticket tasks next s =>
    refine closer_of_lighter (lighter_of_count (.program next) [] (by simp) ?_ fun c => ?_)
    · simp [codes, Control.codes, Stack.codes]
    · simp only [World.unwind, count_codes_unwind, Stack.codes, List.count_append,
        List.count_cons, List.count_nil]
      omega
  | attempting next s =>
    refine closer_of_lighter (lighter_of_count (.reply next) [.program (next (.error text))]
      (List.forall_mem_singleton.mpr ⟨_, rfl⟩) ?_ fun c => ?_)
    · simp [codes, Control.codes, Stack.codes]
    · simp only [World.unwind, count_codes_run, count_codes_unwind, Stack.codes, List.count_cons,
        List.count_nil]
      omega

theorem closer_of_step {m m' : Machine C} (h : m.step = some m') : m'.Closer m := by
  obtain ⟨w, control⟩ := m
  cases control with
  | run p s =>
    cases h
    exact closer_exec p s
  | tear tasks next s =>
    cases tasks with
    | nil =>
      cases h
      refine closer_of_effort_lt (fun c => ?_) ?_
      · simp only [count_codes_run, count_codes_tear, List.flatMap_nil, List.count_nil]
        omega
      · simp only [World.run, effort]
        omega
    | cons t tasks =>
      cases h
      exact closer_work t tasks next s
  | unwind text s =>
    cases h
    exact closer_unwind text s
  | halted outcome => cases h

end Closer

def run (m : Machine C) : Machine C :=
  match _h : m.step with
  | none => m
  | some m' => m'.run
termination_by
  (smaller_wellFounded Code.after_wellFounded).wrap (m.codes, m.effort)
decreasing_by exact closer_of_step _h

theorem run_of_step_eq_none {m : Machine C} (h : m.step = none) : m.run = m := by
  rw [run]
  split
  · rfl
  case h_2 hm => simp [h] at hm

theorem run_of_step_eq_some {m m' : Machine C} (h : m.step = some m') : m.run = m'.run := by
  rw [run]
  split
  case h_1 hm => simp [h] at hm
  case h_2 hm =>
    rw [h] at hm
    cases hm
    rfl

theorem step_run (m : Machine C) : m.run.step = none := by
  fun_induction run m with
  | case1 m h => exact h
  | case2 m m' h ih => exact ih

end Machine

end InstanceRegistry
