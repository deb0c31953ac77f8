import InstanceRegistry.Machine.Weight
import InstanceRegistry.Proofs.Teardown.Task

/-!
This module contains what the teardown of some names covers. It comes to its end, it visits the
names that can be reached from them, and it runs the handle of each of these names once. What is
left of the registry is everything else.
-/

namespace InstanceRegistry

variable {C : Client} {r : C.Store} {ns : List Name} {done left : List (Task C)} {t : Task C}
  {n m : Name}

namespace Registry

@[simp]
theorem visit_mem_next : .visit n ∈ r.next t ↔
    ∃ m, (t = .visit m ∧ n ∈ r.graph.dependents.of m) ∨
      (t = .release m ∧ n ∈ r.graph.contained.of m) := by
  cases t <;> simp [next, NameSet.mem_toList]

@[simp]
theorem settle_mem_next {h : Entrusted C .callback} :
    .settle n h ∈ r.next t ↔ t = .visit n ∧ r.handles.find? n = some h := by
  cases t with
  | visit m =>
    by_cases hm : m = n
    · simp [next, hm]
    · simp [next, hm]
  | _ => simp [next]

@[simp]
theorem release_mem_next : .release n ∈ r.next t ↔ t = .visit n := by
  cases t <;> simp [next, eq_comm]

@[simp]
theorem scrub_mem_next : .scrub n ∈ r.next t ↔ t = .release n := by
  cases t <;> simp [next, eq_comm]

@[simp]
theorem wipe_not_mem_next : ¬ .wipe ∈ r.next t := by
  cases t <;> simp [next]

theorem calls_next_nodup (r : C.Store) (t : Task C) : (Task.calls (r.next t)).Nodup := by
  cases t with
  | visit n =>
    unfold next
    rw [Task.calls_append, Task.calls_append, Task.calls_visit]
    cases r.handles.find? n with
    | none => exact List.nodup_nil
    | some handle => exact List.pairwise_singleton _ _
  | release n =>
    unfold next
    rw [Task.calls_append, Task.calls_visit]
    exact List.nodup_nil
  | _ => exact List.nodup_nil

def effort (r : C.Store) (left : List (Task C)) : Nat :=
  Task.efforts left + 4 * (r.graph.dependents.count + r.graph.contained.count)

theorem effort_next_lt (r : C.Store) (t : Task C) (left : List (Task C)) :
    (r.after t).effort (r.next t ++ left) < r.effort (t :: left) := by
  unfold effort
  cases t with
  | visit n =>
    have hedges := r.graph.dependents.count_erase n
    have hsettle := Machine.efforts_settle_le n (r.handles.find? n)
    simp only [after, visit, detach, next, Graph.takeDependents, Machine.efforts_append,
      Machine.efforts_visit, Task.efforts, Task.effort, NameSet.size] at *
    omega
  | settle n handle =>
    simp only [after, next, List.nil_append, Task.efforts, Task.effort]
    omega
  | release n =>
    have hedges := r.graph.contained.count_erase n
    simp only [after, release, next, Graph.takeContained, Machine.efforts_append,
      Machine.efforts_visit, Task.efforts, Task.effort, NameSet.size] at *
    omega
  | scrub n =>
    have hedges := r.graph.dependents.count_scrub_le n
    simp only [after, scrub, next, Graph.removeReferences, List.nil_append, Task.efforts,
      Task.effort]
    omega
  | wipe =>
    have hedges : Edges.count ∅ = 0 := rfl
    simp only [after, wipe, Graph.empty, next, List.nil_append, Task.efforts, Task.effort]
    omega

end Registry

namespace Tears

variable {tasks : List (Task C)}

theorem exists_rest (h : Tears r tasks done left) : ∃ rest, Tears r tasks (done ++ rest) [] := by
  generalize he : (r.afterAll done).effort left = effort
  induction effort using Nat.strongRecOn generalizing done left with
  | ind effort ih =>
    cases left with
    | nil =>
      exists []
      rwa [List.append_nil]
    | cons t left =>
      -- the visits that a task adds are paid for by the edges that it takes out
      have hlt : (r.afterAll (done ++ [t])).effort ((r.afterAll done).next t ++ left) < effort := by
        rw [← he, Registry.afterAll_append]
        apply Registry.effort_next_lt
      obtain ⟨rest, hrest⟩ := ih _ hlt h.step rfl
      exists t :: rest
      rwa [List.append_assoc] at hrest

theorem exists_done (r : C.Store) (tasks : List (Task C)) : ∃ done, Tears r tasks done [] := by
  obtain ⟨done, h⟩ := exists_rest (refl : Tears r tasks [] tasks)
  exact ⟨done, h⟩

end Tears

/--
What the teardown of some names has done and what it has left. Every edge of a name is followed: it
leads to a name that is visited, or that is left to be visited.
-/
structure Covers (r : C.Store) (ns : List Name) (done left : List (Task C)) : Prop where
  not_wipe : ¬ .wipe ∈ done ++ left
  visit_of_mem : ∀ n ∈ ns, .visit n ∈ done ++ left
  closure_of_visit : ∀ m, .visit m ∈ done ++ left → ∃ n ∈ ns, r.graph.Closure n m
  release_of_visit : ∀ n, .visit n ∈ done → .release n ∈ done ++ left
  visit_of_release : ∀ n, .release n ∈ done ++ left → .visit n ∈ done
  scrub_of_release : ∀ n, .release n ∈ done → .scrub n ∈ done ++ left
  release_of_scrub : ∀ n, .scrub n ∈ done ++ left → .release n ∈ done
  visit_dependents : ∀ n, .visit n ∈ done → ∀ m ∈ r.graph.dependents.of n, .visit m ∈ done ++ left
  visit_contained : ∀ n, .release n ∈ done → ∀ m ∈ r.graph.contained.of n, .visit m ∈ done ++ left
  settle_iff : ∀ n h, .settle n h ∈ done ++ left ↔ .visit n ∈ done ∧ r.handles.find? n = some h
  calls_nodup : (Task.calls (done ++ left)).Nodup

namespace Covers

theorem start (r : C.Store) (ns : List Name) : Covers r ns [] (ns.map .visit) := by
  constructor
  case closure_of_visit =>
    intro m hm
    simp only [List.nil_append, List.mem_map, Task.visit.injEq, exists_eq_right] at hm
    exact ⟨m, hm, .refl⟩
  case calls_nodup => simp [Task.calls_visit]
  all_goals simp

theorem perm_step (next : List (Task C)) :
    ((done ++ [t]) ++ (next ++ left)).Perm (next ++ (done ++ t :: left)) := by
  rw [List.append_assoc, List.singleton_append]
  have hcons : (t :: (next ++ left)).Perm (next ++ t :: left) := List.perm_middle.symm
  apply (hcons.append_left done).trans
  rw [← List.append_assoc, ← List.append_assoc]
  exact List.perm_append_comm.append_right _

theorem not_wipe_done (h : Covers r ns done left) : ¬ .wipe ∈ done := by
  intro hwipe
  apply h.not_wipe
  exact List.mem_append_left _ hwipe

theorem dependents_afterAll (h : Covers r ns done left) :
    m ∈ (r.afterAll done).graph.dependents.of n ↔
      ¬ .visit n ∈ done ∧ m ∈ r.graph.dependents.of n ∧ ¬ .scrub m ∈ done := by
  by_cases hn : .visit n ∈ done
  · rw [Edges.of_eq_empty_of_find?_eq_none (Registry.find?_dependents_afterAll hn)]
    simp [hn]
  · rw [← NameSet.mem_toList, Registry.dependents_afterAll hn h.not_wipe_done]
    simp [hn, NameSet.mem_toList]

theorem contained_afterAll (h : Covers r ns done left) :
    m ∈ (r.afterAll done).graph.contained.of n ↔
      ¬ .release n ∈ done ∧ m ∈ r.graph.contained.of n := by
  rw [Edges.mem_of_iff, Edges.mem_of_iff, Registry.find?_contained_afterAll n h.not_wipe_done]
  by_cases hn : .release n ∈ done
  · simp [hn]
  · simp [hn]

theorem handles_afterAll (h : Covers r ns done left) {handle : Entrusted C .callback} :
    (r.afterAll done).handles.find? n = some handle ↔
      ¬ .visit n ∈ done ∧ r.handles.find? n = some handle := by
  rw [Registry.find?_handles_afterAll n h.not_wipe_done]
  simp

theorem visit_of_scrub (h : Covers r ns done left) (hm : .scrub m ∈ done) : .visit m ∈ done := by
  apply h.visit_of_release
  apply List.mem_append_left
  apply h.release_of_scrub
  exact List.mem_append_left _ hm

theorem closure_of_next (h : Covers r ns done (t :: left))
    (hm : .visit m ∈ (r.afterAll done).next t) : ∃ n ∈ ns, r.graph.Closure n m := by
  rw [Registry.visit_mem_next] at hm
  obtain ⟨k, hk⟩ := hm
  cases hk with
  | inl hk =>
    rw [h.dependents_afterAll] at hk
    obtain ⟨n, hn, hclosure⟩ := h.closure_of_visit k (by simp [hk.1])
    exact ⟨n, hn, hclosure.tail (.inl hk.2.2.1)⟩
  | inr hk =>
    rw [h.contained_afterAll] at hk
    have hvisit : .visit k ∈ done := h.visit_of_release k (by simp [hk.1])
    obtain ⟨n, hn, hclosure⟩ := h.closure_of_visit k (List.mem_append_left _ hvisit)
    exact ⟨n, hn, hclosure.tail (.inr hk.2.2)⟩

theorem calls_step (h : Covers r ns done (t :: left)) :
    (Task.calls ((done ++ [t]) ++ ((r.afterAll done).next t ++ left))).Nodup := by
  have hperm : (Task.calls ((done ++ [t]) ++ ((r.afterAll done).next t ++ left))).Perm
      (Task.calls ((r.afterAll done).next t ++ (done ++ t :: left))) :=
    (perm_step _).filterMap Task.call?
  rw [hperm.nodup_iff, Task.calls_append, List.nodup_append]
  refine ⟨Registry.calls_next_nodup _ t, h.calls_nodup, ?_⟩
  intro b hb b' hb' heq
  rw [Task.mem_calls] at hb hb'
  obtain ⟨n, handle, hnext, hn⟩ := hb
  obtain ⟨n', handle', hbefore, hn'⟩ := hb'
  rw [hn, hn', Body.callback.injEq] at heq
  rw [Registry.settle_mem_next, h.handles_afterAll] at hnext
  rw [h.settle_iff, ← heq.1] at hbefore
  exact hnext.2.1 hbefore.1

theorem step (h : Covers r ns done (t :: left)) :
    Covers r ns (done ++ [t]) ((r.afterAll done).next t ++ left) := by
  have hmem : ∀ u, u ∈ (done ++ [t]) ++ ((r.afterAll done).next t ++ left) ↔
      u ∈ (r.afterAll done).next t ∨ u ∈ done ++ t :: left := by
    intro u
    rw [(perm_step _).mem_iff, List.mem_append]
  have hdone : ∀ u, u ∈ done ++ [t] ↔ t = u ∨ u ∈ done := by
    intro u
    rw [List.mem_append, List.mem_singleton, or_comm, eq_comm]
  constructor
  case not_wipe =>
    rw [hmem, not_or]
    exact ⟨Registry.wipe_not_mem_next, h.not_wipe⟩
  case visit_of_mem =>
    intro n hn
    rw [hmem]
    exact Or.inr (h.visit_of_mem n hn)
  case closure_of_visit =>
    intro m hm
    rw [hmem] at hm
    cases hm with
    | inl hm => exact h.closure_of_next hm
    | inr hm => exact h.closure_of_visit m hm
  case release_of_visit =>
    intro n hn
    rw [hdone] at hn
    rw [hmem, Registry.release_mem_next]
    exact hn.imp id (h.release_of_visit n)
  case visit_of_release =>
    intro n hn
    rw [hmem, Registry.release_mem_next] at hn
    rw [hdone]
    exact hn.imp id (h.visit_of_release n)
  case scrub_of_release =>
    intro n hn
    rw [hdone] at hn
    rw [hmem, Registry.scrub_mem_next]
    exact hn.imp id (h.scrub_of_release n)
  case release_of_scrub =>
    intro n hn
    rw [hmem, Registry.scrub_mem_next] at hn
    rw [hdone]
    exact hn.imp id (h.release_of_scrub n)
  case visit_dependents =>
    intro n hn m hm
    rw [hdone] at hn
    rw [hmem, Registry.visit_mem_next]
    by_cases hvisit : .visit n ∈ done
    · exact Or.inr (h.visit_dependents n hvisit m hm)
    · -- a dependent that is not in the graph any more has been scrubbed, and visited before that
      by_cases hscrub : .scrub m ∈ done
      · exact Or.inr (List.mem_append_left _ (h.visit_of_scrub hscrub))
      · have ht : t = .visit n := hn.resolve_right hvisit
        apply Or.inl
        exists n
        rw [h.dependents_afterAll]
        exact Or.inl ⟨ht, hvisit, hm, hscrub⟩
  case visit_contained =>
    intro n hn m hm
    rw [hdone] at hn
    rw [hmem, Registry.visit_mem_next]
    by_cases hrelease : .release n ∈ done
    · exact Or.inr (h.visit_contained n hrelease m hm)
    · have ht : t = .release n := hn.resolve_right hrelease
      apply Or.inl
      exists n
      rw [h.contained_afterAll]
      exact Or.inr ⟨ht, hrelease, hm⟩
  case settle_iff =>
    intro n handle
    rw [hmem, Registry.settle_mem_next, h.handles_afterAll, h.settle_iff, hdone]
    by_cases hvisit : .visit n ∈ done
    · simp [hvisit]
    · simp [hvisit]
  case calls_nodup => exact h.calls_step

theorem of_tears (h : Tears r (ns.map .visit) done left) : Covers r ns done left := by
  induction h with
  | refl => exact start r ns
  | step _ ih => exact ih.step

theorem visit_of_closure (h : Covers r ns done []) (hn : .visit n ∈ done)
    (hclosure : r.graph.Closure n m) : .visit m ∈ done := by
  induction hclosure with
  | refl => exact hn
  | tail _ hedge ih =>
    rw [← List.append_nil done]
    cases hedge with
    | inl hedge => exact h.visit_dependents _ ih _ hedge
    | inr hedge =>
      have hrelease := h.release_of_visit _ ih
      rw [List.append_nil] at hrelease
      exact h.visit_contained _ hrelease _ hedge

theorem visit_iff (h : Covers r ns done []) :
    .visit m ∈ done ↔ ∃ n ∈ ns, r.graph.Closure n m := by
  constructor
  · intro hm
    apply h.closure_of_visit
    exact List.mem_append_left _ hm
  · intro hm
    obtain ⟨n, hn, hclosure⟩ := hm
    have hvisit := h.visit_of_mem n hn
    rw [List.append_nil] at hvisit
    exact h.visit_of_closure hvisit hclosure

theorem release_iff (h : Covers r ns done []) : .release m ∈ done ↔ .visit m ∈ done := by
  have hrelease := h.release_of_visit m
  have hvisit := h.visit_of_release m
  rw [List.append_nil] at hrelease hvisit
  exact ⟨hvisit, hrelease⟩

theorem scrub_iff (h : Covers r ns done []) : .scrub m ∈ done ↔ .visit m ∈ done := by
  have hscrub := h.scrub_of_release m
  have hrelease := h.release_of_scrub m
  rw [List.append_nil] at hscrub hrelease
  rw [← h.release_iff]
  exact ⟨hrelease, hscrub⟩

theorem mem_calls_iff (h : Covers r ns done []) {b : Body} :
    b ∈ Task.calls done ↔ ∃ m handle, .visit m ∈ done ∧ r.handles.find? m = some handle ∧
      b = .callback m handle.ticket := by
  rw [Task.mem_calls]
  have hsettle := h.settle_iff
  simp only [List.append_nil] at hsettle
  simp only [hsettle, and_assoc]

theorem callback_mem_iff (h : Covers r ns done []) {handle : Entrusted C .callback}
    (hhandle : r.handles.find? m = some handle) :
    .callback m handle.ticket ∈ Task.calls done ↔ .visit m ∈ done := by
  rw [h.mem_calls_iff]
  constructor
  · intro hcall
    obtain ⟨k, handle', hk, _, heq⟩ := hcall
    rw [Body.callback.injEq] at heq
    rwa [heq.1]
  · intro hm
    exact ⟨m, handle, hm, hhandle, rfl⟩

end Covers

structure Registry.Lacks (r : C.Store) (n : Name) : Prop where
  ready : r.cache.ready.find? n = none
  slots : r.cache.slots.find? n = none
  listed : ¬ n ∈ r.cache.listed
  handles : r.handles.find? n = none
  dependents : r.graph.dependents.find? n = none
  dependencies : r.graph.dependencies.find? n = none
  contained : r.graph.contained.find? n = none
  not_dependent : ∀ m, ¬ n ∈ r.graph.dependents.of m

open Classical in
structure Registry.Keeps (r r' : C.Store) (gone : Name → Prop) (n : Name) : Prop where
  ready : r'.cache.ready.find? n = r.cache.ready.find? n
  slots : r'.cache.slots.find? n = r.cache.slots.find? n
  listed : n ∈ r'.cache.listed ↔ n ∈ r.cache.listed
  handles : r'.handles.find? n = r.handles.find? n
  dependencies : r'.graph.dependencies.find? n = r.graph.dependencies.find? n
  contained : r'.graph.contained.find? n = r.graph.contained.find? n
  dependents : (r'.graph.dependents.of n).toList =
    (r.graph.dependents.of n).toList.filter fun m => ¬ gone m

namespace Covers

theorem lacks_afterAll (h : Covers r ns done []) (hn : .visit n ∈ done) :
    (r.afterAll done).Lacks n := by
  have hwipe := h.not_wipe_done
  have hrelease : .release n ∈ done := h.release_iff.mpr hn
  have hscrub : .scrub n ∈ done := h.scrub_iff.mpr hn
  constructor
  case ready => simp [Registry.find?_ready_afterAll n hwipe, hn]
  case slots => simp [Registry.find?_slots_afterAll n hwipe, hn]
  case listed => simp [← NameSet.mem_toList, Registry.listed_afterAll hwipe, hn]
  case handles => simp [Registry.find?_handles_afterAll n hwipe, hn]
  case dependents => exact Registry.find?_dependents_afterAll hn
  case dependencies => simp [Registry.find?_dependencies_afterAll n hwipe, hscrub]
  case contained => simp [Registry.find?_contained_afterAll n hwipe, hrelease]
  case not_dependent =>
    intro m
    rw [h.dependents_afterAll]
    simp [hscrub]

theorem keeps_afterAll (h : Covers r ns done []) (hn : ¬ .visit n ∈ done) :
    r.Keeps (r.afterAll done) (fun m => .visit m ∈ done) n := by
  have hwipe := h.not_wipe_done
  have hrelease : ¬ .release n ∈ done := mt h.release_iff.mp hn
  have hscrub : ¬ .scrub n ∈ done := mt h.scrub_iff.mp hn
  constructor
  case ready => simp [Registry.find?_ready_afterAll n hwipe, hn]
  case slots => simp [Registry.find?_slots_afterAll n hwipe, hn]
  case listed => simp [← NameSet.mem_toList, Registry.listed_afterAll hwipe, hn]
  case handles => simp [Registry.find?_handles_afterAll n hwipe, hn]
  case dependencies => simp [Registry.find?_dependencies_afterAll n hwipe, hscrub]
  case contained => simp [Registry.find?_contained_afterAll n hwipe, hrelease]
  case dependents =>
    rw [Registry.dependents_afterAll hn hwipe]
    apply List.filter_congr
    intro m _
    simp [h.scrub_iff]

end Covers

end InstanceRegistry
