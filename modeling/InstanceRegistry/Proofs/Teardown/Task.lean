import InstanceRegistry.Proofs.Graph.Edges
import InstanceRegistry.Proofs.Run

/-!
This module contains teardowns as lists of tasks, without the client code that they call: what a
task does to the registry, which tasks it puts in front of those that are left, and what the
registry is after some tasks.
-/

namespace InstanceRegistry

variable {C : Client}

namespace Task

def visit? : Task C → Option Name
  | .visit n => some n
  | _ => none

def release? : Task C → Option Name
  | .release n => some n
  | _ => none

def scrub? : Task C → Option Name
  | .scrub n => some n
  | _ => none

def call? : Task C → Option Body
  | .settle n handle => some (.callback n handle.ticket)
  | _ => none

def visited (ts : List (Task C)) : List Name :=
  ts.filterMap visit?

def released (ts : List (Task C)) : List Name :=
  ts.filterMap release?

def scrubbed (ts : List (Task C)) : List Name :=
  ts.filterMap scrub?

def calls (ts : List (Task C)) : List Body :=
  ts.filterMap call?

variable {ts ts' : List (Task C)} {n : Name}

theorem mem_filterMap_iff {key? : Task C → Option Name} {mk : Name → Task C}
    (h : ∀ t, key? t = some n ↔ t = mk n) : n ∈ ts.filterMap key? ↔ mk n ∈ ts := by
  rw [List.mem_filterMap]
  constructor
  · intro hkey
    obtain ⟨t, ht, hn⟩ := hkey
    rw [h] at hn
    rwa [hn] at ht
  · intro hmem
    exists mk n
    rw [h]
    exact ⟨hmem, rfl⟩

@[simp]
theorem mem_visited : n ∈ visited ts ↔ .visit n ∈ ts := by
  apply mem_filterMap_iff
  intro t
  cases t <;> simp [visit?]

@[simp]
theorem mem_released : n ∈ released ts ↔ .release n ∈ ts := by
  apply mem_filterMap_iff
  intro t
  cases t <;> simp [release?]

@[simp]
theorem mem_scrubbed : n ∈ scrubbed ts ↔ .scrub n ∈ ts := by
  apply mem_filterMap_iff
  intro t
  cases t <;> simp [scrub?]

theorem mem_calls {b : Body} :
    b ∈ calls ts ↔ ∃ n handle, .settle n handle ∈ ts ∧ b = .callback n handle.ticket := by
  unfold calls
  rw [List.mem_filterMap]
  constructor
  · intro h
    obtain ⟨t, ht, hb⟩ := h
    cases t with
    | settle n handle =>
      cases hb
      exact ⟨n, handle, ht, rfl⟩
    | _ => cases hb
  · intro h
    obtain ⟨n, handle, ht, hb⟩ := h
    exact ⟨.settle n handle, ht, hb ▸ rfl⟩

@[simp]
theorem calls_nil : calls ([] : List (Task C)) = [] :=
  rfl

@[simp]
theorem calls_cons (t : Task C) : calls (t :: ts) = t.call?.toList ++ calls ts := by
  unfold calls
  rw [List.filterMap_cons]
  cases t.call? with
  | none => rfl
  | some b => rfl

theorem calls_append : calls (ts ++ ts') = calls ts ++ calls ts' :=
  List.filterMap_append

theorem calls_visit (names : List Name) : calls (names.map (visit : Name → Task C)) = [] := by
  induction names with
  | nil => rfl
  | cons n names ih => exact ih

end Task

namespace Registry

def after (r : C.Store) : Task C → C.Store
  | .visit n => r.visit n
  | .settle _ _ => r
  | .release n => r.release n
  | .scrub n => r.scrub n
  | .wipe => r.wipe

def afterAll (r : C.Store) (ts : List (Task C)) : C.Store :=
  ts.foldl after r

def next (r : C.Store) : Task C → List (Task C)
  | .visit n =>
    (r.graph.dependents.of n).toList.map .visit ++
      ((r.handles.find? n).toList.map (.settle n) ++ [.release n])
  | .release n => (r.graph.contained.of n).toList.map .visit ++ [.scrub n]
  | _ => []

variable {r : C.Store} {ts : List (Task C)}

theorem afterAll_append (ts' : List (Task C)) :
    r.afterAll (ts ++ ts') = (r.afterAll ts).afterAll ts' :=
  List.foldl_append

theorem find?_afterAll {β : Type} (f : C.Store → Option β) (key? : Task C → Option Name) (n : Name)
    (h : ∀ (r : C.Store) (t : Task C), t ≠ .wipe →
      f (r.after t) = if key? t = some n then none else f r) (hwipe : ¬ .wipe ∈ ts) :
    f (r.afterAll ts) = if n ∈ ts.filterMap key? then none else f r := by
  induction ts generalizing r with
  | nil => rfl
  | cons t ts ih =>
    rw [List.mem_cons, not_or] at hwipe
    have hafter : r.afterAll (t :: ts) = (r.after t).afterAll ts := rfl
    rw [hafter, ih hwipe.2, h r t (Ne.symm hwipe.1)]
    cases hkey : key? t with
    | none => simp [hkey]
    | some m =>
      by_cases hm : m = n
      · simp [hkey, hm]
      · simp [hkey, hm, Ne.symm hm]

theorem find?_ready_afterAll (n : Name) (hwipe : ¬ .wipe ∈ ts) :
    (r.afterAll ts).cache.ready.find? n =
      if n ∈ Task.visited ts then none else r.cache.ready.find? n := by
  apply find?_afterAll (fun r => r.cache.ready.find? n) Task.visit? n _ hwipe
  intro r t ht
  cases t with
  | visit m => simp [after, visit, detach, Cache.remove, Table.find?_erase, Task.visit?, eq_comm]
  | wipe => exact absurd rfl ht
  | _ => rfl

theorem find?_slots_afterAll (n : Name) (hwipe : ¬ .wipe ∈ ts) :
    (r.afterAll ts).cache.slots.find? n =
      if n ∈ Task.visited ts then none else r.cache.slots.find? n := by
  apply find?_afterAll (fun r => r.cache.slots.find? n) Task.visit? n _ hwipe
  intro r t ht
  cases t with
  | visit m =>
    simp [after, visit, detach, Cache.remove, Cache.discard, Table.find?_erase, Task.visit?,
      eq_comm]
  | wipe => exact absurd rfl ht
  | _ => rfl

theorem find?_handles_afterAll (n : Name) (hwipe : ¬ .wipe ∈ ts) :
    (r.afterAll ts).handles.find? n =
      if n ∈ Task.visited ts then none else r.handles.find? n := by
  apply find?_afterAll (fun r => r.handles.find? n) Task.visit? n _ hwipe
  intro r t ht
  cases t with
  | visit m => simp [after, visit, detach, Table.find?_erase, Task.visit?, eq_comm]
  | wipe => exact absurd rfl ht
  | _ => rfl

theorem find?_contained_afterAll (n : Name) (hwipe : ¬ .wipe ∈ ts) :
    (r.afterAll ts).graph.contained.find? n =
      if n ∈ Task.released ts then none else r.graph.contained.find? n := by
  apply find?_afterAll (fun r => r.graph.contained.find? n) Task.release? n _ hwipe
  intro r t ht
  cases t with
  | release m =>
    simp [after, release, Graph.takeContained, Table.find?_erase, Task.release?, eq_comm]
  | wipe => exact absurd rfl ht
  | _ => rfl

theorem find?_dependencies_afterAll (n : Name) (hwipe : ¬ .wipe ∈ ts) :
    (r.afterAll ts).graph.dependencies.find? n =
      if n ∈ Task.scrubbed ts then none else r.graph.dependencies.find? n := by
  apply find?_afterAll (fun r => r.graph.dependencies.find? n) Task.scrub? n _ hwipe
  intro r t ht
  cases t with
  | scrub m =>
    simp [after, scrub, Graph.removeReferences, Table.find?_erase, Task.scrub?, eq_comm]
  | wipe => exact absurd rfl ht
  | _ => rfl

theorem filter_afterAll (f : C.Store → List Name) (key? : Task C → Option Name)
    (h : ∀ (r : C.Store), ∀ t ∈ ts, f (r.after t) = match key? t with
      | some m => (f r).filter (· ≠ m)
      | none => f r) :
    f (r.afterAll ts) = (f r).filter fun d => !decide (d ∈ ts.filterMap key?) := by
  induction ts generalizing r with
  | nil =>
    rw [List.filter_eq_self.mpr]
    · rfl
    · simp
  | cons t ts ih =>
    have hafter : r.afterAll (t :: ts) = (r.after t).afterAll ts := rfl
    rw [hafter, ih, h r t (List.mem_cons_self ..)]
    · cases hkey : key? t with
      | none => simp [hkey]
      | some m =>
        dsimp
        rw [List.filter_filter]
        apply List.filter_congr
        intro d _
        simp [hkey, Bool.and_comm]
    · intro r t ht
      exact h r t (List.mem_cons_of_mem _ ht)

theorem listed_afterAll (hwipe : ¬ .wipe ∈ ts) :
    (r.afterAll ts).cache.listed.toList =
      r.cache.listed.toList.filter fun n => !decide (n ∈ Task.visited ts) := by
  apply filter_afterAll (fun r => r.cache.listed.toList) Task.visit?
  intro r t ht
  cases t with
  | visit m => rfl
  | wipe => exact absurd ht hwipe
  | _ => rfl

theorem dependents_afterAll {n : Name} (hvisit : ¬ .visit n ∈ ts) (hwipe : ¬ .wipe ∈ ts) :
    ((r.afterAll ts).graph.dependents.of n).toList =
      (r.graph.dependents.of n).toList.filter fun d => !decide (d ∈ Task.scrubbed ts) := by
  apply filter_afterAll (fun r => (r.graph.dependents.of n).toList) Task.scrub?
  intro r t ht
  cases t with
  | visit m =>
    have hne : n ≠ m := by
      intro hnm
      rw [hnm] at hvisit
      exact hvisit ht
    simp [after, visit, detach, Graph.takeDependents, Edges.of_erase, hne, Task.scrub?]
  | scrub m => exact Edges.toList_of_scrub ..
  | wipe => exact absurd ht hwipe
  | _ => rfl

theorem find?_dependents_after {n : Name} (h : r.graph.dependents.find? n = none) (t : Task C) :
    (r.after t).graph.dependents.find? n = none := by
  cases t with
  | visit m => simp [after, visit, detach, Graph.takeDependents, Table.find?_erase, h]
  | scrub m => exact Edges.find?_scrub_eq_none h m
  | wipe => rfl
  | _ => exact h

theorem find?_dependents_afterAll_of_eq_none {n : Name} (h : r.graph.dependents.find? n = none) :
    (r.afterAll ts).graph.dependents.find? n = none := by
  induction ts generalizing r with
  | nil => exact h
  | cons t ts ih =>
    apply ih
    exact find?_dependents_after h t

theorem find?_dependents_afterAll {n : Name} (h : .visit n ∈ ts) :
    (r.afterAll ts).graph.dependents.find? n = none := by
  induction ts generalizing r with
  | nil => cases h
  | cons t ts ih =>
    cases h with
    | head =>
      have hafter : r.afterAll (.visit n :: ts) = (r.after (.visit n)).afterAll ts := rfl
      rw [hafter]
      apply find?_dependents_afterAll_of_eq_none
      simp [after, visit, detach, Graph.takeDependents, Table.find?_erase]
    | tail _ h => exact ih h

end Registry

inductive Tears (r : C.Store) (tasks : List (Task C)) : List (Task C) → List (Task C) → Prop
  | refl : Tears r tasks [] tasks
  | step {done left : List (Task C)} {t : Task C} (h : Tears r tasks done (t :: left)) :
    Tears r tasks (done ++ [t]) ((r.afterAll done).next t ++ left)

namespace Tears

variable {r : C.Store} {tasks done left back : List (Task C)} {n : Name}

theorem append (h : Tears r tasks done left) (back : List (Task C)) :
    Tears r (tasks ++ back) done (left ++ back) := by
  induction h with
  | refl => exact refl
  | step _ ih =>
    rw [List.append_assoc]
    exact step ih

theorem trans {done' left' : List (Task C)} (h : Tears r tasks done left)
    (h' : Tears (r.afterAll done) left done' left') : Tears r tasks (done ++ done') left' := by
  induction h' with
  | refl =>
    rw [List.append_nil]
    exact h
  | step _ ih =>
    rw [← List.append_assoc, ← Registry.afterAll_append]
    exact step ih

end Tears

end InstanceRegistry
