import InstanceRegistry.Proofs.Teardown.Closure

/-!
This module contains what stands in front of a handle while a teardown goes on: the tasks of the
names that its own name waits for, and nothing else (`Tears.stacked`).
-/

namespace InstanceRegistry

variable {C : Client} {r : C.Store} {ns : List Name} {done left : List (Task C)} {t : Task C}
  {n m : Name}

universe u

theorem append_eq_append_cons {α : Type u} {as bs front back : List α} {a : α}
    (h : as ++ bs = front ++ a :: back) :
    (∃ front', front = as ++ front' ∧ bs = front' ++ a :: back) ∨
      ∃ back', as = front ++ a :: back' := by
  rw [List.append_eq_append_iff] at h
  cases h with
  | inl h => exact Or.inl h
  | inr h =>
    obtain ⟨rest, has, hrest⟩ := h
    cases rest with
    | nil =>
      rw [List.append_nil] at has
      exact Or.inl ⟨[], by rw [has, List.append_nil], hrest.symm⟩
    | cons a' rest =>
      rw [List.cons_append, List.cons.injEq] at hrest
      rw [hrest.1]
      exact Or.inr ⟨rest, has⟩

namespace Graph

/-- The callback of a name waits for the teardown of another one. -/
def Awaits (g : Graph) (n m : Name) : Prop :=
  ∃ d ∈ g.dependents.of n, g.Closure d m

theorem Awaits.trans {g : Graph} {k : Name} (h : g.Awaits n m) (hclosure : g.Closure m k) :
    g.Awaits n k := by
  obtain ⟨d, hd, hdm⟩ := h
  exact ⟨d, hd, hdm.trans hclosure⟩

theorem closure_takeDependents {g : Graph} (k : Name) (h : g.Closure m n) :
    (g.takeDependents k).2.Closure m n ∨
      ∃ d ∈ g.dependents.of k, (g.takeDependents k).2.Closure d n := by
  induction h using Relation.ReflTransGen.head_induction_on with
  | refl => exact Or.inl .refl
  | @head m m' hedge _ ih =>
    cases ih with
    | inr ih => exact Or.inr ih
    | inl ih =>
      cases hedge with
      | inr hedge => exact Or.inl (ih.head (.inr hedge))
      | inl hedge =>
        by_cases hm : m = k
        · rw [hm] at hedge
          exact Or.inr ⟨m', hedge, ih⟩
        · apply Or.inl
          apply ih.head
          apply Or.inl
          unfold takeDependents
          rw [Edges.of_erase, if_neg hm]
          exact hedge

theorem Awaits.takeDependents {g : Graph} (h : g.Awaits n m) :
    ∃ d ∈ g.dependents.of n, (g.takeDependents n).2.Closure d m := by
  obtain ⟨d, hd, hclosure⟩ := h
  cases closure_takeDependents n hclosure with
  | inl hclosure => exact ⟨d, hd, hclosure⟩
  | inr hclosure => exact hclosure

end Graph

def Task.name? : Task C → Option Name
  | .visit n => some n
  | .settle n _ => some n
  | .release n => some n
  | .scrub n => some n
  | .wipe => none

structure Waits (g : Graph) (done front : List (Task C)) (n : Name) : Prop where
  visit_dependents : ∀ m ∈ g.dependents.of n, .visit m ∈ done ∨ .visit m ∈ front
  awaits : ∀ t ∈ front, (∃ handle, t = .settle n handle) ∨ ∃ m, t.name? = some m ∧ g.Awaits n m

theorem Waits.append_settle {g : Graph} {front : List (Task C)} (h : Waits g done front n)
    (handles : List (Entrusted C .callback)) :
    Waits g done (front ++ handles.map (.settle n)) n := by
  constructor
  case visit_dependents =>
    intro m hm
    rw [List.mem_append]
    exact (h.visit_dependents m hm).imp_right Or.inl
  case awaits =>
    intro t ht
    rw [List.mem_append, List.mem_map] at ht
    cases ht with
    | inl ht => exact h.awaits t ht
    | inr ht =>
      obtain ⟨handle, _, ht⟩ := ht
      exact Or.inl ⟨handle, ht.symm⟩

def Stacked (r : C.Store) (done left : List (Task C)) : Prop :=
  ∀ front n handle back, left = front ++ .settle n handle :: back → Waits r.graph done front n

namespace Registry

theorem exists_of_next_eq_append {front back : List (Task C)} (ht : ∀ m, t ≠ .visit m)
    (h : r.next (.visit n) = front ++ t :: back) :
    ∃ front', front = (r.graph.dependents.of n).toList.map .visit ++ front' ∧
      (r.handles.find? n).toList.map (.settle n) ++ [.release n] = front' ++ t :: back := by
  dsimp only [next] at h
  cases append_eq_append_cons h with
  | inl hrest => exact hrest
  | inr hvisits =>
    obtain ⟨back', hvisits⟩ := hvisits
    have hmem : t ∈ (r.graph.dependents.of n).toList.map Task.visit := by
      rw [hvisits]
      simp
    rw [List.mem_map] at hmem
    obtain ⟨m, _, hm⟩ := hmem
    exact absurd hm.symm (ht m)

theorem eq_of_next_eq_append_settle {handle : Entrusted C .callback} {front back : List (Task C)}
    (h : r.next (.visit n) = front ++ .settle m handle :: back) :
    front = (r.graph.dependents.of n).toList.map .visit := by
  obtain ⟨front', hfront, hrest⟩ := exists_of_next_eq_append (by simp) h
  have hnil : front' = [] := by
    cases hhandle : r.handles.find? n with
    | none =>
      rw [hhandle] at hrest
      cases front' with
      | nil => rfl
      | cons u front' => simp at hrest
    | some handle' =>
      rw [hhandle] at hrest
      cases front' with
      | nil => rfl
      | cons u front' => cases front' <;> simp at hrest
  rw [hfront, hnil, List.append_nil]

theorem eq_of_next_eq_append_release {front back : List (Task C)}
    (h : r.next (.visit n) = front ++ .release m :: back) :
    front = (r.graph.dependents.of n).toList.map .visit ++
      (r.handles.find? n).toList.map (.settle n) := by
  obtain ⟨front', hfront, hrest⟩ := exists_of_next_eq_append (by simp) h
  have hhandle : (r.handles.find? n).toList.map (.settle n) = front' := by
    cases append_eq_append_cons hrest with
    | inl hlast =>
      obtain ⟨last, hlast, hsingle⟩ := hlast
      cases last with
      | nil => rw [hlast, List.append_nil]
      | cons u last => simp at hsingle
    | inr hsettle =>
      obtain ⟨back', hsettle⟩ := hsettle
      have hmem : Task.release m ∈ (r.handles.find? n).toList.map (.settle n) := by
        rw [hsettle]
        simp
      simp at hmem
  rw [hfront, hhandle]

end Registry

namespace Covers

theorem name?_next (h : Covers r ns done (t :: left)) {u : Task C}
    (hu : u ∈ (r.afterAll done).next t) :
    ∃ n m, t.name? = some n ∧ u.name? = some m ∧ r.graph.Closure n m := by
  cases u with
  | visit m =>
    rw [Registry.visit_mem_next] at hu
    obtain ⟨n, hn⟩ := hu
    rw [h.dependents_afterAll, h.contained_afterAll] at hn
    cases hn with
    | inl hn => exact ⟨n, m, hn.1 ▸ rfl, rfl, .single (.inl hn.2.2.1)⟩
    | inr hn => exact ⟨n, m, hn.1 ▸ rfl, rfl, .single (.inr hn.2.2)⟩
  | settle m handle =>
    rw [Registry.settle_mem_next] at hu
    exact ⟨m, m, hu.1 ▸ rfl, rfl, .refl⟩
  | release m =>
    rw [Registry.release_mem_next] at hu
    exact ⟨m, m, hu ▸ rfl, rfl, .refl⟩
  | scrub m =>
    rw [Registry.scrub_mem_next] at hu
    exact ⟨m, m, hu ▸ rfl, rfl, .refl⟩
  | wipe => exact absurd hu Registry.wipe_not_mem_next

theorem waits_step (h : Covers r ns done (t :: left)) {front : List (Task C)}
    (hwaits : Waits r.graph done (t :: front) n) :
    Waits r.graph (done ++ [t]) ((r.afterAll done).next t ++ front) n := by
  constructor
  case visit_dependents =>
    intro m hm
    rw [List.mem_append, List.mem_append, List.mem_singleton]
    cases hwaits.visit_dependents m hm with
    | inl hdone => exact Or.inl (Or.inl hdone)
    | inr hfront =>
      rw [List.mem_cons] at hfront
      cases hfront with
      | inl ht => exact Or.inl (Or.inr ht)
      | inr hfront => exact Or.inr (Or.inr hfront)
  case awaits =>
    intro u hu
    rw [List.mem_append] at hu
    cases hu with
    | inl hu =>
      obtain ⟨k, m, hk, hm, hclosure⟩ := h.name?_next hu
      cases hwaits.awaits t (List.mem_cons_self ..) with
      | inl hown =>
        obtain ⟨handle, ht⟩ := hown
        rw [ht] at hu
        cases hu
      | inr hawaits =>
        obtain ⟨k', hk', hawaits⟩ := hawaits
        rw [hk, Option.some.injEq] at hk'
        rw [← hk'] at hawaits
        exact Or.inr ⟨m, hm, hawaits.trans hclosure⟩
    | inr hu => exact hwaits.awaits u (List.mem_cons_of_mem _ hu)

theorem waits_visit (h : Covers r ns done (.visit n :: left)) (hvisit : ¬ .visit n ∈ done) :
    Waits r.graph (done ++ [.visit n])
      (((r.afterAll done).graph.dependents.of n).toList.map .visit) n := by
  constructor
  case visit_dependents =>
    intro m hm
    rw [List.mem_append]
    by_cases hscrub : .scrub m ∈ done
    · exact Or.inl (Or.inl (h.visit_of_scrub hscrub))
    · apply Or.inr
      apply List.mem_map_of_mem
      rw [NameSet.mem_toList, h.dependents_afterAll]
      exact ⟨hvisit, hm, hscrub⟩
  case awaits =>
    intro u hu
    rw [List.mem_map] at hu
    obtain ⟨m, hm, hu⟩ := hu
    rw [NameSet.mem_toList, h.dependents_afterAll] at hm
    exact Or.inr ⟨m, hu ▸ rfl, m, hm.2.1, .refl⟩

theorem stacked_step (h : Covers r ns done (t :: left)) (hstacked : Stacked r done (t :: left)) :
    Stacked r (done ++ [t]) ((r.afterAll done).next t ++ left) := by
  intro front n handle back heq
  cases append_eq_append_cons heq with
  | inl hold =>
    -- the handle has been in line before the step
    obtain ⟨front', hfront, hleft⟩ := hold
    rw [hfront]
    apply h.waits_step
    apply hstacked (t :: front') n handle back
    rw [hleft, List.cons_append]
  | inr hnew =>
    -- the step has put the handle in line, so it is the first visit to the name
    obtain ⟨back', hnext⟩ := hnew
    have hmem : .settle n handle ∈ (r.afterAll done).next t := by
      rw [hnext]
      simp
    rw [Registry.settle_mem_next, h.handles_afterAll] at hmem
    obtain ⟨ht, hvisit, _⟩ := hmem
    rw [ht] at h hnext ⊢
    rw [Registry.eq_of_next_eq_append_settle hnext]
    exact h.waits_visit hvisit

end Covers

namespace Tears

variable {b d : Name} {handle handle' : Entrusted C .callback}

theorem stacked (h : Tears r (ns.map .visit) done left) : Stacked r done left := by
  induction h with
  | refl =>
    intro front n handle back heq
    have hmem : Task.settle n handle ∈ ns.map Task.visit := by
      rw [heq]
      simp
    simp at hmem
  | step h ih => exact (Covers.of_tears h).stacked_step ih

theorem visit_mem_done (h : Tears r (ns.map .visit) done (.settle b handle :: left))
    (hedge : d ∈ r.graph.dependents.of b) : .visit d ∈ done := by
  cases (h.stacked [] b handle left rfl).visit_dependents d hedge with
  | inl hdone => exact hdone
  | inr hfront => cases hfront

theorem settle_mem_of_visit (h : Tears r (ns.map .visit) done (.settle b handle :: left))
    (hvisit : .visit d ∈ done) (hne : d ≠ b) (hawaits : ¬ r.graph.Awaits d b)
    (hhandle : r.handles.find? d = some handle') : .settle d handle' ∈ done := by
  have hmem := ((Covers.of_tears h).settle_iff d handle').mpr ⟨hvisit, hhandle⟩
  rw [List.mem_append, List.mem_cons, Task.settle.injEq] at hmem
  cases hmem with
  | inl hdone => exact hdone
  | inr hmem =>
    have hleft := hmem.resolve_left fun heq => hne heq.1
    obtain ⟨front, back, hleft⟩ := List.append_of_mem hleft
    have hwaits := h.stacked (.settle b handle :: front) d handle' back (by rw [hleft]; rfl)
    cases hwaits.awaits _ (List.mem_cons_self ..) with
    | inl hown =>
      obtain ⟨_, hown⟩ := hown
      rw [Task.settle.injEq] at hown
      exact absurd hown.1.symm hne
    | inr hname =>
      obtain ⟨m, hm, hdm⟩ := hname
      cases hm
      exact absurd hdm hawaits

end Tears

end InstanceRegistry
