import InstanceRegistry.Proofs.Creation.Outcome
import InstanceRegistry.Proofs.Graph.Edges
import InstanceRegistry.Proofs.Run

/-!
This module contains how the three maps of a graph fit together in every moment of a run, also while
a teardown goes on: a name knows every name that it is a dependent of, and no name has an empty set
of edges (`Machine.consistent_of_leads`).
-/

namespace InstanceRegistry

variable {C : Client}

namespace Edges

def Occupied (e : Edges) : Prop :=
  ∀ n s, e.find? n = some s → s ≠ ∅

variable {e : Edges}

theorem occupied_empty : Occupied ∅ := by
  intro n s h
  cases h

theorem Occupied.link (h : e.Occupied) (n m : Name) : Occupied (e.link n m) := by
  intro k s hs
  unfold Edges.link at hs
  rw [Table.find?_insert] at hs
  split at hs
  · cases hs
    intro hempty
    have hm : m ∈ (e.of n).insert m := by simp
    rw [hempty] at hm
    exact NameSet.not_mem_empty m hm
  · exact h k s hs

theorem Occupied.erase (h : e.Occupied) (n : Name) : Occupied (e.erase n) := by
  intro k s hs
  rw [Table.find?_erase] at hs
  split at hs
  · cases hs
  · exact h k s hs

theorem occupied_scrub (e : Edges) (m : Name) : Occupied (e.scrub m) := by
  intro k s hs
  rw [find?_scrub, Option.bind_eq_some_iff] at hs
  obtain ⟨t, _, ht⟩ := hs
  split at ht
  · cases ht
  · next hempty =>
    cases ht
    rw [Ne, ← NameSet.isEmpty_iff]
    exact hempty

theorem Occupied.toList_of_ne_nil (h : e.Occupied) {n : Name} {s : NameSet}
    (hs : e.find? n = some s) : (e.of n).toList ≠ [] := by
  intro hnil
  rw [of, hs] at hnil
  exact h n s hs (NameSet.ext hnil)

theorem Occupied.contains_iff (h : e.Occupied) (n : Name) :
    e.contains n = true ↔ (e.of n).toList ≠ [] := by
  unfold Table.contains
  cases hs : e.find? n with
  | none => simp [of_eq_empty_of_find?_eq_none hs]
  | some s => simp [h.toList_of_ne_nil hs]

theorem Occupied.isEmpty_iff (h : e.Occupied) :
    e.isEmpty = true ↔ ∀ n, (e.of n).toList = [] := by
  rw [Table.isEmpty_iff]
  constructor
  · intro hempty n
    rw [hempty]
    rfl
  · intro hnil
    apply Table.ext
    apply List.eq_nil_iff_forall_not_mem.mpr
    intro p hp
    exact h.toList_of_ne_nil (Table.find?_of_mem_entries hp) (hnil p.1)

end Edges

namespace Graph

structure Consistent (g : Graph) : Prop where
  mem_dependencies : ∀ n d, d ∈ g.dependents.of n → n ∈ g.dependencies.of d
  contained : g.contained.Occupied
  dependents : g.dependents.Occupied
  dependencies : g.dependencies.Occupied

variable {g : Graph}

theorem consistent_empty : Graph.empty.Consistent := by
  constructor
  case mem_dependencies =>
    intro n d hd
    cases hd
  all_goals exact Edges.occupied_empty

theorem Consistent.depend (h : g.Consistent) (resolve : Name → Name) (on dependent : Name) :
    (g.depend resolve on dependent).Consistent := by
  unfold Graph.depend
  dsimp only
  split
  · exact h
  · constructor
    · intro n d hd
      simp only [Edges.mem_of_link] at hd ⊢
      exact hd.imp (h.mem_dependencies n d) And.symm
    · exact h.contained
    · exact h.dependents.link _ _
    · exact h.dependencies.link _ _

theorem Consistent.contain (h : g.Consistent) (resolve : Name → Name) (inner outer : Name) :
    (g.contain resolve inner outer).Consistent := by
  unfold Graph.contain
  split
  · exact h
  · apply Consistent.depend
    exact ⟨h.mem_dependencies, h.contained.link _ _, h.dependents, h.dependencies⟩

theorem Consistent.eraseDependents (h : g.Consistent) (n : Name) :
    { g with dependents := g.dependents.erase n }.Consistent := by
  refine ⟨?_, h.contained, h.dependents.erase n, h.dependencies⟩
  intro m d hd
  rw [Edges.mem_of_erase] at hd
  exact h.mem_dependencies m d hd.1

theorem Consistent.takeContained (h : g.Consistent) (n : Name) :
    (g.takeContained n).2.Consistent :=
  ⟨h.mem_dependencies, h.contained.erase n, h.dependents, h.dependencies⟩

theorem Consistent.removeReferences (h : g.Consistent) (n : Name) :
    (g.removeReferences n).Consistent := by
  refine ⟨?_, h.contained, Edges.occupied_scrub _ n, h.dependencies.erase n⟩
  intro m d hd
  unfold Graph.removeReferences at hd ⊢
  rw [Edges.mem_of_scrub] at hd
  rw [Edges.mem_of_erase]
  exact ⟨h.mem_dependencies m d hd.1, hd.2⟩

end Graph

def Change.graph (resolve : Name → Name) (g : Graph) : Change C → Graph
  | perform (.contain inner outer) => g.contain resolve inner outer
  | perform (.depend on dependent) => g.depend resolve on dependent
  | perform (.removeEdges n) => g.removeAll n
  | visit n => (g.takeDependents n).2
  | release n => (g.takeContained n).2
  | scrub n => g.removeReferences n
  | wipe => .empty
  | _ => g

theorem Shift.graph_eq {change : Change C} {r r' : C.Store} {cs cs' : List Creation}
    (h : Shift change r cs r' cs') : r'.graph = change.graph r.resolve r.graph := by
  cases h with
  | perform o =>
    rw [Registry.perform_graph]
    cases o with
    | _ => rfl
  | start hstart =>
    obtain ⟨_, _, _, _, _, hr⟩ := Registry.startCreation_eq_started hstart
    rw [hr]
    rfl
  | conclude c result =>
    rw [Registry.conclude_eq]
    rfl
  | rollback c =>
    rw [Registry.rollback_eq]
    rfl
  | _ => rfl

theorem Graph.Consistent.change {g : Graph} (h : g.Consistent) (resolve : Name → Name)
    (change : Change C) : (change.graph resolve g).Consistent := by
  cases change with
  | perform o =>
    cases o with
    | contain inner outer => exact h.contain resolve inner outer
    | depend on dependent => exact h.depend resolve on dependent
    | removeEdges n => exact (h.eraseDependents n).removeReferences n
    | _ => exact h
  | visit n => exact h.eraseDependents n
  | release n => exact h.takeContained n
  | scrub n => exact h.removeReferences n
  | wipe => exact consistent_empty
  | _ => exact h

namespace Machine

variable {m : Machine C}

theorem consistent_graph_of_leads (config : Config) (resolver : Option (Name → Name))
    (state : C.State) (p : Program C .block)
    (h : (start (.fresh config resolver state) p).Leads m) :
    m.world.registry.graph.Consistent := by
  apply of_leadsBy (I := fun r _ => r.graph.Consistent) h
  · exact Graph.consistent_empty
  · intro k r' cs' _ hshift hk
    rw [hshift.graph_eq]
    exact hk.change _ _

/--
In every moment of a run each dependent of a name has that name among its dependencies, and no name
has an empty set of edges. So a name is said to have dependents exactly if some are listed, and the
graph is said to be empty exactly if nothing is listed for any name.
-/
theorem consistent_of_leads (config : Config) (resolver : Option (Name → Name)) (state : C.State)
    (p : Program C .block) (h : (start (.fresh config resolver state) p).Leads m) :
    (∀ b d, d ∈ (m.world.registry.perform (.dependents b)).answer →
      b ∈ (m.world.registry.perform (.dependencies d)).answer) ∧
    (∀ e ∈ [m.world.registry.graph.contained, m.world.registry.graph.dependents,
      m.world.registry.graph.dependencies], ∀ n s, e.find? n = some s → s ≠ ∅) ∧
    (∀ b, (m.world.registry.perform (.hasDependent b)).answer = true ↔
      (m.world.registry.perform (.dependents b)).answer ≠ []) ∧
    ((m.world.registry.perform .graphIsEmpty).answer = true ↔
      ∀ n, (m.world.registry.perform (.dependents n)).answer = [] ∧
        (m.world.registry.perform (.dependencies n)).answer = [] ∧
        (m.world.registry.perform (.contained n)).answer = []) := by
  have hgraph := consistent_graph_of_leads config resolver state p h
  refine ⟨hgraph.mem_dependencies, ?_, hgraph.dependents.contains_iff, ?_⟩
  · intro e he
    simp only [List.mem_cons, List.not_mem_nil, or_false] at he
    rcases he with rfl | rfl | rfl
    · exact hgraph.contained
    · exact hgraph.dependents
    · exact hgraph.dependencies
  · have hempty : (m.world.registry.perform .graphIsEmpty).answer =
        m.world.registry.graph.isEmpty := rfl
    rw [hempty, Graph.isEmpty, Bool.and_eq_true, Bool.and_eq_true, hgraph.contained.isEmpty_iff,
      hgraph.dependents.isEmpty_iff, hgraph.dependencies.isEmpty_iff]
    constructor
    · rintro ⟨⟨hcontained, hdependents⟩, hdependencies⟩ n
      exact ⟨hdependents n, hdependencies n, hcontained n⟩
    · intro hnil
      exact ⟨⟨fun n => (hnil n).2.2, fun n => (hnil n).1⟩, fun n => (hnil n).2.1⟩

def rewiring : Program .plain .block :=
  .call (.depend "a" "b") fun _ =>
    .call (.contain "c" "a") fun _ =>
      .addHandle "b" (.call (.depend "c" "b") fun _ => .done (.ok ())) (.destroy "a" (.done ()))

theorem leads_rewiring : ∃ m : Machine .plain,
    (start (.fresh {} (some id) ()) rewiring).Leads m ∧
      m.world.history = [.began (.callback "b" 0)] ∧
      (m.world.registry.perform (.dependents "c")).answer = ["a", "b"] ∧
      (m.world.registry.perform (.dependents "a")).answer = [] := by
  refine ⟨_, .head ⟨trivial, rfl⟩ (.head ⟨trivial, rfl⟩ (.head ⟨trivial, rfl⟩
    (.head ⟨trivial, rfl⟩ (.head ⟨trivial, rfl⟩ (.head ⟨trivial, rfl⟩ (.head ⟨trivial, rfl⟩
      (leads_of_step rfl))))))), ?_, ?_, ?_⟩
  · rfl
  · decide
  · decide

theorem dependencies_of_rewiring : ∃ m : Machine .plain,
    (start (.fresh {} (some id) ()) rewiring).Leads m ∧
      m.world.history = [.began (.callback "b" 0)] ∧
      "c" ∈ (m.world.registry.perform (.dependencies "a")).answer ∧
      "c" ∈ (m.world.registry.perform (.dependencies "b")).answer ∧
      (m.world.registry.perform (.hasDependent "c")).answer = true ∧
      (m.world.registry.perform (.hasDependent "a")).answer = false ∧
      (m.world.registry.perform .graphIsEmpty).answer = false := by
  obtain ⟨m, hleads, hhistory, hc, ha⟩ := leads_rewiring
  obtain ⟨hinverse, _, hhas, hempty⟩ := consistent_of_leads {} (some id) () rewiring hleads
  refine ⟨m, hleads, hhistory, hinverse "c" "a" ?_, hinverse "c" "b" ?_, ?_, ?_, ?_⟩
  · rw [hc]
    decide
  · rw [hc]
    decide
  · rw [hhas, hc]
    exact List.cons_ne_nil _ _
  · rw [← Bool.not_eq_true, hhas, ha]
    exact not_not_intro rfl
  · rw [← Bool.not_eq_true, hempty]
    intro hnil
    have hnone := (hnil "c").1
    rw [hc] at hnone
    cases hnone

end Machine

end InstanceRegistry
