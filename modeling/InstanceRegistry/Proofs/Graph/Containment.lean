import InstanceRegistry.Proofs.Graph.Consistency
import InstanceRegistry.Proofs.Graph.Query

/-!
This module contains what is left of a containment when it is registered. A new containment makes
the outer name a dependent of the inner one. One that is known is left as it is, so that the
dependency is missing if it has been taken away since (`Machine.joined_of_contain_iff`).
-/

namespace InstanceRegistry

variable {C : Client}

namespace Graph

def Loose (g : Graph) (resolve : Name → Name) (inner outer : Name) : Prop :=
  inner ∈ g.contained.of outer ∧ ¬ outer ∈ g.dependents.of (resolve inner)

variable {g : Graph} {resolve : Name → Name} {inner outer n d : Name}

theorem contained_depend (g : Graph) (resolve : Name → Name) (on dependent : Name) :
    (g.depend resolve on dependent).contained = g.contained := by
  unfold depend
  dsimp only
  split
  · rfl
  · rfl

theorem mem_dependents_depend {on dependent : Name} :
    d ∈ (g.depend resolve on dependent).dependents.of n ↔
      d ∈ g.dependents.of n ∨ n = resolve on ∧ d = dependent := by
  unfold depend
  dsimp only
  split
  · next hmem =>
    constructor
    · exact Or.inl
    · rintro (hd | ⟨rfl, rfl⟩)
      · exact hd
      · exact hmem
  · exact Edges.mem_of_link

theorem contain_of_mem (h : inner ∈ g.contained.of outer) :
    g.contain resolve inner outer = g := by
  unfold contain
  rw [if_pos h]

theorem contain_of_not_mem (h : ¬ inner ∈ g.contained.of outer) :
    g.contain resolve inner outer =
      { g with contained := g.contained.link outer inner }.depend resolve inner outer := by
  unfold contain
  rw [if_neg h]

theorem mem_contained_contain (g : Graph) (resolve : Name → Name) (inner outer : Name) :
    inner ∈ (g.contain resolve inner outer).contained.of outer := by
  by_cases h : inner ∈ g.contained.of outer
  · rwa [contain_of_mem h]
  · rw [contain_of_not_mem h, contained_depend, Edges.mem_of_link]
    exact Or.inr ⟨rfl, rfl⟩

theorem mem_dependents_contain_iff :
    outer ∈ (g.contain resolve inner outer).dependents.of (resolve inner) ↔
      ¬ g.Loose resolve inner outer := by
  by_cases h : inner ∈ g.contained.of outer
  · rw [contain_of_mem h]
    simp [Loose, h]
  · rw [contain_of_not_mem h, mem_dependents_depend]
    simp [Loose, h]

theorem loose_depend_iff {on dependent : Name} :
    (g.depend resolve on dependent).Loose resolve inner outer ↔
      g.Loose resolve inner outer ∧ ¬ (dependent = outer ∧ resolve on = resolve inner) := by
  unfold Loose
  rw [contained_depend, mem_dependents_depend, not_or, and_assoc, eq_comm (a := outer),
    eq_comm (a := resolve inner), and_comm (a := resolve on = resolve inner)]

theorem loose_contain_iff {i o : Name} :
    (g.contain resolve i o).Loose resolve inner outer ↔ g.Loose resolve inner outer ∧
      ¬ (o = outer ∧ ¬ i ∈ g.contained.of outer ∧ resolve i = resolve inner) := by
  by_cases h : i ∈ g.contained.of o
  · rw [contain_of_mem h]
    constructor
    · intro hloose
      refine ⟨hloose, ?_⟩
      rintro ⟨rfl, hi, _⟩
      exact hi h
    · exact And.left
  · rw [contain_of_not_mem h, loose_depend_iff]
    unfold Loose
    rw [Edges.mem_of_link]
    constructor
    · rintro ⟨⟨hmem | ⟨rfl, rfl⟩, hd⟩, hnew⟩
      · exact ⟨⟨hmem, hd⟩, fun hi => hnew ⟨hi.1, hi.2.2⟩⟩
      · exact absurd ⟨rfl, rfl⟩ hnew
    · rintro ⟨⟨hmem, hd⟩, hnew⟩
      refine ⟨⟨Or.inl hmem, hd⟩, ?_⟩
      rintro ⟨rfl, hi⟩
      exact hnew ⟨rfl, h, hi⟩

theorem loose_takeDependents_iff : (g.takeDependents n).2.Loose resolve inner outer ↔
    inner ∈ g.contained.of outer ∧ n = resolve inner ∨ g.Loose resolve inner outer := by
  unfold Loose takeDependents
  rw [Edges.mem_of_erase, ← and_or_left, Decidable.not_and_iff_not_or_not, Decidable.not_not,
    eq_comm (a := n), or_comm]

theorem loose_removeReferences_iff : (g.removeReferences n).Loose resolve inner outer ↔
    inner ∈ g.contained.of outer ∧ n = outer ∨ g.Loose resolve inner outer := by
  unfold Loose removeReferences
  rw [Edges.mem_of_scrub, ← and_or_left, Decidable.not_and_iff_not_or_not, Decidable.not_not,
    eq_comm (a := n), or_comm]

theorem loose_removeAll_iff : (g.removeAll n).Loose resolve inner outer ↔
    inner ∈ g.contained.of outer ∧ (n = resolve inner ∨ n = outer) ∨
      g.Loose resolve inner outer := by
  have htake : (g.removeAll n) = (g.takeDependents n).2.removeReferences n := rfl
  rw [htake, loose_removeReferences_iff, loose_takeDependents_iff, and_or_left, or_assoc,
    or_left_comm]
  rfl

theorem loose_takeContained_iff : (g.takeContained n).2.Loose resolve inner outer ↔
    g.Loose resolve inner outer ∧ ¬ n = outer := by
  unfold Loose takeContained
  rw [Edges.mem_of_erase, and_right_comm, eq_comm (a := n)]

theorem loose_iff_of_resolve (resolve' : Name → Name) : g.Loose resolve' inner outer ↔
    inner ∈ g.contained.of outer ∧ ¬ outer ∈ g.dependents.of (resolve' inner) ∨
      g.Loose resolve inner outer ∧ ¬ outer ∈ g.dependents.of (resolve' inner) := by
  have hleft : g.Loose resolve inner outer → inner ∈ g.contained.of outer := And.left
  rw [← or_and_right, or_iff_left_of_imp hleft]
  rfl

theorem not_loose_empty : ¬ Graph.empty.Loose resolve inner outer := by
  intro hloose
  exact NameSet.not_mem_empty _ hloose.1

end Graph

def Change.Severs (r : C.Store) (inner outer : Name) : Change C → Prop
  | perform (.removeEdges n) => n = r.resolve inner ∨ n = outer
  | perform (.addAlias name nick) =>
    ¬ outer ∈ r.graph.dependents.of ((r.addAlias name nick).registry.resolve inner)
  | perform (.removeAlias nick) =>
    ¬ outer ∈ r.graph.dependents.of ((r.removeAlias nick).registry.resolve inner)
  | visit n => n = r.resolve inner
  | scrub n => n = outer
  | _ => False

def Change.Mends (r : C.Store) (inner outer : Name) : Change C → Prop
  | perform (.contain i o) =>
    o = outer ∧ ¬ i ∈ r.graph.contained.of outer ∧ r.resolve i = r.resolve inner
  | perform (.depend on dependent) => dependent = outer ∧ r.resolve on = r.resolve inner
  | perform (.addAlias name nick) =>
    outer ∈ r.graph.dependents.of ((r.addAlias name nick).registry.resolve inner)
  | perform (.removeAlias nick) =>
    outer ∈ r.graph.dependents.of ((r.removeAlias nick).registry.resolve inner)
  | release n => n = outer
  | wipe => True
  | _ => False

def Change.resolve (r : C.Store) : Change C → Name → Name
  | perform (.addAlias name nick) => (r.addAlias name nick).registry.resolve
  | perform (.removeAlias nick) => (r.removeAlias nick).registry.resolve
  | _ => r.resolve

section Shift

variable {change : Change C} {r r' : C.Store} {cs cs' : List Creation} {inner outer : Name}

theorem Shift.resolve_eq (h : Shift change r cs r' cs') : r'.resolve = change.resolve r := by
  cases h with
  | perform o =>
    cases o with
    | register n i =>
      simp only [Registry.perform, Registry.register_registry]
      rfl
    | _ => rfl
  | start hstart =>
    obtain ⟨_, _, _, _, _, hr⟩ := Registry.startCreation_eq_started hstart
    rw [hr]
    rfl
  | conclude c result =>
    rw [Registry.conclude_eq]
    rfl
  | rollback c =>
    rw [Registry.rollback_eq]
    rfl
  | _ => rfl

theorem Shift.loose_iff (h : Shift change r cs r' cs') :
    r'.graph.Loose r'.resolve inner outer ↔
      inner ∈ r.graph.contained.of outer ∧ change.Severs r inner outer ∨
        r.graph.Loose r.resolve inner outer ∧ ¬ change.Mends r inner outer := by
  rw [h.graph_eq, h.resolve_eq]
  cases change with
  | perform o =>
    cases o with
    | contain i o =>
      simp [Change.graph, Change.resolve, Change.Severs, Change.Mends, Graph.loose_contain_iff]
    | depend on dependent =>
      simp [Change.graph, Change.resolve, Change.Severs, Change.Mends, Graph.loose_depend_iff]
    | removeEdges n =>
      simp [Change.graph, Change.resolve, Change.Severs, Change.Mends, Graph.loose_removeAll_iff]
    | addAlias name nick => exact Graph.loose_iff_of_resolve _
    | removeAlias nick => exact Graph.loose_iff_of_resolve _
    | _ => simp [Change.graph, Change.resolve, Change.Severs, Change.Mends]
  | visit n =>
    simp [Change.graph, Change.resolve, Change.Severs, Change.Mends, Graph.loose_takeDependents_iff]
  | release n =>
    simp [Change.graph, Change.resolve, Change.Severs, Change.Mends, Graph.loose_takeContained_iff]
  | scrub n =>
    simp [Change.graph, Change.resolve, Change.Severs, Change.Mends,
      Graph.loose_removeReferences_iff]
  | wipe => simp [Change.graph, Change.Severs, Change.Mends, Graph.not_loose_empty]
  | _ => simp [Change.graph, Change.resolve, Change.Severs, Change.Mends]

end Shift

namespace Machine

def Parts (m : Machine C) (inner outer : Name) : Prop :=
  inner ∈ m.world.registry.graph.contained.of outer ∧ m.change.Severs m.world.registry inner outer

/--
Between two machines, the dependency of an outer name on an inner one that it contains is taken
away, and from then on neither does the dependency come back, nor does the containment end.
-/
def Parted (m m' : Machine C) (inner outer : Name) : Prop :=
  ∃ k k', m.Leads k ∧ k.Parts inner outer ∧ k.step = some k' ∧
    k'.LeadsBy (fun j => ¬ j.change.Mends j.world.registry inner outer) m'

structure Joined (m : Machine C) (inner outer : Name) : Prop where
  contained : inner ∈ (m.world.registry.perform (.contained outer)).answer
  dependents :
    outer ∈ (m.world.registry.perform (.dependents (m.world.registry.resolve inner))).answer
  dependencies :
    m.world.registry.resolve inner ∈ (m.world.registry.perform (.dependencies outer)).answer
  isDependent : (m.world.registry.perform (.isDependent inner outer)).answer = true

variable {m m' : Machine C} {inner outer : Name}

theorem loose_iff_parted (config : Config) (resolver : Option (Name → Name)) (state : C.State)
    (p : Program C .block) (h : (start (.fresh config resolver state) p).Leads m) :
    m.world.registry.graph.Loose m.world.registry.resolve inner outer ↔
      (start (.fresh config resolver state) p).Parted m inner outer := by
  apply iff_exists_since
    (P := fun k => k.world.registry.graph.Loose k.world.registry.resolve inner outer) _ h
  · exact Graph.not_loose_empty
  · intro k k' hstep
    exact (shift_of_step hstep).loose_iff

theorem world_of_contain (hchange : m.change = .perform (.contain inner outer))
    (hstep : m.step = some m')
    (hknown : inner ∈ (m.world.registry.perform (.contained outer)).answer) :
    m'.world = m.world := by
  obtain ⟨r, next, s, hcontrol⟩ := exists_call_of_perform hchange
  obtain ⟨w, control⟩ := m
  cases hcontrol
  cases hstep
  have hgraph : w.registry.graph.contain w.registry.resolve inner outer = w.registry.graph :=
    Graph.contain_of_mem hknown
  simp only [World.exec, World.perform, Registry.perform, World.run, World.log, hgraph]
  rfl

theorem joined_iff (hgraph : m.world.registry.graph.Consistent) : m.Joined inner outer ↔
    inner ∈ m.world.registry.graph.contained.of outer ∧
      outer ∈ m.world.registry.graph.dependents.of (m.world.registry.resolve inner) := by
  constructor
  · intro hjoined
    exact ⟨hjoined.contained, hjoined.dependents⟩
  · intro hedge
    refine ⟨hedge.1, hedge.2, hgraph.mem_dependencies _ _ hedge.2, ?_⟩
    apply Graph.isDependent_iff.mpr
    exact .single hedge.2

/--
When a containment has been registered, it is listed. The outer name is a dependent of what the
inner one resolves to, in every answer about that, unless the containment was known and its
dependency had been taken away before without coming back. It is there whenever the containment is
new; nothing changes if the containment was known.
-/
theorem joined_of_contain_iff (config : Config) (resolver : Option (Name → Name)) (state : C.State)
    (p : Program C .block) (h : (start (.fresh config resolver state) p).Leads m)
    (hchange : m.change = .perform (.contain inner outer)) (hstep : m.step = some m') :
    inner ∈ (m'.world.registry.perform (.contained outer)).answer ∧
    (m'.Joined inner outer ↔ ¬ (start (.fresh config resolver state) p).Parted m inner outer) ∧
    (¬ inner ∈ (m.world.registry.perform (.contained outer)).answer → m'.Joined inner outer) ∧
    (inner ∈ (m.world.registry.perform (.contained outer)).answer → m'.world = m.world) := by
  have hgraph' := consistent_graph_of_leads config resolver state p (h.tail ⟨trivial, hstep⟩)
  have hshift := shift_of_step hstep
  rw [hchange] at hshift
  have hgraph : m'.world.registry.graph =
      m.world.registry.graph.contain m.world.registry.resolve inner outer := hshift.graph_eq
  have hresolve : m'.world.registry.resolve = m.world.registry.resolve := hshift.resolve_eq
  have hcontained : inner ∈ m'.world.registry.graph.contained.of outer := by
    rw [hgraph]
    apply Graph.mem_contained_contain
  have hjoined : m'.Joined inner outer ↔
      ¬ m.world.registry.graph.Loose m.world.registry.resolve inner outer := by
    rw [joined_iff hgraph', and_iff_right hcontained, hgraph, hresolve,
      Graph.mem_dependents_contain_iff]
  refine ⟨hcontained, ?_, ?_, world_of_contain hchange hstep⟩
  · rw [hjoined, loose_iff_parted config resolver state p h]
  · intro hnew
    rw [hjoined]
    intro hloose
    exact hnew hloose.1

def recontaining : Program .plain .block :=
  .call (.contain "b" "a") fun _ => .call (.removeEdges "b") fun _ =>
    .call (.contain "b" "a") fun _ => .done ()

theorem leads_recontaining : ∃ m m' : Machine .plain,
    (start (.fresh {} (some id) ()) recontaining).Leads m ∧
      m.change = .perform (.contain "b" "a") ∧ m.step = some m' ∧
      "b" ∈ (m.world.registry.perform (.contained "a")).answer ∧
      (m'.world.registry.perform (.dependents (m'.world.registry.resolve "b"))).answer = [] := by
  refine ⟨_, _, .tail (.tail .refl ⟨trivial, rfl⟩) ⟨trivial, rfl⟩, rfl, rfl, ?_, ?_⟩
  · decide
  · decide

theorem not_joined_of_contain : ¬ ∀ (p : Program .plain .block) (m m' : Machine .plain)
    (inner outer : Name), (start (.fresh {} (some id) ()) p).Leads m →
      m.change = .perform (.contain inner outer) → m.step = some m' → m'.Joined inner outer := by
  intro h
  obtain ⟨m, m', hm, hchange, hstep, _, hnone⟩ := leads_recontaining
  have hdependents := (h recontaining m m' "b" "a" hm hchange hstep).dependents
  rw [hnone] at hdependents
  cases hdependents

theorem parted_of_recontaining : ∃ m m' : Machine .plain,
    (start (.fresh {} (some id) ()) recontaining).Leads m ∧
      m.change = .perform (.contain "b" "a") ∧ m.step = some m' ∧
      "b" ∈ (m'.world.registry.perform (.contained "a")).answer ∧ m'.world = m.world ∧
      (start (.fresh {} (some id) ()) recontaining).Parted m "b" "a" := by
  obtain ⟨m, m', hm, hchange, hstep, hknown, hnone⟩ := leads_recontaining
  obtain ⟨hcontained, hjoined, _, hsame⟩ :=
    joined_of_contain_iff {} (some id) () recontaining hm hchange hstep
  refine ⟨m, m', hm, hchange, hstep, hcontained, hsame hknown, ?_⟩
  apply Classical.byContradiction
  intro hparted
  have hdependents := (hjoined.mpr hparted).dependents
  rw [hnone] at hdependents
  cases hdependents

end Machine

end InstanceRegistry
