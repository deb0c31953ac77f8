import InstanceRegistry.Proofs.Graph.Consistency
import InstanceRegistry.Proofs.Teardown.Shutdown

/-!
This module contains what becomes of the dependencies that a teardown leaves behind when it takes
the dependents of a name out of the graph: each of them is dropped by a task that is still to be
done. When no teardown has anything left to do, the dependents and the dependencies of the names are
inverse to each other (`Machine.mem_dependencies_iff_of_leadsBy`).
-/

namespace InstanceRegistry

variable {C : Client}

def Graph.Stale (g : Graph) (n d : Name) : Prop :=
  n ∈ g.dependencies.of d ∧ ¬ d ∈ g.dependents.of n

def Task.Drops : Task C → Name → Prop
  | .visit m, d => m = d
  | .release m, d => m = d
  | .scrub m, d => m = d
  | _, _ => False

section Step

variable {r : C.Store} {change : Change C} {calls calls' : List Body}
  {ls ls' : List (List (Task C))} {t : Task C} {resolve : Name → Name} {g : Graph} {n d : Name}

theorem Graph.Stale.of_depend {on dependent : Name}
    (h : (g.depend resolve on dependent).Stale n d) : g.Stale n d := by
  unfold depend at h
  dsimp only at h
  split at h
  · exact h
  · obtain ⟨hdependency, hdependent⟩ := h
    simp only [Edges.mem_of_link, not_or] at hdependency hdependent
    refine ⟨hdependency.resolve_right ?_, hdependent.1⟩
    intro hnew
    exact hdependent.2 hnew.symm

theorem Graph.Stale.of_contain {inner outer : Name}
    (h : (g.contain resolve inner outer).Stale n d) : g.Stale n d := by
  unfold contain at h
  split at h
  · exact h
  · exact h.of_depend

theorem Graph.Stale.of_not_tears (h : (change.graph resolve g).Stale n d) (htears : ¬ change.Tears)
    (hremove : ∀ m, change ≠ .perform (.removeEdges m)) : g.Stale n d := by
  cases change with
  | perform o =>
    cases o with
    | contain inner outer => exact h.of_contain
    | depend on dependent => exact h.of_depend
    | removeEdges m => exact absurd rfl (hremove m)
    | _ => exact h
  | visit m => exact absurd trivial htears
  | release m => exact absurd trivial htears
  | scrub m => exact absurd trivial htears
  | wipe => exact absurd trivial htears
  | _ => exact h

theorem Graph.Stale.of_task (h : (t.change.graph resolve r.graph).Stale n d) :
    t ≠ .scrub d ∧ (r.graph.Stale n d ∨ .visit d ∈ r.next t) := by
  obtain ⟨hdependency, hdependent⟩ := h
  cases t with
  | visit m =>
    refine ⟨nofun, ?_⟩
    unfold Task.change Change.graph takeDependents at hdependency hdependent
    rw [Edges.mem_of_erase, not_and_not_right] at hdependent
    by_cases hd : d ∈ r.graph.dependents.of n
    · rw [Registry.visit_mem_next]
      exact Or.inr ⟨m, Or.inl ⟨rfl, hdependent hd ▸ hd⟩⟩
    · exact Or.inl ⟨hdependency, hd⟩
  | settle m handle => exact ⟨nofun, Or.inl ⟨hdependency, hdependent⟩⟩
  | release m => exact ⟨nofun, Or.inl ⟨hdependency, hdependent⟩⟩
  | scrub m =>
    unfold Task.change Change.graph removeReferences at hdependency hdependent
    rw [Edges.mem_of_erase] at hdependency
    rw [Edges.mem_of_scrub, not_and] at hdependent
    refine ⟨?_, Or.inl ⟨hdependency.1, fun hd => hdependent hd hdependency.2⟩⟩
    intro hm
    cases hm
    exact hdependency.2 rfl
  | wipe => cases hdependency

theorem Task.Drops.next (h : t.Drops d) (ht : t ≠ .scrub d) : ∃ u ∈ r.next t, u.Drops d := by
  cases t with
  | visit m =>
    cases h
    exact ⟨.release d, Registry.release_mem_next.mpr rfl, rfl⟩
  | release m =>
    cases h
    exact ⟨.scrub d, Registry.scrub_mem_next.mpr rfl, rfl⟩
  | scrub m =>
    cases h
    exact absurd rfl ht
  | settle m handle => cases h
  | wipe => cases h

theorem Move.drops (h : Move r change [] calls ls calls' ls')
    (hremove : ∀ m, change ≠ .perform (.removeEdges m))
    (hls : ∀ n d, r.graph.Stale n d → ∃ t ∈ ls.flatten, t.Drops d)
    (hstale : (change.graph resolve r.graph).Stale n d) : ∃ t ∈ ls'.flatten, t.Drops d := by
  have hdeeper : ∀ ts, r.graph.Stale n d → ∃ t ∈ (ts :: ls).flatten, t.Drops d := by
    intro ts hold
    obtain ⟨t, ht, hdrops⟩ := hls n d hold
    exact ⟨t, List.mem_append_right ts ht, hdrops⟩
  cases h with
  | stay htears => exact hls n d (hstale.of_not_tears htears hremove)
  | enter htears => exact hdeeper _ (hstale.of_not_tears htears hremove)
  | leave htears => exact hls n d (hstale.of_not_tears htears hremove)
  | destroy m => exact hdeeper _ hstale
  | announce => exact hdeeper _ hstale
  | @work _ ts ls t =>
    obtain ⟨hscrub, hstale⟩ := hstale.of_task
    have hnew : ∀ u, u ∈ ((r.next t ++ ts) :: ls).flatten ↔
        u ∈ r.next t ∨ u ∈ ts ++ ls.flatten := by simp
    cases hstale with
    | inr hvisit => exact ⟨.visit d, (hnew _).mpr (Or.inl hvisit), rfl⟩
    | inl hold =>
      obtain ⟨u, hu, hdrops⟩ := hls n d hold
      rw [List.flatten_cons, List.cons_append, List.mem_cons] at hu
      cases hu with
      | inl hut =>
        rw [hut] at hdrops
        obtain ⟨v, hv, hdrops⟩ := hdrops.next hscrub
        exact ⟨v, (hnew v).mpr (Or.inl hv), hdrops⟩
      | inr hu => exact ⟨u, (hnew u).mpr (Or.inr hu), hdrops⟩

end Step

namespace Machine

structure Thorough (m : Machine C) : Prop where
  not_panics : ¬ m.CallbackPanics
  not_removeEdges : ∀ n, m.change ≠ .perform (.removeEdges n)

def AtRest (m : Machine C) : Prop :=
  m.layers.flatten = []

variable {m : Machine C}

theorem drops_of_leadsBy (config : Config) (resolver : Option (Name → Name)) (state : C.State)
    (p : Program C .block) (h : (start (.fresh config resolver state) p).LeadsBy Thorough m) :
    ∀ n d, m.world.registry.graph.Stale n d → ∃ t ∈ m.layers.flatten, t.Drops d := by
  induction h with
  | refl =>
    intro n d hstale
    cases hstale.1
  | @tail k k' _ hstep ih =>
    intro n d hstale
    rw [(shift_of_step hstep.2).graph_eq] at hstale
    have hmove := move_of_step hstep.2
    rw [lost_eq_nil hstep.1.not_panics] at hmove
    exact hmove.drops hstep.1.not_removeEdges ih hstale

/--
As long as no callback panics and edges are removed by teardowns alone, each name that is kept as a
dependency of another one without having it as a dependent is dropped by a task that is still to be
done. So the dependents and the dependencies of the names are inverse to each other when no teardown
has anything left to do.
-/
theorem mem_dependencies_iff_of_leadsBy (config : Config) (resolver : Option (Name → Name))
    (state : C.State) (p : Program C .block)
    (h : (start (.fresh config resolver state) p).LeadsBy Thorough m) :
    (∀ b d, b ∈ (m.world.registry.perform (.dependencies d)).answer →
      ¬ d ∈ (m.world.registry.perform (.dependents b)).answer →
      ∃ t ∈ m.layers.flatten, t.Drops d) ∧
    (m.AtRest → ∀ b d, b ∈ (m.world.registry.perform (.dependencies d)).answer ↔
      d ∈ (m.world.registry.perform (.dependents b)).answer) := by
  have howed := drops_of_leadsBy config resolver state p h
  have hgraph := consistent_graph_of_leads config resolver state p (leads_of_leadsBy h)
  constructor
  · intro b d hdependency hdependent
    exact howed b d ⟨hdependency, hdependent⟩
  · intro hrest b d
    constructor
    · intro hdependency
      apply Classical.byContradiction
      intro hdependent
      obtain ⟨t, ht, _⟩ := howed b d ⟨hdependency, hdependent⟩
      rw [hrest] at ht
      cases ht
    · exact hgraph.mem_dependencies b d

def relinking : Program .plain .block :=
  .call (.depend "a" "b") fun _ =>
    .call (.depend "c" "b") fun _ =>
      .addHandle "b" (.call (.depend "a" "d") fun _ => .done (.ok ())) (.destroy "a" (.done ()))

theorem leadsBy_relinking : ∃ k m : Machine .plain,
    (start (.fresh {} (some id) ()) relinking).LeadsBy Thorough k ∧ k.LeadsBy Thorough m ∧
      (k.world.registry.perform (.dependencies "b")).answer = ["a", "c"] ∧
      (k.world.registry.perform (.dependents "a")).answer = [] ∧ m.AtRest ∧
      (m.world.registry.perform (.dependents "a")).answer = ["d"] ∧
      (m.world.registry.perform (.dependents "c")).answer = [] := by
  refine ⟨_, _, .head ⟨⟨id, nofun⟩, rfl⟩ (.head ⟨⟨id, nofun⟩, rfl⟩ (.head ⟨⟨id, nofun⟩, rfl⟩
    (.head ⟨⟨id, nofun⟩, rfl⟩ (.head ⟨⟨id, nofun⟩, rfl⟩ .refl)))),
    .head ⟨⟨id, nofun⟩, rfl⟩ (.head ⟨⟨id, nofun⟩, rfl⟩ (.head ⟨⟨id, nofun⟩, rfl⟩
    (.head ⟨⟨id, nofun⟩, rfl⟩ (.head ⟨⟨id, nofun⟩, rfl⟩ (.head ⟨⟨id, nofun⟩, rfl⟩
    (.head ⟨⟨id, nofun⟩, rfl⟩ (.head ⟨⟨id, nofun⟩, rfl⟩ .refl))))))), ?_, ?_, rfl, ?_, ?_⟩
  all_goals decide

theorem dependencies_of_relinking : ∃ k m : Machine .plain,
    (start (.fresh {} (some id) ()) relinking).LeadsBy Thorough k ∧ k.LeadsBy Thorough m ∧
      (∃ t ∈ k.layers.flatten, t.Drops "b") ∧ m.AtRest ∧
      "a" ∈ (m.world.registry.perform (.dependencies "d")).answer ∧
      ¬ "a" ∈ (m.world.registry.perform (.dependencies "b")).answer ∧
      ¬ "c" ∈ (m.world.registry.perform (.dependencies "b")).answer := by
  obtain ⟨k, m, hk, hm, hleft, hgone, hrest, ha, hc⟩ := leadsBy_relinking
  obtain ⟨howed, _⟩ := mem_dependencies_iff_of_leadsBy {} (some id) () relinking hk
  obtain ⟨_, hinverse⟩ := mem_dependencies_iff_of_leadsBy {} (some id) () relinking (hk.trans hm)
  refine ⟨k, m, hk, hm, howed "a" "b" ?_ ?_, hrest, ?_, ?_, ?_⟩
  · rw [hleft]
    decide
  · rw [hgone]
    decide
  · rw [hinverse hrest, ha]
    decide
  · rw [hinverse hrest, ha]
    decide
  · rw [hinverse hrest, hc]
    decide

end Machine

end InstanceRegistry
