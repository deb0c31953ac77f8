import InstanceRegistry.Proofs.Graph.Query
import InstanceRegistry.Proofs.Teardown.Destroy

/-!
This module contains what the destruction of a name does to a name that depends on it. The question
for a dependency resolves every name on the way, the destruction takes the names as they are. So it
leaves some names alive that depend on the destroyed one (`Machine.dependent_destroyed_iff`).
-/

namespace InstanceRegistry

variable {C : Client} {role : Role}

namespace Graph

variable {g : Graph} {resolve : Name → Name} {n m k : Name}

def Between (g : Graph) (resolve : Name → Name) (n m k : Name) : Prop :=
  Relation.ReflTransGen (g.dependents.Follows resolve) n k ∧ g.dependents.PathVia resolve k m

theorem Between.head {l : Name} (h : g.Between resolve l m k)
    (hstep : g.dependents.Follows resolve n l) : g.Between resolve n m k :=
  ⟨h.1.head hstep, h.2⟩

theorem closure_of_pathVia (h : g.dependents.PathVia resolve n m)
    (hplain : ∀ k, g.Between resolve n m k → resolve k = k) : g.Closure n m := by
  induction h using Relation.TransGen.head_induction_on with
  | @single n hstep =>
    have hn : resolve n = n := hplain n ⟨.refl, .single hstep⟩
    rw [Edges.Follows, hn] at hstep
    exact .single (.inl hstep)
  | @head n l hstep hpath ih =>
    have hn : resolve n = n := hplain n ⟨.refl, hpath.head hstep⟩
    have hclosure : g.Closure l m := by
      apply ih
      intro k hk
      exact hplain k (hk.head hstep)
    rw [Edges.Follows, hn] at hstep
    exact hclosure.head (.inl hstep)

end Graph

namespace Covers

variable {r : C.Store} {ns : List Name} {done : List (Task C)} {resolve : Name → Name} {n m : Name}

theorem exists_dependents_afterAll (h : Covers r ns done [])
    (hpath : r.graph.dependents.PathVia resolve n m) (hm : ¬ .visit m ∈ done) :
    ∃ k, m ∈ (r.afterAll done).graph.dependents.of k := by
  obtain ⟨l, _, hstep⟩ := Relation.TransGen.tail'_iff.mp hpath
  exists resolve l
  rw [h.dependents_afterAll, h.scrub_iff]
  refine ⟨?_, hstep, hm⟩
  intro hl
  have hdependent := h.visit_dependents _ hl m hstep
  rw [List.append_nil] at hdependent
  exact hm hdependent

end Covers

namespace Machine

variable {w : World C}

/--
A name that depends on another one, directly or through others, is destroyed together with it if and
only if it can be reached without resolving the names on the way. If it is destroyed, its callback
has run; otherwise it keeps all that there is of it. It can be reached in this way if no name on the
way stands for another one.
-/
theorem dependent_destroyed_iff (w : World C) (n m : Name) (next : Program C role)
    (s : Stack C role) (hquiet : w.registry.handles.Quiet)
    (h : (w.registry.perform (.isDependent n m)).answer = true) :
    ∃ (w' : World C) (calls : List Body),
      (w.run (.destroy n next) s).Leads (w'.run next s) ∧
      w'.moments = w.moments ++ calls.flatMap Body.moments ∧
      (w'.registry.Lacks m ↔ w.registry.graph.Closure n m) ∧
      (∀ handle, w.registry.handles.find? m = some handle →
        (.callback m handle.ticket ∈ calls ↔ w.registry.graph.Closure n m)) ∧
      (¬ w.registry.graph.Closure n m →
        w.registry.Keeps w'.registry (w.registry.graph.Closure n) m) ∧
      ((∀ k, w.registry.graph.Between w.registry.resolve n m k → w.registry.resolve k = k) →
        w.registry.graph.Closure n m) := by
  obtain ⟨w', done, hleads, hregistry, hmoments, hcovers, hvisit⟩ :=
    leads_of_destroy n next s hquiet
  have hpath : w.registry.graph.dependents.PathVia w.registry.resolve n m :=
    Graph.isDependent_iff.mp h
  refine ⟨w', Task.calls done, hleads, hmoments, ⟨?_, ?_⟩, ?_, ?_, Graph.closure_of_pathVia hpath⟩
  · intro hlacks
    rw [← hvisit]
    apply Classical.byContradiction
    intro hm
    obtain ⟨k, hk⟩ := hcovers.exists_dependents_afterAll hpath hm
    rw [← hregistry] at hk
    exact hlacks.not_dependent k hk
  · intro hm
    rw [hregistry]
    exact hcovers.lacks_afterAll ((hvisit m).mpr hm)
  · intro handle hhandle
    rw [hcovers.callback_mem_iff hhandle, hvisit]
  · intro hm
    have hnames : (fun m => .visit m ∈ done) = w.registry.graph.Closure n := by
      funext m
      rw [hvisit]
    rw [hregistry, ← hnames]
    exact hcovers.keeps_afterAll (mt (hvisit m).mp hm)

theorem leads_of_addAlias (w : World C) {name nick : Name} (hne : nick ≠ name)
    (hnick : w.registry.aliases.targets.find? nick = none)
    (hname : w.registry.aliases.targets.find? name = none)
    (next : Except AliasError Unit → Program C role) (s : Stack C role) :
    (w.run (.call (.addAlias name nick) next) s).Leads
      ({ w with
        registry := {
          w.registry with
          aliases := {
            w.registry.aliases with
            targets := w.registry.aliases.targets.insert nick name } } }.run
        (next (.ok ())) s) := by
  have hregister : w.registry.aliases.register name nick =
      .ok { w.registry.aliases with targets := w.registry.aliases.targets.insert nick name } := by
    have hchain : ¬ w.registry.aliases.hasAlias nick name = true := by
      unfold AliasTable.hasAlias
      rw [AliasTable.chain_of_find?_eq_none hname]
      simp
    simp only [AliasTable.register, if_neg hne, if_neg hchain, hnick]
  apply leads_of_step
  simp only [step, World.run, World.exec, World.perform, Registry.perform, Registry.addAlias,
    hregister]
  rfl

def nicknamed : Program .plain .block :=
  .call (.addAlias "b" "n") fun _ =>
    .call (.depend "a" "n") fun _ =>
      .call (.depend "n" "d") fun _ =>
        .call (.register "d" ⟨0, .int 1⟩) fun _ =>
          .addHandle "d" (.done (.ok ())) <|
            .destroy "a" (.done ())

structure Nicknamed (w : World .plain) : Prop where
  resolve_a : w.registry.resolve "a" = "a"
  resolve_n : w.registry.resolve "n" = "b"
  dependents : w.registry.graph.dependents = ((∅ : Edges).link "a" "n").link "b" "d"
  contained : w.registry.graph.contained = ∅
  ready : w.registry.cache.ready = Table.empty.insert "d" ⟨0, .int 1⟩
  handles : w.registry.handles = Table.empty.insert "d" ⟨0, .done (.ok ())⟩

theorem leads_nicknamed : ∃ w : World .plain,
    (start (.fresh {} none ()) nicknamed).Leads (w.run (.destroy "a" (.done ())) .bottom) ∧
      Nicknamed w := by
  have hgraph : ∃ w : World .plain,
      (start (.fresh {} none ()) nicknamed).Leads (w.run (.destroy "a" (.done ())) .bottom) ∧
        w.registry.resolver = none ∧
        w.registry.aliases.targets = (∅ : Table Name).insert "n" "b" ∧
        w.registry.graph =
          (Graph.empty.depend w.registry.resolve "a" "n").depend w.registry.resolve "n" "d" ∧
        w.registry.cache.ready = Table.empty.insert "d" ⟨0, .int 1⟩ ∧
        w.registry.handles = Table.empty.insert "d" ⟨0, .done (.ok ())⟩ :=
    ⟨_, (leads_of_addAlias _ (by decide) rfl rfl _ _).trans (.head ⟨trivial, rfl⟩
      (.head ⟨trivial, rfl⟩ (.head ⟨trivial, rfl⟩ (leads_of_step rfl)))), rfl, rfl, rfl, rfl, rfl⟩
  obtain ⟨w, hleads, hresolver, htargets, hgraph, hready, hhandles⟩ := hgraph
  have ha : w.registry.resolve "a" = "a" := by
    apply Registry.resolve_of_find?_eq_none hresolver
    rw [htargets]
    rfl
  have hn : w.registry.resolve "n" = "b" := by
    apply Registry.resolve_of_find?_eq_some hresolver
    · rw [htargets]
      rfl
    · rw [htargets]
      rfl
  refine ⟨w, hleads, ha, hn, ?_, ?_, hready, hhandles⟩
  · rw [hgraph]
    simp only [Graph.depend, ha, hn]
    rfl
  · rw [hgraph]
    simp only [Graph.depend, ha, hn]
    rfl

namespace Nicknamed

variable {w : World .plain}

theorem quiet (h : Nicknamed w) : w.registry.handles.Quiet := by
  rw [h.handles]
  apply Table.quiet_insert
  · exact Table.quiet_empty
  · simp

theorem follows_n (h : Nicknamed w) :
    w.registry.graph.dependents.Follows w.registry.resolve "a" "n" := by
  rw [Edges.Follows, h.resolve_a, h.dependents]
  simp

theorem follows_d (h : Nicknamed w) :
    w.registry.graph.dependents.Follows w.registry.resolve "n" "d" := by
  rw [Edges.Follows, h.resolve_n, h.dependents]
  simp

theorem isDependent_n (h : Nicknamed w) :
    (w.registry.perform (.isDependent "a" "n")).answer = true :=
  Graph.isDependent_iff.mpr (.single h.follows_n)

theorem isDependent_d (h : Nicknamed w) :
    (w.registry.perform (.isDependent "a" "d")).answer = true :=
  Graph.isDependent_iff.mpr (.head h.follows_n (.single h.follows_d))

theorem drags_iff (h : Nicknamed w) {n m : Name} :
    w.registry.graph.Drags n m ↔ n = "a" ∧ m = "n" ∨ n = "b" ∧ m = "d" := by
  rw [Graph.Drags, h.dependents, h.contained]
  simp

theorem not_closure (h : Nicknamed w) : ¬ w.registry.graph.Closure "a" "d" := by
  intro hd
  obtain ⟨n, hn, hstep⟩ := (Relation.ReflTransGen.cases_tail hd).resolve_left (by decide)
  -- the last name is a dependent of what the alias stands for, which depends on nothing
  have hb : n = "b" := by simpa [h.drags_iff] using hstep
  rw [hb] at hn
  obtain ⟨m, _, hstep⟩ := (Relation.ReflTransGen.cases_tail hn).resolve_left (by decide)
  simp [h.drags_iff] at hstep

end Nicknamed

theorem undestroyed_of_nicknamed : ∃ w : World .plain,
    (start (.fresh {} none ()) nicknamed).Leads (w.run (.destroy "a" (.done ())) .bottom) ∧
      (∃ w' : World .plain, (w.run (.destroy "a" (.done ())) .bottom).Leads
          (w'.run (.done ()) .bottom) ∧ w'.registry.Lacks "n") ∧
      ∃ (w' : World .plain) (calls : List Body),
        (w.run (.destroy "a" (.done ())) .bottom).Leads (w'.run (.done ()) .bottom) ∧
          ¬ .callback "d" 0 ∈ calls ∧ w'.registry.cache.ready.contains "d" = true := by
  obtain ⟨w, hleads, hw⟩ := leads_nicknamed
  obtain ⟨wn, _, hn, _, hlacks, _⟩ :=
    dependent_destroyed_iff w "a" "n" (.done ()) .bottom hw.quiet hw.isDependent_n
  obtain ⟨wd, calls, hd, _, _, hcallback, hkeeps, _⟩ :=
    dependent_destroyed_iff w "a" "d" (.done ()) .bottom hw.quiet hw.isDependent_d
  refine ⟨w, hleads, ⟨wn, hn, ?_⟩, ⟨wd, calls, hd, ?_, ?_⟩⟩
  · rw [hlacks]
    exact .single (hw.drags_iff.mpr (.inl ⟨rfl, rfl⟩))
  · have hfind : w.registry.handles.find? "d" = some ⟨0, .done (.ok ())⟩ := by
      rw [hw.handles]
      rfl
    exact mt (hcallback _ hfind).mp hw.not_closure
  · unfold Table.contains
    rw [(hkeeps hw.not_closure).ready, hw.ready]
    rfl

theorem not_destroyed_of_isDependent : ¬ ∀ (p : Program .plain .block) (w w' : World .plain)
    (next : Program .plain .block) (n m : Name),
    (start (.fresh {} none ()) p).Leads (w.run (.destroy n next) .bottom) →
    w.registry.handles.Quiet →
    (w.registry.perform (.isDependent n m)).answer = true →
    (w.run (.destroy n next) .bottom).Leads (w'.run next .bottom) →
    w'.registry.cache.ready.find? m = none ∧ w'.registry.handles.find? m = none := by
  intro h
  obtain ⟨w, hleads, hw⟩ := leads_nicknamed
  obtain ⟨w', done, hdone, hregistry, _, hcovers, hvisit⟩ :=
    leads_of_destroy "a" (.done ()) .bottom hw.quiet
  have hgone := (h nicknamed w w' (.done ()) "a" "d" hleads hw.quiet hw.isDependent_d hdone).1
  have hkeeps := hcovers.keeps_afterAll (mt (hvisit "d").mp hw.not_closure)
  rw [hregistry, hkeeps.ready, hw.ready] at hgone
  cases hgone

end Machine

end InstanceRegistry
