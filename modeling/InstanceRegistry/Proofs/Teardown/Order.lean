import InstanceRegistry.Proofs.Teardown.Destroy
import InstanceRegistry.Proofs.Teardown.Waiting
import Mathlib.Data.List.Perm.Basic

/-!
This module contains the order in which the teardown of everything runs callbacks. The callback of a
dependent does not always come first: while a name waits for what depends on it, the names that
these contain are torn down as well (`Machine.callback_order`).
-/

namespace InstanceRegistry

variable {C : Client} {r : C.Store} {ns : List Name} {done left : List (Task C)}

namespace Tears

variable {b d : Name} {handle handle' : Entrusted C .callback} {ticket : Nat}

theorem calls_sublist (h : Tears r (ns.map .visit) done left) (hedge : d ∈ r.graph.dependents.of b)
    (hne : d ≠ b) (hawaits : ¬ r.graph.Awaits d b) (hhandle : r.handles.find? d = some handle)
    (hb : .callback b ticket ∈ Task.calls done) :
    [.callback d handle.ticket, .callback b ticket].Sublist (Task.calls done) := by
  induction h with
  | refl => cases hb
  | @step done left t h ih =>
    rw [Task.calls_append] at hb ⊢
    by_cases hdone : .callback b ticket ∈ Task.calls done
    · exact (ih hdone).trans (List.sublist_append_left ..)
    · rw [List.mem_append, Task.mem_calls, Task.mem_calls] at hb
      have hlast := hb.resolve_left (by rwa [← Task.mem_calls])
      obtain ⟨n, handle', ht, hn⟩ := hlast
      rw [Body.callback.injEq] at hn
      rw [List.mem_singleton, ← hn.1] at ht
      rw [← ht] at h ⊢
      have hd : .callback d handle.ticket ∈ Task.calls done := by
        rw [Task.mem_calls]
        exact ⟨d, handle, h.settle_mem_of_visit (h.visit_mem_done hedge) hne hawaits hhandle, rfl⟩
      rw [hn.2]
      exact (List.singleton_sublist.mpr hd).append (List.Sublist.refl _)

theorem exists_sublist (ns : List Name) (hne : d ≠ b) (hawaits : r.graph.Awaits d b)
    (hd : r.handles.find? d = some handle) (hb : r.handles.find? b = some handle') :
    ∃ done, Tears r ((d :: ns).map .visit) done [] ∧
      [.callback b handle'.ticket, .callback d handle.ticket].Sublist (Task.calls done) := by
  have hvisit : Tears r ((d :: ns).map .visit) [.visit d] (r.next (.visit d) ++ ns.map .visit) :=
    step refl
  have hnext : r.next (.visit d) ++ ns.map .visit = (r.graph.dependents.of d).toList.map .visit ++
      .settle d handle :: .release d :: ns.map .visit := by
    simp [Registry.next, hd]
  rw [hnext] at hvisit
  -- what depends on the name is torn down to the end before its handle has its turn
  obtain ⟨inner, hinner⟩ :=
    exists_done (r.visit d) ((r.graph.dependents.of d).toList.map .visit)
  have hsettle := (hvisit.trans (hinner.append _)).step
  obtain ⟨rest, hrest⟩ := hsettle.exists_rest
  refine ⟨_, hrest, ?_⟩
  have hcall : .callback b handle'.ticket ∈ Task.calls ([.visit d] ++ inner) := by
    have hcovers := Covers.of_tears hinner
    rw [Task.calls_append]
    apply List.mem_append_right
    rw [hcovers.mem_calls_iff]
    refine ⟨b, handle', ?_, ?_, rfl⟩
    · rw [hcovers.visit_iff]
      exact hawaits.takeDependents
    · unfold Registry.visit Registry.detach
      rw [Table.find?_erase, if_neg hne.symm]
      exact hb
  rw [Task.calls_append, Task.calls_append]
  apply List.Sublist.trans _ (List.sublist_append_left ..)
  exact (List.singleton_sublist.mpr hcall).append (List.Sublist.refl _)

end Tears

namespace Machine

variable {role : Role} {w : World C}

theorem leads_of_destroyAll
    (h : Tears w.registry.announce (w.registry.handles.keys.reverse.map .visit) done [])
    (next : Program C role) (s : Stack C role)
    (hquiet : w.registry.handles.Quiet) :
    ∃ w' : World C, (w.run (.destroyAll next) s).Leads (w'.run next s) ∧
      w'.moments = w.moments ++ (Task.calls done).flatMap Body.moments := by
  obtain ⟨w', hleads, _, hmoments⟩ :=
    leads_of_visits (w := { w with registry := w.registry.announce }) h [.wipe] next s hquiet
  refine ⟨{ w' with registry := w'.registry.wipe }, ?_, hmoments⟩
  apply Relation.ReflTransGen.head ⟨trivial, rfl⟩
  apply hleads.trans
  exact .head ⟨trivial, rfl⟩ (leads_of_step rfl)

def CallsBefore (w : World C) (next : Program C role) (s : Stack C role) (first last : Body) :
    Prop :=
  ∃ (w' : World C) (calls : List Body), (w.run (.destroyAll next) s).Leads (w'.run next s) ∧
    w'.moments = w.moments ++ calls.flatMap Body.moments ∧ calls.Nodup ∧
    [first, last].Sublist calls

def withHandles (w : World C) (handles : Table (Entrusted C .callback)) : World C :=
  { w with registry := { w.registry with handles } }

theorem callsBefore_of_tears {first last : Body}
    (h : Tears w.registry.announce (w.registry.handles.keys.reverse.map .visit) done [])
    (next : Program C role) (s : Stack C role)
    (hquiet : w.registry.handles.Quiet)
    (hcalls : [first, last].Sublist (Task.calls done)) : CallsBefore w next s first last := by
  obtain ⟨w', hleads, hmoments⟩ := leads_of_destroyAll h next s hquiet
  have hnodup := (Covers.of_tears h).calls_nodup
  rw [List.append_nil] at hnodup
  exact ⟨w', Task.calls done, hleads, hmoments, hnodup, hcalls⟩

variable {b d : Name} {handle handle' : Entrusted C .callback}

theorem callsBefore_of_not_awaits (next : Program C role) (s : Stack C role)
    (hedge : d ∈ w.registry.graph.dependents.of b) (hne : d ≠ b)
    (hawaits : ¬ w.registry.graph.Awaits d b)
    (hd : w.registry.handles.find? d = some handle)
    (hb : w.registry.handles.find? b = some handle')
    (hquiet : w.registry.handles.Quiet) :
    CallsBefore w next s (.callback d handle.ticket) (.callback b handle'.ticket) := by
  obtain ⟨done, hdone⟩ := Tears.exists_done w.registry.announce
    (w.registry.handles.keys.reverse.map .visit)
  apply callsBefore_of_tears hdone next s hquiet
  apply hdone.calls_sublist hedge hne hawaits hd
  have hcovers := Covers.of_tears hdone
  rw [hcovers.mem_calls_iff]
  refine ⟨b, handle', ?_, hb, rfl⟩
  rw [hcovers.visit_iff]
  refine ⟨b, ?_, .refl⟩
  rw [List.mem_reverse, ← Table.contains_iff]
  unfold Table.contains
  rw [hb]
  rfl

theorem callsBefore_of_awaits (next : Program C role) (s : Stack C role) {ns : List Name}
    (hkeys : w.registry.handles.keys = ns ++ [d]) (hne : d ≠ b)
    (hawaits : w.registry.graph.Awaits d b)
    (hd : w.registry.handles.find? d = some handle)
    (hb : w.registry.handles.find? b = some handle')
    (hquiet : w.registry.handles.Quiet) :
    CallsBefore w next s (.callback b handle'.ticket) (.callback d handle.ticket) := by
  obtain ⟨done, hdone, hcalls⟩ :=
    Tears.exists_sublist (r := w.registry.announce) ns.reverse hne hawaits hd hb
  apply callsBefore_of_tears _ next s hquiet hcalls
  rw [hkeys, List.reverse_concat]
  exact hdone

/--
In the teardown of everything the callback of a dependent comes first, in whatever order the handles
are registered, if the dependent does not wait for the name itself. If it does, there is an order in
which its callback comes last.
-/
theorem callback_order (w : World C) (next : Program C role) (s : Stack C role)
    (hedge : d ∈ w.registry.graph.dependents.of b) (hne : d ≠ b)
    (hd : w.registry.handles.find? d = some handle)
    (hb : w.registry.handles.find? b = some handle')
    (hquiet : w.registry.handles.Quiet) :
    (¬ w.registry.graph.Awaits d b →
      ∀ handles, (∀ n, handles.find? n = w.registry.handles.find? n) →
        CallsBefore (withHandles w handles) next s
          (.callback d handle.ticket) (.callback b handle'.ticket)) ∧
    (w.registry.graph.Awaits d b →
      ∃ handles, (∀ n, handles.find? n = w.registry.handles.find? n) ∧
        CallsBefore (withHandles w handles) next s
          (.callback b handle'.ticket) (.callback d handle.ticket)) := by
  constructor
  · intro hawaits handles hhandles
    apply callsBefore_of_not_awaits (w := withHandles w handles) next s hedge hne hawaits
    · rwa [← hhandles] at hd
    · rwa [← hhandles] at hb
    · intro n handle hn
      apply hquiet n handle
      rwa [← hhandles]
  · intro hawaits
    have hhandles : ∀ n, ((w.registry.handles.erase d).insert d handle).find? n =
        w.registry.handles.find? n := by
      intro n
      rw [Table.find?_insert, Table.find?_erase]
      split
      · next hn => rw [hn, hd]
      · rfl
    have hkeys : ((w.registry.handles.erase d).insert d handle).keys =
        (w.registry.handles.erase d).keys ++ [d] := by
      rw [Table.keys_insert, if_neg]
      simp
    refine ⟨(w.registry.handles.erase d).insert d handle, hhandles, ?_⟩
    apply callsBefore_of_awaits (w := withHandles w _) next s hkeys hne hawaits
    · rwa [← hhandles] at hd
    · rwa [← hhandles] at hb
    · intro n handle hn
      apply hquiet n handle
      rwa [← hhandles]

def overtaken : Program .plain .block :=
  .call (.contain "b" "x") fun _ =>
    .call (.depend "d" "x") fun _ =>
      .call (.depend "b" "d") fun _ =>
        .addHandle "x" (.done (.ok ())) <|
          .addHandle "b" (.done (.ok ())) <|
            .addHandle "d" (.done (.ok ())) <|
              .destroyAll (.done ())

structure Overtaken (w : World .plain) : Prop where
  targets : w.registry.aliases.targets = ∅
  dependents : w.registry.graph.dependents = (((∅ : Edges).link "b" "x").link "d" "x").link "b" "d"
  contained : w.registry.graph.contained = (∅ : Edges).link "x" "b"
  handles : w.registry.handles = ((Table.empty.insert "x" ⟨0, .done (.ok ())⟩).insert
    "b" ⟨1, .done (.ok ())⟩).insert "d" ⟨2, .done (.ok ())⟩

theorem leads_overtaken : ∃ w : World .plain,
    (start (.fresh {} none ()) overtaken).Leads (w.run (.destroyAll (.done ())) .bottom) ∧
      Overtaken w := by
  have hgraph : ∃ w : World .plain,
      (start (.fresh {} none ()) overtaken).Leads (w.run (.destroyAll (.done ())) .bottom) ∧
        w.registry.aliases.targets = ∅ ∧
        w.registry.graph =
          ((Graph.empty.contain id "b" "x").depend id "d" "x").depend id "b" "d" ∧
        w.registry.handles = ((Table.empty.insert "x" ⟨0, .done (.ok ())⟩).insert
          "b" ⟨1, .done (.ok ())⟩).insert "d" ⟨2, .done (.ok ())⟩ := by
    refine ⟨_, .head ⟨trivial, rfl⟩ (.head ⟨trivial, rfl⟩ (.head ⟨trivial, rfl⟩
      (.head ⟨trivial, rfl⟩ (.head ⟨trivial, rfl⟩ (leads_of_step rfl))))), rfl, ?_, rfl⟩
    rw [← World.resolve_fresh (C := .plain) {} ()]
    rfl
  obtain ⟨w, hleads, htargets, hgraph, hhandles⟩ := hgraph
  refine ⟨w, hleads, htargets, ?_, ?_, hhandles⟩
  · rw [hgraph]
    rfl
  · rw [hgraph]
    rfl

namespace Overtaken

variable {w : World .plain}

def rank (n : Name) : Nat :=
  if n = "b" then 2 else if n = "d" then 1 else 0

theorem rank_lt (h : Overtaken w) {n m : Name} (hm : m ∈ w.registry.graph.dependents.of n) :
    rank m < rank n := by
  rw [h.dependents] at hm
  simp only [Edges.mem_of_link, Edges.of_empty, NameSet.not_mem_empty, false_or] at hm
  cases hm with
  | inl hm =>
    cases hm with
    | inl hm => simp [hm, rank]
    | inr hm => simp [hm, rank]
  | inr hm => simp [hm, rank]

theorem acyclic (h : Overtaken w) (n : Name) :
    ¬ Relation.TransGen (fun n m => m ∈ w.registry.graph.dependents.of n) n n :=
  Graph.acyclic_of_rank rank (fun _ _ hm => h.rank_lt hm) n

theorem quiet (h : Overtaken w) : w.registry.handles.Quiet := by
  rw [h.handles]
  apply Table.quiet_insert
  · apply Table.quiet_insert
    · apply Table.quiet_insert
      · exact Table.quiet_empty
      · simp
    · simp
  · simp

theorem mem_dependents (h : Overtaken w) : "d" ∈ w.registry.graph.dependents.of "b" := by
  rw [h.dependents]
  simp

theorem awaits (h : Overtaken w) : w.registry.graph.Awaits "d" "b" := by
  refine ⟨"x", ?_, .single (.inr ?_)⟩
  · rw [h.dependents]
    simp
  · rw [h.contained]
    simp

theorem not_awaits (h : Overtaken w) : ¬ w.registry.graph.Awaits "x" "d" := by
  intro hawaits
  obtain ⟨m, hm, _⟩ := hawaits
  simp [h.dependents] at hm

theorem find?_x (h : Overtaken w) :
    w.registry.handles.find? "x" = some ⟨0, .done (.ok ())⟩ := by
  rw [h.handles]
  rfl

theorem find?_b (h : Overtaken w) :
    w.registry.handles.find? "b" = some ⟨1, .done (.ok ())⟩ := by
  rw [h.handles]
  rfl

theorem find?_d (h : Overtaken w) :
    w.registry.handles.find? "d" = some ⟨2, .done (.ok ())⟩ := by
  rw [h.handles]
  rfl

theorem callsBefore (h : Overtaken w) :
    CallsBefore w (.done ()) .bottom (.callback "b" 1) (.callback "d" 2) := by
  have hkeys : w.registry.handles.keys = ["x", "b"] ++ ["d"] := by
    rw [h.handles]
    rfl
  exact callsBefore_of_awaits (.done ()) .bottom hkeys (by decide) h.awaits h.find?_d h.find?_b
    h.quiet

end Overtaken

theorem not_callsBefore_of_acyclic : ¬ ∀ (p : Program .plain .block) (w : World .plain)
    (next : Program .plain .block) (b d : Name) (handle handle' : Entrusted .plain .callback)
    (w' : World .plain) (calls : List Body),
    (start (.fresh {} none ()) p).Leads (w.run (.destroyAll next) .bottom) →
    w.registry.aliases.targets = ∅ →
    (∀ n, ¬ Relation.TransGen (fun n m => m ∈ w.registry.graph.dependents.of n) n n) →
    w.registry.handles.Quiet →
    d ∈ w.registry.graph.dependents.of b →
    w.registry.handles.find? d = some handle → w.registry.handles.find? b = some handle' →
    (w.run (.destroyAll next) .bottom).Leads (w'.run next .bottom) →
    w'.moments = w.moments ++ calls.flatMap Body.moments →
    [.callback d handle.ticket, .callback b handle'.ticket].Sublist calls := by
  intro h
  obtain ⟨w, hleads, hw⟩ := leads_overtaken
  obtain ⟨w', calls, hdone, hmoments, hnodup, hlast⟩ := hw.callsBefore
  have hfirst := h overtaken w (.done ()) "b" "d" _ _ w' calls hleads hw.targets hw.acyclic
    hw.quiet hw.mem_dependents hw.find?_d hw.find?_b hdone hmoments
  have hswap := (hnodup.perm_iff_eq_of_sublist hfirst hlast).mp (List.Perm.swap ..)
  simp at hswap

theorem callsBefore_overtaken : ∃ w : World .plain,
    (start (.fresh {} none ()) overtaken).Leads (w.run (.destroyAll (.done ())) .bottom) ∧
      (∀ handles, (∀ n, handles.find? n = w.registry.handles.find? n) →
        CallsBefore (withHandles w handles) (.done ()) .bottom
          (.callback "x" 0) (.callback "d" 2)) ∧
      ∃ handles, (∀ n, handles.find? n = w.registry.handles.find? n) ∧
        CallsBefore (withHandles w handles) (.done ()) .bottom
          (.callback "b" 1) (.callback "d" 2) := by
  obtain ⟨w, hleads, hw⟩ := leads_overtaken
  have hx := callback_order w (.done ()) .bottom (b := "d") (d := "x") (by simp [hw.dependents])
    (by decide) hw.find?_x hw.find?_d hw.quiet
  have hd := callback_order w (.done ()) .bottom hw.mem_dependents (by decide) hw.find?_d
    hw.find?_b hw.quiet
  exact ⟨w, hleads, hx.1 hw.not_awaits, hd.2 hw.awaits⟩

end Machine

end InstanceRegistry
