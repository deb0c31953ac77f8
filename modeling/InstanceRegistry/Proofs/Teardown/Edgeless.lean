import InstanceRegistry.Proofs.Teardown.Agenda
import InstanceRegistry.Proofs.Teardown.Destroy
import Mathlib.Data.List.Induction

/-!
This module contains the teardown of everything when there are no edges and the callbacks keep to
themselves. It runs the handles one by one from the last one to the first, and stops with the first
callback that panics (`Machine.leads_of_edgeless`).
-/

namespace InstanceRegistry

variable {C : Client} {role : Role}

def Graph.Edgeless (g : Graph) : Prop :=
  ∀ n m, ¬ g.Drags n m

namespace Registry

variable {r : C.Store}

theorem edgeless_after (h : r.graph.Edgeless) (t : Task C) : (r.after t).graph.Edgeless := by
  intro n m hdrags
  apply h n m
  unfold Graph.Drags at hdrags ⊢
  cases t with
  | visit k =>
    simp only [after, visit, detach, Graph.takeDependents, Edges.of_erase] at hdrags
    split at hdrags
    · exact Or.inr (hdrags.resolve_left (NameSet.not_mem_empty _))
    · exact hdrags
  | settle k handle => exact hdrags
  | release k =>
    simp only [after, release, Graph.takeContained, Edges.of_erase] at hdrags
    split at hdrags
    · exact Or.inl (hdrags.resolve_right (NameSet.not_mem_empty _))
    · exact hdrags
  | scrub k =>
    simp only [after, scrub, Graph.removeReferences, ← NameSet.mem_toList, Edges.toList_of_scrub,
      List.mem_filter] at hdrags ⊢
    exact hdrags.imp_left And.left
  | wipe =>
    simp only [after, wipe, Graph.empty, Edges.of_empty] at hdrags
    cases hdrags with
    | inl hdrags => exact absurd hdrags (NameSet.not_mem_empty _)
    | inr hdrags => exact absurd hdrags (NameSet.not_mem_empty _)

theorem next_visit_of_edgeless (h : r.graph.Edgeless) (n : Name) :
    r.next (.visit n) = (r.handles.find? n).toList.map (.settle n) ++ [.release n] := by
  have hnone : (r.graph.dependents.of n).toList = [] := by
    rw [List.eq_nil_iff_forall_not_mem]
    intro m hm
    rw [NameSet.mem_toList] at hm
    exact h n m (Or.inl hm)
  dsimp only [next]
  rw [hnone]
  rfl

theorem next_release_of_edgeless (h : r.graph.Edgeless) (n : Name) :
    r.next (.release n) = [.scrub n] := by
  have hnone : (r.graph.contained.of n).toList = [] := by
    rw [List.eq_nil_iff_forall_not_mem]
    intro m hm
    rw [NameSet.mem_toList] at hm
    exact h n m (Or.inr hm)
  dsimp only [next]
  rw [hnone]
  rfl

end Registry

def Program.Alone (p : Program C role) : Prop :=
  ∀ s, ∃ outcome s', p.alone s = some (outcome, s')

def Table.Alone (handles : Table (Entrusted C .callback)) : Prop :=
  ∀ n handle, handles.find? n = some handle → handle.code.Alone

def Moment.call? : Moment → Option Body
  | .began (.callback n ticket) => some (.callback n ticket)
  | _ => none

theorem World.calls_eq_moments (w : World C) :
    w.calls = w.moments.reverse.filterMap Moment.call? := by
  unfold calls moments
  rw [List.reverse_reverse, List.filterMap_filterMap]
  congr
  funext e
  cases e with
  | began b => cases b <;> rfl
  | _ => rfl

namespace Machine

theorem leads_of_visit {w : World C} {n : Name} {handle : Entrusted C .callback}
    (hedges : w.registry.graph.Edgeless) (hfind : w.registry.handles.find? n = some handle)
    (halone : handle.code.Alone) (left : List (Task C)) (next : Program C role)
    (s : Stack C role) :
    ∃ (w' : World C) (outcome : Except String (C.Result .callback)),
      w'.calls = .callback n handle.ticket :: w.calls ∧
      w'.registry = w.registry.after (.visit n) ∧
      (handle.code.Quiet → ∃ result, outcome = .ok result) ∧
      Leads ⟨w, .tear (.visit n :: left) next s⟩
        ⟨w', .after outcome (.settling n handle.ticket (.release n :: left) next s)⟩ := by
  have hvisit : step ⟨w, .tear (.visit n :: left) next s⟩ =
      some ⟨{ w with registry := w.registry.after (.visit n) },
        .tear (.settle n handle :: .release n :: left) next s⟩ := by
    rw [step_of_call?_eq_none rfl, Registry.next_visit_of_edgeless hedges, hfind]
    rfl
  obtain ⟨outcome, state, hcode⟩ := halone w.state
  obtain ⟨w', hrun, _, hregistry, hmoments⟩ := leadsBy_of_alone
    (P := fun _ => True) (fun _ _ => trivial)
    (w := World.record { w with registry := w.registry.after (.visit n) }
      (.began (.callback n handle.ticket))) hcode
  refine ⟨w', outcome, ?_, hregistry, ?_,
    .head ⟨trivial, hvisit⟩ (.head ⟨trivial, rfl⟩ (hrun _))⟩
  · rw [World.calls_eq_moments, hmoments, ← World.calls_eq_moments]
    rfl
  · intro hquiet
    obtain ⟨result, state', hresult⟩ := hquiet w.state
    rw [hcode, Option.some.injEq, Prod.mk.injEq] at hresult
    exact ⟨result, hresult.1⟩

theorem leads_of_release {w : World C} (hedges : w.registry.graph.Edgeless) (n : Name)
    (left : List (Task C)) (next : Program C role) (s : Stack C role) :
    Leads ⟨w, .tear (.release n :: left) next s⟩
      ⟨{ w with registry := (w.registry.after (.release n)).after (.scrub n) },
        .tear left next s⟩ := by
  have hrelease : step ⟨w, .tear (.release n :: left) next s⟩ =
      some ⟨{ w with registry := w.registry.after (.release n) },
        .tear (.scrub n :: left) next s⟩ := by
    rw [step_of_call?_eq_none rfl, Registry.next_release_of_edgeless hedges]
    rfl
  exact .head ⟨trivial, hrelease⟩ (.single ⟨trivial, rfl⟩)

theorem leads_of_handle {w : World C} {n : Name} {handle : Entrusted C .callback}
    (hedges : w.registry.graph.Edgeless) (hfind : w.registry.handles.find? n = some handle)
    (halone : handle.code.Alone) (left : List (Task C)) (next : Program C role)
    (s : Stack C role) :
    ∃ w' : World C, w'.calls = .callback n handle.ticket :: w.calls ∧
      (w'.registry.graph.Edgeless ∧ w'.registry.handles = w.registry.handles.erase n ∧
        Leads ⟨w, .tear (.visit n :: left) next s⟩ ⟨w', .tear left next s⟩ ∨
      ¬ handle.code.Quiet ∧
        ∃ text, Leads ⟨w, .tear (.visit n :: left) next s⟩ ⟨w', .unwind text s⟩) := by
  obtain ⟨w₁, outcome, hcalls, hregistry, hquiet, hleads⟩ :=
    leads_of_visit hedges hfind halone left next s
  cases outcome with
  | error text =>
    refine ⟨w₁, hcalls, Or.inr ⟨?_, text, hleads.tail ⟨trivial, rfl⟩⟩⟩
    intro hcode
    obtain ⟨result, hresult⟩ := hquiet hcode
    cases hresult
  | ok result =>
    obtain ⟨w₂, hstep, hcalls₂, hregistry₂⟩ :
        ∃ w₂ : World C, step ⟨w₁, .after (.ok result)
            (.settling n handle.ticket (.release n :: left) next s)⟩ =
          some ⟨w₂, .tear (.release n :: left) next s⟩ ∧ w₂.calls = w₁.calls ∧
          w₂.registry = w₁.registry :=
      ⟨_, rfl, World.calls_log .., rfl⟩
    rw [hregistry] at hregistry₂
    have hedges₂ : w₂.registry.graph.Edgeless := by
      rw [hregistry₂]
      exact Registry.edgeless_after hedges (.visit n)
    have hhandles : w₂.registry.handles = w.registry.handles.erase n := by
      rw [hregistry₂]
      rfl
    refine ⟨{ w₂ with registry := (w₂.registry.after (.release n)).after (.scrub n) },
      hcalls₂.trans hcalls, Or.inl ⟨?_, hhandles, ?_⟩⟩
    · apply Registry.edgeless_after (t := .scrub n)
      apply Registry.edgeless_after hedges₂
    · exact (hleads.tail ⟨trivial, hstep⟩).trans (leads_of_release hedges₂ n left next s)

theorem leads_of_entries {w : World C} {entries : List (Name × Entrusted C .callback)}
    (hnodup : (entries.map (·.1)).Nodup)
    (hfind : ∀ e ∈ entries, w.registry.handles.find? e.1 = some e.2)
    (halone : ∀ e ∈ entries, e.2.code.Alone) (hedges : w.registry.graph.Edgeless)
    (left : List (Task C)) (next : Program C role) (s : Stack C role) :
    ∃ (w' : World C) (rest ran : List (Name × Entrusted C .callback)), entries = rest ++ ran ∧
      w'.calls = (ran.map fun e => .callback e.1 e.2.ticket) ++ w.calls ∧
      (rest = [] ∧ Leads ⟨w, .tear ((entries.map (·.1)).reverse.map .visit ++ left) next s⟩
        ⟨w', .tear left next s⟩ ∨
      ∃ e more text, ran = e :: more ∧ ¬ e.2.code.Quiet ∧
        Leads ⟨w, .tear ((entries.map (·.1)).reverse.map .visit ++ left) next s⟩
          ⟨w', .unwind text s⟩) := by
  -- the last entry is torn down first, and what is left has the same handles as before
  induction entries using List.reverseRecOn generalizing w with
  | nil => exact ⟨w, [], [], rfl, rfl, Or.inl ⟨rfl, .refl⟩⟩
  | append_singleton init e ih =>
    have htasks : ((init ++ [e]).map (·.1)).reverse.map Task.visit ++ left =
        .visit e.1 :: ((init.map (·.1)).reverse.map .visit ++ left) := by simp
    have hlast : e ∈ init ++ [e] := List.mem_append_right _ (List.mem_singleton_self e)
    rw [htasks]
    obtain ⟨w₁, hcalls₁, hrun⟩ := leads_of_handle hedges (hfind e hlast) (halone e hlast)
      ((init.map (·.1)).reverse.map .visit ++ left) next s
    cases hrun with
    | inr hpanic =>
      obtain ⟨hquiet, text, hleads⟩ := hpanic
      exact ⟨w₁, init, [e], rfl, hcalls₁, Or.inr ⟨e, [], text, rfl, hquiet, hleads⟩⟩
    | inl hdone =>
      obtain ⟨hedges₁, hhandles₁, hleads₁⟩ := hdone
      rw [List.map_append, List.nodup_append] at hnodup
      have hfind₁ : ∀ e' ∈ init, w₁.registry.handles.find? e'.1 = some e'.2 := by
        intro e' he'
        have hne : e'.1 ≠ e.1 :=
          hnodup.2.2 _ (List.mem_map_of_mem he') _ (List.mem_singleton_self _)
        rw [hhandles₁, Table.find?_erase, if_neg hne]
        exact hfind e' (List.mem_append_left _ he')
      have halone₁ : ∀ e' ∈ init, e'.2.code.Alone := by
        intro e' he'
        exact halone e' (List.mem_append_left _ he')
      obtain ⟨w', rest, ran, hinit, hcalls, hrest⟩ := ih hnodup.1 hfind₁ halone₁ hedges₁
      refine ⟨w', rest, ran ++ [e], ?_, ?_, ?_⟩
      · rw [hinit, List.append_assoc]
      · rw [hcalls, hcalls₁]
        simp
      · cases hrest with
        | inl hdone => exact Or.inl ⟨hdone.1, hleads₁.trans hdone.2⟩
        | inr hpanic =>
          obtain ⟨e', more, text, hran, hquiet, hleads⟩ := hpanic
          exact Or.inr ⟨e', more ++ [e], text, by rw [hran]; rfl, hquiet, hleads₁.trans hleads⟩

theorem leads_of_edgeless {w : World C} (hedges : w.registry.graph.Edgeless)
    (halone : w.registry.handles.Alone) (next : Program C role) (s : Stack C role) :
    ∃ (w' : World C) (rest ran : List (Name × Entrusted C .callback)),
      w.registry.handles.entries = rest ++ ran ∧
      w'.calls = (ran.map fun e => .callback e.1 e.2.ticket) ++ w.calls ∧
      (rest = [] ∧ (w.run (.destroyAll next) s).Leads (w'.run next s) ∨
      ∃ e more text, ran = e :: more ∧ ¬ e.2.code.Quiet ∧
        (w.run (.destroyAll next) s).Leads ⟨w', .unwind text s⟩) := by
  obtain ⟨w', rest, ran, hentries, hcalls, hrest⟩ := leads_of_entries
    (w := { w with registry := w.registry.announce }) w.registry.handles.nodup
    (fun e he => Table.find?_of_mem_entries he)
    (fun e he => halone e.1 e.2 (Table.find?_of_mem_entries he)) hedges [.wipe] next s
  cases hrest with
  | inl hdone =>
    refine ⟨{ w' with registry := w'.registry.wipe }, rest, ran, hentries, hcalls,
      Or.inl ⟨hdone.1, ?_⟩⟩
    apply Relation.ReflTransGen.head ⟨trivial, rfl⟩
    exact (hdone.2.tail ⟨trivial, rfl⟩).tail ⟨trivial, rfl⟩
  | inr hpanic =>
    obtain ⟨e, more, text, hran, hquiet, hleads⟩ := hpanic
    exact ⟨w', rest, ran, hentries, hcalls,
      Or.inr ⟨e, more, text, hran, hquiet, .head ⟨trivial, rfl⟩ hleads⟩⟩

end Machine

end InstanceRegistry
