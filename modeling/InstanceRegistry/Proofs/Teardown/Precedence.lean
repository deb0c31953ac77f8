import InstanceRegistry.Proofs.Teardown.Destroy
import InstanceRegistry.Proofs.Teardown.Waiting

/-!
This module contains what has been done when a teardown comes to the handle of a name. What depends
on the name has run its own handle, or waits for it with its teardown begun; if no name waits for
itself, everything that depends on the name has run its handle (`Machine.callback_precedence`).
-/

namespace InstanceRegistry

variable {C : Client} {r : C.Store} {ns : List Name} {done left : List (Task C)} {t : Task C}
  {n m : Name}

namespace Graph

def Orderly (g : Graph) : Prop :=
  ∀ n, ¬ g.Awaits n n

variable {g : Graph}

theorem Awaits.closure (h : g.Awaits n m) : g.Closure n m := by
  obtain ⟨d, hd, hclosure⟩ := h
  exact .head (.inl hd) hclosure

theorem awaits_of_path (h : g.Path n m) : g.Awaits n m := by
  induction h with
  | single hedge => exact ⟨_, hedge, .refl⟩
  | tail _ hedge ih => exact ih.trans (.single (.inl hedge))

theorem orderly_of_acyclic (hcontained : ∀ n, g.contained.of n = ∅) (hacyclic : ∀ n, ¬ g.Path n n) :
    g.Orderly := by
  intro n hawaits
  obtain ⟨d, hd, hclosure⟩ := hawaits
  apply hacyclic n
  apply Relation.TransGen.head' hd
  apply Relation.ReflTransGen.mono _ _ _ hclosure
  intro k m hdrags
  cases hdrags with
  | inl hedge => exact hedge
  | inr hedge =>
    rw [hcontained] at hedge
    exact absurd hedge (NameSet.not_mem_empty m)

end Graph

structure Sorted (r : C.Store) (done left : List (Task C)) : Prop where
  waits : ∀ front n back, left = front ++ .release n :: back → Waits r.graph done front n
  closed : ∀ n, .release n ∈ done → ∀ m ∈ r.graph.dependents.of n, .release m ∈ done

namespace Covers

theorem next_of_visited (h : Covers r ns done left) (hvisit : .visit n ∈ done) :
    (r.afterAll done).next (.visit n) = [.release n] := by
  have hnone : ((r.afterAll done).graph.dependents.of n).toList = [] := by
    rw [Edges.of_eq_empty_of_find?_eq_none (Registry.find?_dependents_afterAll hvisit)]
    rfl
  have hhandle : (r.afterAll done).handles.find? n = none := by
    rw [Registry.find?_handles_afterAll n h.not_wipe_done]
    simp [hvisit]
  dsimp only [Registry.next]
  rw [hnone, hhandle]
  rfl

theorem release_of_visited (h : Covers r ns done (t :: left)) (hsorted : Sorted r done (t :: left))
    (hvisit : .visit n ∈ done) (hrelease : t ≠ .release n)
    (hsettle : ∀ handle, t ≠ .settle n handle)
    (hawaits : ∀ m, t.name? = some m → ¬ r.graph.Awaits n m) : .release n ∈ done := by
  have hmem := h.release_of_visit n hvisit
  rw [List.mem_append, List.mem_cons] at hmem
  cases hmem with
  | inl hdone => exact hdone
  | inr hmem =>
    obtain ⟨front, back, hleft⟩ := List.append_of_mem (hmem.resolve_left (Ne.symm hrelease))
    have hwaits := hsorted.waits (t :: front) n back (by rw [hleft]; rfl)
    cases hwaits.awaits t (List.mem_cons_self ..) with
    | inl hown =>
      obtain ⟨handle, ht⟩ := hown
      exact absurd ht (hsettle handle)
    | inr hname =>
      obtain ⟨m, hm, hnm⟩ := hname
      exact absurd hnm (hawaits m hm)

theorem waits_of_visited (h : Covers r ns done (.visit n :: left)) (horderly : r.graph.Orderly)
    (hsorted : Sorted r done (.visit n :: left)) (hvisit : .visit n ∈ done) :
    Waits r.graph (done ++ [.visit n]) [] n := by
  -- the name does not wait for itself, so it has been released, and what depends on it, too
  have hrelease : .release n ∈ done := by
    apply h.release_of_visited hsorted hvisit nofun nofun
    intro m hm
    cases hm
    exact horderly n
  constructor
  case visit_dependents =>
    intro m hm
    have hdone := hsorted.closed n hrelease m hm
    have hvisit := h.visit_of_release m (List.mem_append_left _ hdone)
    exact Or.inl (List.mem_append_left _ hvisit)
  case awaits =>
    intro u hu
    cases hu

theorem release_dependents (h : Covers r ns done (.release n :: left)) (horderly : r.graph.Orderly)
    (hsorted : Sorted r done (.release n :: left)) (hm : m ∈ r.graph.dependents.of n) :
    .release m ∈ done := by
  have hne : n ≠ m := by
    rintro rfl
    exact horderly n ⟨n, hm, .refl⟩
  have hvisit : .visit m ∈ done :=
    ((hsorted.waits [] n left rfl).visit_dependents m hm).resolve_right List.not_mem_nil
  apply h.release_of_visited hsorted hvisit (by simpa using hne) nofun
  intro k hk
  cases hk
  intro hawaits
  exact horderly n ⟨m, hm, hawaits.closure⟩

theorem sorted_step (h : Covers r ns done (t :: left)) (horderly : r.graph.Orderly)
    (hsorted : Sorted r done (t :: left)) :
    Sorted r (done ++ [t]) ((r.afterAll done).next t ++ left) := by
  constructor
  case waits =>
    intro front n back heq
    cases append_eq_append_cons heq with
    | inl hold =>
      -- the release has been in line before the step
      obtain ⟨front', hfront, hleft⟩ := hold
      rw [hfront]
      apply h.waits_step
      apply hsorted.waits (t :: front') n back
      rw [hleft, List.cons_append]
    | inr hnew =>
      obtain ⟨back', hnext⟩ := hnew
      have ht : t = .visit n := by
        rw [← Registry.release_mem_next, hnext]
        simp
      rw [ht] at h hsorted hnext ⊢
      by_cases hvisit : .visit n ∈ done
      · rw [h.next_of_visited hvisit] at hnext
        cases front with
        | cons u front => simp at hnext
        | nil => exact h.waits_of_visited horderly hsorted hvisit
      · rw [Registry.eq_of_next_eq_append_release hnext]
        exact (h.waits_visit hvisit).append_settle _
  case closed =>
    intro n hn m hm
    rw [List.mem_append, List.mem_singleton] at hn
    apply List.mem_append_left
    cases hn with
    | inl hdone => exact hsorted.closed n hdone m hm
    | inr ht =>
      rw [← ht] at h hsorted
      exact h.release_dependents horderly hsorted hm

end Covers

namespace Tears

variable {b d : Name} {handle handle' : Entrusted C .callback}

theorem sorted (h : Tears r (ns.map .visit) done left) (horderly : r.graph.Orderly) :
    Sorted r done left := by
  induction h with
  | refl =>
    constructor
    case waits =>
      intro front n back heq
      have hmem : (Task.release n : Task C) ∈ ns.map Task.visit := by
        rw [heq]
        simp
      simp at hmem
    case closed =>
      intro n hn
      cases hn
  | step h ih => exact (Covers.of_tears h).sorted_step horderly ih

theorem release_of_path (h : Tears r (ns.map .visit) done (.settle b handle :: left))
    (horderly : r.graph.Orderly) (hpath : r.graph.Path b d) : .release d ∈ done := by
  have hcovers := Covers.of_tears h
  have hsorted := h.sorted horderly
  -- what depends directly on the name has been visited, and what is released closes the rest
  induction hpath with
  | @single d hedge =>
    apply hcovers.release_of_visited hsorted (h.visit_mem_done hedge) nofun
    · intro handle' heq
      rw [Task.settle.injEq] at heq
      rw [heq.1] at hedge
      exact horderly d ⟨d, hedge, .refl⟩
    · intro m hm hawaits
      cases hm
      exact horderly b ⟨d, hedge, hawaits.closure⟩
  | tail _ hedge ih => exact hsorted.closed _ ih _ hedge

theorem settle_mem_of_path (h : Tears r (ns.map .visit) done (.settle b handle :: left))
    (horderly : r.graph.Orderly) (hpath : r.graph.Path b d)
    (hhandle : r.handles.find? d = some handle') : .settle d handle' ∈ done := by
  have hrelease := h.release_of_path horderly hpath
  have hvisit : .visit d ∈ done := by
    apply (Covers.of_tears h).visit_of_release
    exact List.mem_append_left _ hrelease
  apply h.settle_mem_of_visit hvisit
  · rintro rfl
    exact horderly d (Graph.awaits_of_path hpath)
  · intro hawaits
    exact horderly b ((Graph.awaits_of_path hpath).trans hawaits.closure)
  · exact hhandle

end Tears

def World.EndedSince (w w' : World C) (b : Body) : Prop :=
  ∃ moments, w'.moments = w.moments ++ moments ∧ .ended b ∈ moments

namespace Machine

variable {role : Role} {w w' : World C} {b : Name} {handle : Entrusted C .callback}

def Invokes (k : Machine C) (n : Name) (handle : Entrusted C .callback) (left : List (Task C)) :
    Prop :=
  ∃ (r : Role) (next : Program C r) (s : Stack C r),
    k.control = .tear (.settle n handle :: left) next s

/--
What is so when a teardown that has begun in one world is about to run a handle in another one. The
handles of what depends on the name have been run, or they are in line, since their names have been
visited. If there are no containments and the dependents make no circle, they all have been run.
-/
structure InOrder (w w' : World C) (b : Name) (handle : Entrusted C .callback)
    (left : List (Task C)) : Prop where
  registered : w.registry.handles.find? b = some handle
  dependents : ∀ d handle', d ∈ w.registry.graph.dependents.of b →
    w.registry.handles.find? d = some handle' →
    w.EndedSince w' (.callback d handle'.ticket) ∨ .settle d handle' ∈ .settle b handle :: left
  paths : (∀ n, w.registry.graph.contained.of n = ∅) → (∀ n, ¬ w.registry.graph.Path n n) →
    ∀ d handle', w.registry.graph.Path b d → w.registry.handles.find? d = some handle' →
      w.EndedSince w' (.callback d handle'.ticket)

theorem endedSince_of_settle (hmoments : w'.moments = w.moments ++
    (Task.calls done).flatMap Body.moments) (h : .settle b handle ∈ done) :
    w.EndedSince w' (.callback b handle.ticket) := by
  refine ⟨_, hmoments, ?_⟩
  rw [List.mem_flatMap]
  refine ⟨.callback b handle.ticket, ?_, by simp [Body.moments]⟩
  rw [Task.mem_calls]
  exact ⟨b, handle, h, rfl⟩

theorem inOrder_of_tears
    (h : Tears w.registry (ns.map .visit) done (.settle b handle :: left))
    (hmoments : w'.moments = w.moments ++ (Task.calls done).flatMap Body.moments)
    (back : List (Task C)) : InOrder w w' b handle (left ++ back) := by
  have hcovers := Covers.of_tears h
  constructor
  case registered =>
    have hmem : .settle b handle ∈ done ++ .settle b handle :: left := by simp
    rw [hcovers.settle_iff] at hmem
    exact hmem.2
  case dependents =>
    intro d handle' hedge hhandle
    have hmem := (hcovers.settle_iff d handle').mpr ⟨h.visit_mem_done hedge, hhandle⟩
    rw [List.mem_append] at hmem
    cases hmem with
    | inl hdone => exact Or.inl (endedSince_of_settle hmoments hdone)
    | inr hleft =>
      rw [← List.cons_append]
      exact Or.inr (List.mem_append_left _ hleft)
  case paths =>
    intro hcontained hacyclic d handle' hpath hhandle
    apply endedSince_of_settle hmoments
    exact h.settle_mem_of_path (Graph.orderly_of_acyclic hcontained hacyclic) hpath hhandle

def RunsInOrder (w : World C) (k : Machine C) : Prop :=
  ∀ b handle left, k.Invokes b handle left → InOrder w k.world b handle left

theorem runsInOrder_of_not_tearing {k : Machine C} (h : ¬ k.Tearing) : RunsInOrder w k := by
  intro b handle left hinvokes
  obtain ⟨r, next, s, hcontrol⟩ := hinvokes
  unfold Tearing at h
  rw [hcontrol] at h
  exact absurd trivial h

theorem leadsBy_runsInOrder (w : World C) (ns : List Name) (back : List (Task C))
    (hback : ∀ b handle left, back ≠ .settle b handle :: left) (next : Program C role)
    (s : Stack C role) (hquiet : QuietFrom w ns) :
    ∃ w', LeadsBy (RunsInOrder w) ⟨w, .tear (ns.map .visit ++ back) next s⟩
      ⟨w', .tear back next s⟩ ∧
      ∀ n ∈ ns, ∀ m handle, w.registry.graph.Closure n m →
        w.registry.handles.find? m = some handle → w.EndedSince w' (.callback m handle.ticket) := by
  obtain ⟨done, hdone⟩ := Tears.exists_done w.registry (ns.map .visit)
  have htears : AtTears (RunsInOrder w) w (ns.map .visit) back next s := by
    intro done left w' htears hmoments b handle left' hinvokes
    obtain ⟨r, next', s', hcontrol⟩ := hinvokes
    cases left with
    | nil =>
      cases hcontrol
      exact absurd rfl (hback b handle left')
    | cons t left =>
      cases hcontrol
      exact inOrder_of_tears htears hmoments back
  obtain ⟨w', hleads, _, hmoments⟩ :=
    leadsBy_of_visits (fun _ => runsInOrder_of_not_tearing) hdone back next s htears hquiet
  refine ⟨w', hleads, ?_⟩
  intro n hn m handle hclosure hhandle
  have hcovers := Covers.of_tears hdone
  have hvisit : .visit m ∈ done := hcovers.visit_iff.mpr ⟨n, hn, hclosure⟩
  have hsettle := (hcovers.settle_iff m handle).mpr ⟨hvisit, hhandle⟩
  rw [List.append_nil] at hsettle
  exact endedSince_of_settle hmoments hsettle

theorem runsInOrder_tear_nil (next : Program C role) (s : Stack C role) :
    RunsInOrder w ⟨w', .tear [] next s⟩ := by
  intro b handle left hinvokes
  obtain ⟨r, next', s', hcontrol⟩ := hinvokes
  cases hcontrol

theorem runsInOrder_destroyAll (w : World C) (next : Program C role) (s : Stack C role)
    (hquiet : w.registry.handles.Quiet) :
    ∃ w' : World C, (w.run (.destroyAll next) s).LeadsBy (RunsInOrder w) (w'.run next s) ∧
      ∀ n handle, w.registry.handles.find? n = some handle →
        w.EndedSince w' (.callback n handle.ticket) := by
  obtain ⟨w', hleads, hended⟩ := leadsBy_runsInOrder { w with registry := w.registry.announce }
    w.registry.handles.keys.reverse [.wipe] nofun next s (quietFrom_of_quiet hquiet _)
  have hwipe : RunsInOrder w ⟨w', .tear [.wipe] next s⟩ := by
    intro b handle left hinvokes
    obtain ⟨r, next', s', hcontrol⟩ := hinvokes
    cases hcontrol
  refine ⟨{ w' with registry := w'.registry.wipe },
    .head ⟨runsInOrder_of_not_tearing id, rfl⟩ (.tail (.tail (leadsBy_mono hleads ?_)
    ⟨hwipe, rfl⟩) ⟨runsInOrder_tear_nil next s, rfl⟩), ?_⟩
  · intro k hk b handle left hinvokes
    obtain ⟨hregistered, hdependents, hpaths⟩ := hk b handle left hinvokes
    exact ⟨hregistered, hdependents, hpaths⟩
  · intro n handle hhandle
    apply hended n _ n handle .refl hhandle
    rw [List.mem_reverse, ← Table.contains_iff, Table.contains, hhandle]
    rfl

/--
The teardown of everything comes to its end, and so does that of a name. Whenever it is about to run
the handle of a name on the way, the handles of what depends on the name have been run, or they are
in line. Without containments and circles all of them have been run, also those of what depends on
the name through others. At the end the handles of all the names have been run, or of those that can
be reached.
-/
theorem callback_precedence (w : World C) (next : Program C role) (s : Stack C role) :
    (w.registry.handles.Quiet →
      ∃ w' : World C, (w.run (.destroyAll next) s).LeadsBy (RunsInOrder w) (w'.run next s) ∧
        ∀ n handle, w.registry.handles.find? n = some handle →
          w.EndedSince w' (.callback n handle.ticket)) ∧
    ∀ n, QuietFrom w [n] →
      ∃ w' : World C, (w.run (.destroy n next) s).LeadsBy (RunsInOrder w) (w'.run next s) ∧
        ∀ m handle, w.registry.graph.Closure n m → w.registry.handles.find? m = some handle →
          w.EndedSince w' (.callback m handle.ticket) := by
  constructor
  · exact runsInOrder_destroyAll w next s
  · intro n hquiet
    obtain ⟨w', hleads, hended⟩ := leadsBy_runsInOrder w [n] [] nofun next s hquiet
    exact ⟨w', .head ⟨runsInOrder_of_not_tearing id, rfl⟩
      (hleads.tail ⟨runsInOrder_tear_nil next s, rfl⟩), hended n (List.mem_singleton_self n)⟩

def chain : World .plain where
  registry := {
    (Registry.empty {} none : Client.plain.Store) with
    graph := {
      contained := ∅
      dependents := ((∅ : Edges).link "b" "d").link "d" "x"
      dependencies := ((∅ : Edges).link "d" "b").link "x" "d" }
    handles := (Table.empty.insert "x" ⟨0, .done (.ok ())⟩).insert "b" ⟨1, .done (.ok ())⟩ }
  state := ()
  history := []
  tickets := 2

theorem quiet_chain : chain.registry.handles.Quiet := by
  apply Table.quiet_insert
  · apply Table.quiet_insert
    · exact Table.quiet_empty
    · simp
  · simp

theorem acyclic_chain (n : Name) : ¬ chain.registry.graph.Path n n := by
  apply Graph.acyclic_of_rank fun n => if n = "b" then 2 else if n = "d" then 1 else 0
  intro n m hm
  simp only [chain, Edges.mem_of_link, Edges.of_empty, NameSet.not_mem_empty, false_or] at hm
  cases hm with
  | inl hm => simp [hm]
  | inr hm => simp [hm]

theorem path_chain : chain.registry.graph.Path "b" "x" := by
  apply Relation.TransGen.head (b := "d")
  · simp [chain]
  · apply Relation.TransGen.single
    simp [chain]

theorem leads_destroy_chain : ∃ w : World .plain,
    (chain.run (.destroy "b" (.done ())) .bottom).Leads
      ⟨w, .tear [.settle "b" ⟨1, .done (.ok ())⟩, .release "b"] (.done ()) .bottom⟩ := by
  apply Exists.intro
  iterate 10 refine .head ⟨trivial, rfl⟩ ?_
  exact .refl

theorem leads_destroyAll_chain : ∃ w : World .plain,
    (chain.run (.destroyAll (.done ())) .bottom).Leads
      ⟨w, .tear [.settle "b" ⟨1, .done (.ok ())⟩, .release "b", .visit "x", .wipe]
        (.done ()) .bottom⟩ := by
  apply Exists.intro
  iterate 10 refine .head ⟨trivial, rfl⟩ ?_
  exact .refl

theorem not_tearing_of_leads {w : World .plain} {k : Machine .plain}
    (h : (w.run (.done ()) .bottom).Leads k) : ¬ k.Tearing := by
  cases h.cases_head with
  | inl heq =>
    rw [← heq]
    exact id
  | inr hnext =>
    obtain ⟨i, hi, hnext⟩ := hnext
    cases hi.2
    rw [← eq_of_leads hnext rfl]
    exact id

theorem runsInOrder_of_leads {w w' : World .plain} {m k : Machine .plain}
    (hrun : m.LeadsBy (RunsInOrder w) (w'.run (.done ()) .bottom)) (hleads : m.Leads k) :
    RunsInOrder w k := by
  cases leadsBy_or_leads hrun hleads with
  | inl hbefore => exact holds_of_leadsBy hbefore (runsInOrder_of_not_tearing id)
  | inr hafter => exact runsInOrder_of_not_tearing (not_tearing_of_leads hafter)

theorem ended_of_invokes {k : Machine .plain} {left : List (Task .plain)} (h : RunsInOrder chain k)
    (hinvokes : k.Invokes "b" ⟨1, .done (.ok ())⟩ left) :
    chain.EndedSince k.world (.callback "x" 0) :=
  (h _ _ _ hinvokes).paths (fun _ => rfl) acyclic_chain "x" _ path_chain rfl

theorem ended_of_chain :
    (∃ k left, (chain.run (.destroy "b" (.done ())) .bottom).Leads k ∧
      k.Invokes "b" ⟨1, .done (.ok ())⟩ left ∧ chain.EndedSince k.world (.callback "x" 0)) ∧
    (∃ k left, (chain.run (.destroyAll (.done ())) .bottom).Leads k ∧
      k.Invokes "b" ⟨1, .done (.ok ())⟩ left ∧ chain.EndedSince k.world (.callback "x" 0)) ∧
    ∃ w : World .plain,
      (chain.run (.destroyAll (.done ())) .bottom).Leads (w.run (.done ()) .bottom) ∧
        chain.EndedSince w (.callback "x" 0) ∧ chain.EndedSince w (.callback "b" 1) := by
  obtain ⟨w₁, hleads₁⟩ := leads_destroy_chain
  obtain ⟨w₂, hleads₂⟩ := leads_destroyAll_chain
  obtain ⟨hall, hone⟩ := callback_precedence chain (.done ()) .bottom
  obtain ⟨_, hrun₁, _⟩ := hone "b" (quietFrom_of_quiet quiet_chain _)
  obtain ⟨w, hrun₂, hended⟩ := hall quiet_chain
  have horder₁ := runsInOrder_of_leads hrun₁ hleads₁
  have horder₂ := runsInOrder_of_leads hrun₂ hleads₂
  refine ⟨⟨_, _, hleads₁, ⟨_, _, _, rfl⟩, ?_⟩, ⟨_, _, hleads₂, ⟨_, _, _, rfl⟩, ?_⟩,
    w, leads_of_leadsBy hrun₂, hended "x" _ rfl, hended "b" _ rfl⟩
  · exact ended_of_invokes horder₁ ⟨_, _, _, rfl⟩
  · exact ended_of_invokes horder₂ ⟨_, _, _, rfl⟩

end Machine

end InstanceRegistry
