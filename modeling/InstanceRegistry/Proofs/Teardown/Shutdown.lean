import InstanceRegistry.Proofs.Teardown.Edgeless
import InstanceRegistry.Proofs.Teardown.Handles
import Mathlib.Data.List.Nodup

/-!
This module contains what the teardown of everything comes to, whatever the callbacks do meanwhile.
When it comes back, nothing of the registry is left, and it has run every handle that was there when
it began, unless the handle was replaced or a panic came out of a callback
(`Machine.shutdown_runs_handles`).
-/

namespace InstanceRegistry

variable {C : Client}

structure Registry.Blank {ε δ : Type} (r : Registry ε δ) : Prop where
  names : (r.perform .names).answer = []
  contains : ∀ n, (r.perform (.contains n)).answer = false
  graphIsEmpty : (r.perform .graphIsEmpty).answer = true
  inDestruction : (r.perform .inDestruction).answer = false

theorem Registry.blank_wipe {ε δ : Type} (r : Registry ε δ) : r.wipe.Blank := by
  constructor
  case contains =>
    intro n
    rfl
  all_goals rfl

def Stack.OfCallback : {r : Role} → Stack C r → Prop
  | _, .settling _ _ _ _ _ => True
  | _, _ => False

section Within

variable {r : C.Store} {change : Change C} {lost ts : List (Task C)} {calls calls' new : List Body}
  {ls ls' us us' : List (List (Task C))} {n : Name} {handle : Entrusted C .callback}

theorem Move.within (h : Move r change lost (new ++ calls) (us ++ ls) calls' ls') (hus : us ≠ []) :
    ∃ new' us', calls' = new' ++ calls ∧ ls' = us' ++ ls ∧ Move r change lost new us new' us' := by
  cases us with
  | nil => exact absurd rfl hus
  | cons u us =>
    rw [List.cons_append] at h
    cases h with
    | stay htears => exact ⟨new, u :: us, rfl, rfl, .stay htears⟩
    | enter htears => exact ⟨new, [] :: u :: us, rfl, rfl, .enter htears⟩
    | leave htears => exact ⟨new, us, rfl, rfl, .leave htears⟩
    | destroy n => exact ⟨new, _ :: u :: us, rfl, rfl, .destroy n⟩
    | announce => exact ⟨new, _ :: u :: us, rfl, rfl, .announce⟩
    | work t => exact ⟨_, _ :: us, (List.append_assoc ..).symm, rfl, .work t⟩

def Handled (n : Name) (handle : Entrusted C .callback) (handles : Table (Entrusted C .callback))
    (calls : List Body) (ls : List (List (Task C))) : Prop :=
  handles.find? n = some handle ∧ .visit n ∈ ls.flatten ∨ .settle n handle ∈ ls.flatten ∨
    .callback n handle.ticket ∈ calls

theorem find?_handles_of_not_tears (h : ¬ change.Tears) (hadd : ∀ code, change ≠ .addHandle n code)
    (handles : Table (Entrusted C .callback)) :
    (change.handles handles).find? n = handles.find? n := by
  cases change with
  | addHandle m code =>
    have hne : n ≠ m := by
      rintro rfl
      exact hadd code rfl
    unfold Change.handles
    rw [Table.find?_insert, if_neg hne]
  | visit m => exact absurd trivial h
  | _ => rfl

theorem find?_handles_of_task {t : Task C} (h : t ≠ .visit n)
    (handles : Table (Entrusted C .callback)) :
    (t.change.handles handles).find? n = handles.find? n := by
  cases t with
  | visit m =>
    have hne : n ≠ m := by
      rintro rfl
      exact h rfl
    unfold Task.change Change.handles
    rw [Table.find?_erase, if_neg hne]
  | _ => rfl

theorem Handled.work {t : Task C} (h : Handled n handle r.handles calls ((t :: ts) :: ls)) :
    Handled n handle (t.change.handles r.handles) (t.call?.toList ++ calls)
      ((r.next t ++ ts) :: ls) := by
  have hold : ∀ u, u ∈ ((t :: ts) :: ls).flatten ↔ u = t ∨ u ∈ ts ++ ls.flatten := by simp
  have hnew : ∀ u, u ∈ ((r.next t ++ ts) :: ls).flatten ↔
      u ∈ r.next t ∨ u ∈ ts ++ ls.flatten := by simp
  unfold Handled at h ⊢
  rw [hold, hold] at h
  rw [hnew, hnew, List.mem_append (s := t.call?.toList)]
  cases h with
  | inl h =>
    by_cases ht : t = .visit n
    · have hnext : .settle n handle ∈ r.next t := by
        rw [Registry.settle_mem_next]
        exact ⟨ht, h.1⟩
      exact Or.inr (Or.inl (Or.inl hnext))
    · -- any other task leaves the handle in the table
      rw [find?_handles_of_task ht]
      exact Or.inl ⟨h.1, Or.inr (h.2.resolve_left (Ne.symm ht))⟩
  | inr h =>
    apply Or.inr
    cases h with
    | inl h =>
      cases h with
      | inl ht =>
        rw [← ht]
        exact Or.inr (Or.inl (List.mem_singleton_self _))
      | inr h => exact Or.inl (Or.inr h)
    | inr h => exact Or.inr (Or.inr h)

theorem Move.handled (h : Move r change [] calls ls calls' ls')
    (hreplaced : r.handles.find? n = some handle → ∀ code, change ≠ .addHandle n code)
    (hhandled : Handled n handle r.handles calls ls) :
    Handled n handle (change.handles r.handles) calls' ls' := by
  have hkeep : ¬ change.Tears → Handled n handle (change.handles r.handles) calls ls := by
    intro htears
    unfold Handled at hhandled ⊢
    cases hhandled with
    | inl hvisit =>
      rw [find?_handles_of_not_tears htears (hreplaced hvisit.1)]
      exact Or.inl hvisit
    | inr hhandled => exact Or.inr hhandled
  have hdeeper : ∀ ts, Handled n handle (change.handles r.handles) calls ls →
      Handled n handle (change.handles r.handles) calls (ts :: ls) := by
    intro ts hhandled
    unfold Handled at hhandled ⊢
    rw [List.flatten_cons, List.mem_append, List.mem_append]
    exact hhandled.imp (And.imp_right Or.inr) (Or.imp_left Or.inr)
  cases h with
  | stay htears => exact hkeep htears
  | enter htears => exact hdeeper _ (hkeep htears)
  | leave htears => exact hkeep htears
  | destroy n => exact hdeeper _ hhandled
  | announce => exact hdeeper _ hhandled
  | work t => exact hhandled.work

theorem Move.wiping (h : Move r change lost calls (us ++ (ts ++ [.wipe]) :: ls) calls' ls') :
    (∃ us' ts', ls' = us' ++ (ts' ++ [.wipe]) :: ls) ∨ change = .wipe ∧ ls' = [] :: ls ∨
      lost ≠ [] ∧ ls' = ls := by
  generalize hlayers : us ++ (ts ++ [.wipe]) :: ls = layers at h
  cases h with
  | stay htears => exact Or.inl ⟨us, ts, hlayers.symm⟩
  | enter htears => exact Or.inl ⟨[] :: us, ts, by rw [← hlayers]; rfl⟩
  | destroy n => exact Or.inl ⟨_ :: us, ts, by rw [← hlayers]; rfl⟩
  | announce => exact Or.inl ⟨_ :: us, ts, by rw [← hlayers]; rfl⟩
  | leave htears =>
    cases us with
    | nil =>
      cases hlayers
      refine Or.inr (Or.inr ⟨?_, rfl⟩)
      simp
    | cons u us =>
      cases hlayers
      exact Or.inl ⟨us, ts, rfl⟩
  | work t =>
    cases us with
    | nil =>
      cases ts with
      | nil =>
        cases hlayers
        exact Or.inr (Or.inl ⟨rfl, rfl⟩)
      | cons _ ts =>
        cases hlayers
        exact Or.inl ⟨[], r.next t ++ ts, by simp⟩
    | cons u us =>
      cases hlayers
      exact Or.inl ⟨_ :: us, ts, rfl⟩

end Within

namespace Machine

variable {role : Role} {m m' k k' : Machine C} {w w' : World C} {ls : List (List (Task C))}

def CallbackPanics (m : Machine C) : Prop :=
  match m.control with
  | .unwind _ s => s.OfCallback
  | _ => False

def Replaces (m : Machine C) (n : Name) (handle : Entrusted C .callback) : Prop :=
  m.world.registry.handles.find? n = some handle ∧ ∃ code, m.change = .addHandle n code

/--
What the next step of a machine begins has come back in another machine, and all the machines in
between, of which something is true, are at it.
-/
def CallsBy (P : Machine C → Prop) (m m' : Machine C) : Prop :=
  ∃ k, m.step = some k ∧ k.LeadsBy (fun i => m.layers.length < i.layers.length ∧ P i) m'

theorem callsBy_mono {P Q : Machine C → Prop} (h : m.CallsBy P m') (hPQ : ∀ k, P k → Q k) :
    m.CallsBy Q m' := by
  obtain ⟨k, hstep, hleads⟩ := h
  exact ⟨k, hstep, leadsBy_mono hleads fun i hi => ⟨hi.1, hPQ i hi.2⟩⟩

theorem leads_of_callsBy {P : Machine C → Prop} (h : m.CallsBy P m') : m.Leads m' := by
  obtain ⟨k, hstep, hleads⟩ := h
  exact .head ⟨trivial, hstep⟩ (leads_of_leadsBy hleads)

theorem lost_eq_nil (h : ¬ m.CallbackPanics) : m.lost = [] := by
  obtain ⟨w, control⟩ := m
  cases control with
  | unwind text s =>
    cases s with
    | settling n ticket tasks next s => exact absurd trivial h
    | _ => rfl
  | _ => rfl

theorem exists_unwind_of_lost (h : m.lost ≠ []) (hstep : m.step = some m') :
    ∃ (r : Role) (text : String) (s : Stack C r), m'.control = .unwind text s := by
  obtain ⟨w, control⟩ := m
  cases control with
  | unwind text s =>
    cases s with
    | settling n ticket tasks next s =>
      cases hstep
      exact ⟨_, text, s, rfl⟩
    | _ => exact absurd rfl h
  | _ => exact absurd rfl h

theorem change_ne_wipe (p : Program C role) (s : Stack C role) : w.change p s ≠ .wipe := by
  intro h
  cases p with
  | done result => cases s <;> cases h
  | lookup n allowEarly next =>
    simp only [World.change] at h
    cases hlookup : w.registry.lookup n allowEarly <;> rw [hlookup] at h <;> cases h
  | getOrCreate n factory next =>
    simp only [World.change] at h
    cases hstart : w.registry.startCreation n <;> rw [hstart] at h <;> cases h
  | _ => cases h

theorem exists_tear_of_wipe (h : m.change = .wipe) :
    ∃ (r : Role) (ts : List (Task C)) (next : Program C r) (s : Stack C r),
      m.control = .tear (.wipe :: ts) next s := by
  obtain ⟨w, control⟩ := m
  cases control with
  | run p s => exact absurd h (change_ne_wipe p s)
  | tear tasks next s =>
    cases tasks with
    | nil => cases h
    | cons t tasks =>
      cases t with
      | wipe => exact ⟨_, tasks, next, s, rfl⟩
      | _ => cases h
  | unwind text s => cases s <;> cases h
  | halted outcome => cases h

inductive Wiping (ls : List (List (Task C))) (m : Machine C) : Prop
  | work (us : List (List (Task C))) (ts : List (Task C))
    (hlayers : m.layers = us ++ (ts ++ [.wipe]) :: ls)
  | done {r : Role} (next : Program C r) (s : Stack C r) (hcontrol : m.control = .tear [] next s)
    (hlayers : s.layers = ls) (hblank : m.world.registry.Blank)
  | back (hlayers : m.layers = ls) (hblank : m.world.registry.Blank)
  | lost {r : Role} (text : String) (s : Stack C r) (hcontrol : m.control = .unwind text s)
    (hlayers : m.layers = ls)

theorem Wiping.step (h : m.Wiping ls) (hdeep : ls.length < m.layers.length)
    (hstep : m.step = some m') : m'.Wiping ls := by
  cases h with
  | work us ts hlayers =>
    have hmove := move_of_step hstep
    rw [hlayers] at hmove
    cases hmove.wiping with
    | inl hwork =>
      obtain ⟨us', ts', hlayers'⟩ := hwork
      exact .work us' ts' hlayers'
    | inr hmove =>
      cases hmove with
      | inl hdone =>
        obtain ⟨r, tasks, next, s, hcontrol⟩ := exists_tear_of_wipe hdone.1
        obtain ⟨w, control⟩ := m
        cases hcontrol
        cases hstep
        have heq : tasks :: s.layers = [] :: ls := hdone.2
        rw [List.cons.injEq] at heq
        rw [heq.1]
        exact .done next s rfl heq.2 (Registry.blank_wipe _)
      | inr hlost =>
        obtain ⟨r, text, s, hcontrol⟩ := exists_unwind_of_lost hlost.1 hstep
        exact .lost text s hcontrol hlost.2
  | done next s hcontrol hlayers hblank =>
    obtain ⟨w, control⟩ := m
    cases hcontrol
    cases hstep
    exact .back hlayers hblank
  | back hlayers => exact absurd hdeep (by rw [hlayers]; exact Nat.lt_irrefl _)
  | lost text s hcontrol hlayers => exact absurd hdeep (by rw [hlayers]; exact Nat.lt_irrefl _)

theorem wiping_of_leadsBy {P : Machine C → Prop}
    (h : m.LeadsBy (fun i => ls.length < i.layers.length ∧ P i) m') (hm : m.Wiping ls) :
    m'.Wiping ls := by
  induction h with
  | refl => exact hm
  | tail _ hstep ih => exact ih.step hstep.1.1 hstep.2

theorem layers_run (p : Program C role) (s : Stack C role) : (w.run p s).layers = s.layers :=
  rfl

theorem blank_of_callsBy {P : Machine C → Prop} {next : Program C role} {s : Stack C role}
    (h : (w.run (.destroyAll next) s).CallsBy P (w'.run next s)) : w'.registry.Blank := by
  obtain ⟨k, hstep, hleads⟩ := h
  cases hstep
  have hwiping : (w'.run next s).Wiping s.layers := by
    apply wiping_of_leadsBy hleads
    exact .work [] (w.registry.handles.keys.reverse.map .visit) rfl
  cases hwiping with
  | work us ts hlayers =>
    -- the stack is as high as before, so that the teardown cannot be going on above it
    have hlength := congrArg List.length hlayers
    rw [layers_run, List.length_append, List.length_cons] at hlength
    omega
  | done next' s' hcontrol => cases hcontrol
  | back hlayers hblank => exact hblank
  | lost text s' hcontrol => cases hcontrol

theorem handled_of_leadsBy {n : Name} {handle : Entrusted C .callback}
    {us : List (List (Task C))}
    (h : m.LeadsBy (fun i => ls.length < i.layers.length ∧ ¬ i.CallbackPanics ∧
      ¬ i.Replaces n handle) m')
    (hlayers : m.layers = us ++ ls)
    (hm : Handled n handle m.world.registry.handles [] us) :
    ∃ new us', m'.world.calls = new ++ m.world.calls ∧ m'.layers = us' ++ ls ∧
      Handled n handle m'.world.registry.handles new us' := by
  induction h with
  | refl => exact ⟨[], us, rfl, hlayers, hm⟩
  | @tail i m' _ hstep ih =>
    obtain ⟨new, us', hcalls, hlayers', hhandled⟩ := ih
    obtain ⟨⟨hdeep, hpanic, hreplaces⟩, hstep⟩ := hstep
    have hmove := move_of_step hstep
    rw [hcalls, hlayers', lost_eq_nil hpanic] at hmove
    rw [hlayers', List.length_append] at hdeep
    obtain ⟨new', us'', hcalls', hlayers'', hwithin⟩ :=
      hmove.within (List.ne_nil_of_length_pos (by omega))
    refine ⟨new', us'', hcalls', hlayers'', ?_⟩
    rw [(shift_of_step hstep).handles_eq]
    apply hwithin.handled _ hhandled
    intro hfind code hchange
    exact hreplaces ⟨hfind, code, hchange⟩

theorem called_of_callsBy {next : Program C role} {s : Stack C role} {n : Name}
    {handle : Entrusted C .callback} (hfind : w.registry.handles.find? n = some handle)
    (h : (w.run (.destroyAll next) s).CallsBy
      (fun i => ¬ i.CallbackPanics ∧ ¬ i.Replaces n handle) (w'.run next s)) :
    ∃ calls, w'.calls = calls ++ w.calls ∧ .callback n handle.ticket ∈ calls := by
  obtain ⟨k, hstep, hleads⟩ := h
  cases hstep
  have hhandled : Handled n handle w.registry.handles []
      [w.registry.handles.keys.reverse.map .visit ++ [.wipe]] := by
    have hkey : n ∈ w.registry.handles.keys := by
      rw [← Table.contains_iff, Table.contains, hfind]
      rfl
    exact Or.inl ⟨hfind, by simp [hkey]⟩
  obtain ⟨calls, us, hcalls, hlayers, hhandled⟩ := handled_of_leadsBy hleads rfl hhandled
  -- nothing is left above the stack, so that the handle has been run
  rw [layers_run, layers_run, List.self_eq_append_left] at hlayers
  refine ⟨calls, hcalls, ?_⟩
  rw [hlayers] at hhandled
  cases hhandled with
  | inl hvisit => cases hvisit.2
  | inr hhandled =>
    cases hhandled with
    | inl hsettle => cases hsettle
    | inr hcalled => exact hcalled

/--
No handle is run twice, and every handle that is registered is a new one. The handles stand in the
order of first registration. When the teardown of everything comes back, nothing is left. If no
callback has panicked, it has run each handle that was there at the beginning and has not been
replaced. Without edges, and if callbacks keep to themselves, it runs the handles from the last one
to the first, up to one that panics.
-/
theorem shutdown_runs_handles (config : Config) (resolver : Option (Name → Name)) (state : C.State)
    (p : Program C .block) (hm : (start (.fresh config resolver state) p).Leads m) :
    (m.world.calls.filterMap Body.ticket?).Nodup ∧
    (∀ n code, m.change = .addHandle n code → ¬ code.ticket ∈ m.owned) ∧
    (∀ a b, a ≠ b → m.Holds a → m.Holds b → ([a, b].Sublist m.world.registry.handles.keys ↔
      ∃ k, (start (.fresh config resolver state) p).Leads k ∧ ¬ k.Holds b ∧
        k.LeadsBy (fun i => i.Holds a) m)) ∧
    ∀ (r : Role) (next : Program C r) (s : Stack C r), m.control = .run (.destroyAll next) s →
      (∀ w' : World C, m.CallsBy (fun _ => True) (w'.run next s) → w'.registry.Blank) ∧
      (∀ (w' : World C) n handle, m.world.registry.handles.find? n = some handle →
        m.CallsBy (fun i => ¬ i.CallbackPanics ∧ ¬ i.Replaces n handle) (w'.run next s) →
        ∃ calls, w'.calls = calls ++ m.world.calls ∧ .callback n handle.ticket ∈ calls) ∧
      (m.world.registry.graph.Edgeless → m.world.registry.handles.Alone →
        ∃ (w' : World C) (rest ran : List (Name × Entrusted C .callback)),
          m.world.registry.handles.entries = rest ++ ran ∧
          w'.calls = (ran.map fun e => .callback e.1 e.2.ticket) ++ m.world.calls ∧
          (rest = [] ∧ m.Leads (w'.run next s) ∨
          ∃ e more text, ran = e :: more ∧ ¬ e.2.code.Quiet ∧ m.Leads ⟨w', .unwind text s⟩)) := by
  refine ⟨?_, ?_, ?_, ?_⟩
  · rw [List.nodup_iff_count_le_one]
    intro ticket
    have hcount := (owned_of_leads config resolver state p hm ticket).1
    rw [owned, count_owned] at hcount
    omega
  · intro n code hchange hmem
    have hcount := (owned_of_leads config resolver state p hm code.ticket).2
    cases fresh_of_change m with
    | inl hfresh =>
      rw [hchange] at hfresh
      cases hfresh
    | inr hfresh =>
      have hticket : [code.ticket] = [m.world.tickets] := by
        rw [← hfresh.2, hchange]
        rfl
      rw [List.cons.injEq] at hticket
      rw [← List.count_pos_iff, hcount (Nat.le_of_eq hticket.1.symm)] at hmem
      exact Nat.lt_irrefl 0 hmem
  · intro a b hne ha hb
    exact sublist_keys_iff hm rfl hne ha hb
  · intro r next s hcontrol
    obtain ⟨w, control⟩ := m
    cases hcontrol
    refine ⟨?_, ?_, ?_⟩
    · intro w' hcalls
      exact blank_of_callsBy hcalls
    · intro w' n handle hfind hcalls
      exact called_of_callsBy hfind hcalls
    · intro hedges halone
      exact leads_of_edgeless hedges halone next s

def meddling : Program .plain .block :=
  .addHandle "a" (.done (.ok ()))
    (.addHandle "b" (.destroy "a" (.done (.ok ()))) (.destroyAll (.done ())))

theorem callsBy_meddling : ∃ w : World .plain,
    (start (.fresh {} none ()) meddling).Leads (w.run (.destroyAll (.done ())) .bottom) ∧
      w.registry.handles.find? "a" = some ⟨0, .done (.ok ())⟩ ∧
      w.registry.handles.find? "b" = some ⟨1, .destroy "a" (.done (.ok ()))⟩ ∧
      ∃ w' : World .plain, (w.run (.destroyAll (.done ())) .bottom).CallsBy
        (fun i => ¬ i.CallbackPanics ∧ ∀ n handle, ¬ i.Replaces n handle)
        (w'.run (.done ()) .bottom) := by
  refine ⟨_, .tail (.tail .refl ⟨trivial, rfl⟩) ⟨trivial, rfl⟩, rfl, rfl, ?_⟩
  apply Exists.intro
  refine ⟨_, rfl, ?_⟩
  iterate 17
    refine .head ⟨⟨by decide, id, ?_⟩, rfl⟩ ?_
    · rintro n handle ⟨_, code, hchange⟩
      cases hchange
  exact .refl

theorem shutdown_of_meddling : ∃ w w' : World .plain,
    (start (.fresh {} none ()) meddling).Leads (w.run (.destroyAll (.done ())) .bottom) ∧
      (w.run (.destroyAll (.done ())) .bottom).Leads (w'.run (.done ()) .bottom) ∧
      w'.registry.Blank ∧ .callback "a" 0 ∈ w'.calls ∧ .callback "b" 1 ∈ w'.calls ∧
      (w'.calls.filterMap Body.ticket?).Nodup := by
  obtain ⟨w, hleads, ha, hb, w', hcalls⟩ := callsBy_meddling
  obtain ⟨_, _, _, hshutdown⟩ := shutdown_runs_handles {} none () meddling hleads
  obtain ⟨hblank, hcalled, _⟩ := hshutdown _ (.done ()) .bottom rfl
  obtain ⟨_, hcalls_a, hmem_a⟩ :=
    hcalled w' "a" _ ha (callsBy_mono hcalls fun i hi => ⟨hi.1, hi.2 "a" _⟩)
  obtain ⟨_, hcalls_b, hmem_b⟩ :=
    hcalled w' "b" _ hb (callsBy_mono hcalls fun i hi => ⟨hi.1, hi.2 "b" _⟩)
  have hback := leads_of_callsBy hcalls
  refine ⟨w, w', hleads, hback, hblank w' (callsBy_mono hcalls fun _ _ => trivial), ?_, ?_, ?_⟩
  · rw [hcalls_a]
    exact List.mem_append_left _ hmem_a
  · rw [hcalls_b]
    exact List.mem_append_left _ hmem_b
  · exact (shutdown_runs_handles {} none () meddling (hleads.trans hback)).1

end Machine

end InstanceRegistry
