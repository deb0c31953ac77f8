import InstanceRegistry.Proofs.Creation.Outcome
import InstanceRegistry.Proofs.Teardown.Agenda
import InstanceRegistry.Proofs.Teardown.Closure
import Mathlib.Data.List.Perm.Basic

/-!
This module contains what becomes of destroy handles. A handle is registered, then it waits for its
turn, and then it has been run; it is never in two of these places (`Machine.owned_of_leads`). The
handles that are registered stand in the order of their first registration
(`Machine.sublist_keys_iff`).
-/

namespace InstanceRegistry

variable {C : Client}

def Body.ticket? : Body → Option Nat
  | .factory _ => none
  | .early _ ticket => some ticket
  | .callback _ ticket => some ticket

def Change.handles (handles : Table (Entrusted C .callback)) :
    Change C → Table (Entrusted C .callback)
  | addHandle n code => handles.insert n code
  | visit n => handles.erase n
  | _ => handles

def Change.fresh : Change C → List Nat
  | addHandle _ code => [code.ticket]
  | _ => []

def Change.tickets : Change C → Nat
  | addEarlyFactory _ _ => 1
  | addHandle _ _ => 1
  | _ => 0

theorem Shift.handles_eq {change : Change C} {r r' : C.Store} {cs cs' : List Creation}
    (h : Shift change r cs r' cs') : r'.handles = change.handles r.handles := by
  cases h with
  | perform o => exact Registry.perform_handles ..
  | start hstart =>
    obtain ⟨_, _, _, _, _, hr⟩ := Registry.startCreation_eq_started hstart
    rw [hr]
    rfl
  | conclude c result =>
    rw [Registry.conclude_eq]
    rfl
  | rollback c =>
    rw [Registry.rollback_eq]
    rfl
  | _ => rfl

def owned (calls : List Body) (ls : List (List (Task C)))
    (handles : Table (Entrusted C .callback)) : List Nat :=
  (calls ++ Task.calls ls.flatten).filterMap Body.ticket? ++
    handles.flatMap fun handle => [handle.ticket]

section Count

variable {r : C.Store} {change : Change C} (ticket : Nat)

theorem count_owned (calls : List Body) (ls : List (List (Task C)))
    (handles : Table (Entrusted C .callback)) :
    (owned calls ls handles).count ticket = (calls.filterMap Body.ticket?).count ticket +
      ((Task.calls ls.flatten).filterMap Body.ticket?).count ticket +
      (handles.flatMap fun handle => [handle.ticket]).count ticket := by
  unfold owned
  rw [List.count_append, List.filterMap_append, List.count_append]

theorem count_handles_le (h : ¬ change.Tears) (handles : Table (Entrusted C .callback)) :
    ((change.handles handles).flatMap fun handle => [handle.ticket]).count ticket ≤
      (handles.flatMap fun handle => [handle.ticket]).count ticket +
        change.fresh.count ticket := by
  cases change with
  | addHandle n code =>
    rw [Nat.add_comm]
    apply Table.count_flatMap_insert_le
  | visit n => exact absurd trivial h
  | _ => exact Nat.le_add_right ..

theorem Registry.calls_next_visit (r : C.Store) (n : Name) :
    Task.calls (r.next (.visit n)) =
      (r.handles.find? n).toList.map fun handle => .callback n handle.ticket := by
  unfold next
  rw [Task.calls_append, Task.calls_append, Task.calls_visit]
  cases r.handles.find? n with
  | none => rfl
  | some handle => rfl

theorem Registry.calls_next_release (r : C.Store) (n : Name) :
    Task.calls (r.next (.release n)) = [] := by
  unfold next
  rw [Task.calls_append, Task.calls_visit]
  rfl

theorem count_next_le (r : C.Store) (t : Task C) :
    ((Task.calls (r.next t)).filterMap Body.ticket?).count ticket +
      ((t.change.handles r.handles).flatMap fun handle => [handle.ticket]).count ticket ≤
        (r.handles.flatMap fun handle => [handle.ticket]).count ticket := by
  cases t with
  | visit n =>
    rw [Registry.calls_next_visit]
    dsimp only [Task.change, Change.handles]
    cases hfind : r.handles.find? n with
    | none =>
      rw [Table.erase_of_find?_eq_none hfind]
      simp
    | some handle =>
      -- the handle goes from the table to the line
      have hperm := Table.flatMap_perm_of_find?_eq_some hfind fun handle => [handle.ticket]
      rw [hperm.count_eq, List.count_append]
      exact Nat.le_refl _
  | release n =>
    rw [Registry.calls_next_release]
    simp [Task.change, Change.handles]
  | _ => simp [Registry.next, Task.change, Change.handles]

theorem Move.count_owned_le {lost : List (Task C)} {calls calls' : List Body}
    {ls ls' : List (List (Task C))} (h : Move r change lost calls ls calls' ls') :
    (owned calls' ls' (change.handles r.handles)).count ticket ≤
      (owned calls ls r.handles).count ticket + change.fresh.count ticket := by
  rw [count_owned, count_owned]
  cases h with
  | stay htears =>
    have hhandles := count_handles_le ticket htears r.handles
    omega
  | enter htears =>
    have hhandles := count_handles_le ticket htears r.handles
    rw [List.flatten_cons, List.nil_append]
    omega
  | leave htears =>
    have hhandles := count_handles_le ticket htears r.handles
    rw [List.flatten_cons, Task.calls_append, List.filterMap_append, List.count_append]
    omega
  | destroy n => exact Nat.le_add_right ..
  | announce =>
    rw [List.flatten_cons, Task.calls_append, Task.calls_append, Task.calls_visit]
    exact Nat.le_add_right ..
  | work t =>
    have hnext := count_next_le ticket r t
    simp only [List.flatten_cons, List.cons_append, List.append_assoc, Task.calls_cons,
      Task.calls_append, List.filterMap_append, List.count_append]
    omega

end Count

namespace Machine

def owned (m : Machine C) : List Nat :=
  InstanceRegistry.owned m.world.calls m.layers m.world.registry.handles

variable {w : World C} {r : Role} {m m' : Machine C}

theorem tickets_finish (result : C.Result r) (s : Stack C r) :
    (w.finish result s).world.tickets = w.tickets + (s.changeAtEnd result).tickets := by
  cases s <;> rfl

theorem tickets_exec (p : Program C r) (s : Stack C r) :
    (w.exec p s).world.tickets = w.tickets + (w.change p s).tickets := by
  cases p with
  | done result => apply tickets_finish
  | lookup n allowEarly next =>
    simp only [World.exec, World.lookup, World.change]
    cases w.registry.lookup n allowEarly <;> rfl
  | getOrCreate n factory next =>
    simp only [World.exec, World.getOrCreate, World.change]
    cases w.registry.startCreation n <;> rfl
  | _ => rfl

theorem tickets_of_step (h : m.step = some m') :
    m'.world.tickets = m.world.tickets + m.change.tickets := by
  obtain ⟨w, control⟩ := m
  cases control with
  | run p s =>
    cases h
    apply tickets_exec
  | tear tasks next s =>
    cases tasks with
    | nil =>
      cases h
      rfl
    | cons t tasks =>
      cases h
      cases t <;> rfl
  | unwind text s =>
    cases h
    cases s <;> rfl
  | halted outcome => cases h

theorem fresh_change (p : Program C r) (s : Stack C r) :
    (w.change p s).fresh = [] ∨
      (w.change p s).tickets = 1 ∧ (w.change p s).fresh = [w.tickets] := by
  cases p with
  | done result =>
    cases s <;> exact Or.inl rfl
  | lookup n allowEarly next =>
    simp only [World.change]
    cases w.registry.lookup n allowEarly <;> exact Or.inl rfl
  | getOrCreate n factory next =>
    simp only [World.change]
    cases w.registry.startCreation n <;> exact Or.inl rfl
  | addHandle n code next => exact Or.inr ⟨rfl, rfl⟩
  | _ => exact Or.inl rfl

theorem fresh_of_change (m : Machine C) :
    m.change.fresh = [] ∨ m.change.tickets = 1 ∧ m.change.fresh = [m.world.tickets] := by
  obtain ⟨w, control⟩ := m
  cases control with
  | run p s => apply fresh_change
  | tear tasks next s =>
    cases tasks with
    | nil => exact Or.inl rfl
    | cons t tasks =>
      cases t <;> exact Or.inl rfl
  | unwind text s =>
    cases s <;> exact Or.inl rfl
  | halted outcome => exact Or.inl rfl

theorem owned_of_leads (config : Config) (resolver : Option (Name → Name)) (state : C.State)
    (p : Program C .block) (h : (start (.fresh config resolver state) p).Leads m) (ticket : Nat) :
    m.owned.count ticket ≤ 1 ∧ (m.world.tickets ≤ ticket → m.owned.count ticket = 0) := by
  induction h with
  | refl => exact ⟨Nat.zero_le 1, fun _ => rfl⟩
  | @tail m m' _ hstep ih =>
    have hcount := (move_of_step hstep.2).count_owned_le ticket
    rw [← (shift_of_step hstep.2).handles_eq] at hcount
    have htickets := tickets_of_step hstep.2
    unfold owned at ih ⊢
    cases fresh_of_change m with
    | inl hfresh =>
      rw [hfresh, List.count_nil] at hcount
      omega
    | inr hfresh =>
      rw [hfresh.2] at hcount
      rw [hfresh.1] at htickets
      -- no callback has had the next ticket before
      by_cases hticket : m.world.tickets = ticket
      · rw [hticket, List.count_singleton_self] at hcount
        omega
      · rw [List.count_singleton, if_neg (by simpa using hticket)] at hcount
        omega

end Machine

section Keys

variable {a b : Name} {change : Change C} {handles : Table (Entrusted C .callback)}

theorem sublist_keys_of_change (ha : a ∈ handles.keys) (ha' : a ∈ (change.handles handles).keys)
    (hb : b ∈ handles.keys → [a, b].Sublist handles.keys)
    (hb' : b ∈ (change.handles handles).keys) : [a, b].Sublist (change.handles handles).keys := by
  cases change with
  | addHandle n code =>
    -- a new name comes to the end
    simp only [Change.handles, Table.keys_insert] at hb' ⊢
    split
    · next hn =>
      rw [if_pos hn] at hb'
      exact hb hb'
    · next hn =>
      rw [if_neg hn, List.mem_append] at hb'
      cases hb' with
      | inl hb' => exact (hb hb').trans (List.sublist_append_left ..)
      | inr hb' => exact (List.singleton_sublist.mpr ha).append (List.singleton_sublist.mpr hb')
  | visit n =>
    simp only [Change.handles, Table.keys_erase, List.mem_filter, decide_eq_true_eq] at ha' hb' ⊢
    have hsublist := (hb hb'.1).filter fun m => decide (m ≠ n)
    simpa [ha'.2, hb'.2] using hsublist
  | _ => exact hb hb'

theorem eq_of_change (ha : ¬ a ∈ handles.keys) (hb : ¬ b ∈ handles.keys)
    (ha' : a ∈ (change.handles handles).keys) (hb' : b ∈ (change.handles handles).keys) :
    a = b := by
  cases change with
  | addHandle n code =>
    simp only [Change.handles, Table.keys_insert] at ha' hb'
    split at ha'
    · exact absurd ha' ha
    · next hn =>
      rw [if_neg hn] at hb'
      rw [List.mem_append, List.mem_singleton] at ha' hb'
      rw [ha'.resolve_left ha, hb'.resolve_left hb]
  | visit n =>
    simp only [Change.handles, Table.keys_erase, List.mem_filter] at ha'
    exact absurd ha'.1 ha
  | _ => exact absurd ha' ha

end Keys

namespace Machine

def Holds (m : Machine C) (n : Name) : Prop :=
  n ∈ m.world.registry.handles.keys

variable {j m : Machine C} {a b : Name}

theorem sublist_keys_of_leadsBy (h : j.LeadsBy (fun k => k.Holds a) m) (hj : ¬ j.Holds b)
    (ha : m.Holds a) (hb : m.Holds b) : [a, b].Sublist m.world.registry.handles.keys := by
  induction h with
  | refl => exact absurd hb hj
  | tail _ hstep ih =>
    have hhandles := (shift_of_step hstep.2).handles_eq
    unfold Holds at ha hb
    rw [hhandles] at ha hb ⊢
    exact sublist_keys_of_change hstep.1 ha (fun hb => ih hstep.1 hb) hb

theorem exists_first (h : j.Leads m) (hne : a ≠ b) (hja : ¬ j.Holds a) (ha : m.Holds a)
    (hb : m.Holds b) :
    (∃ k, j.Leads k ∧ ¬ k.Holds b ∧ k.LeadsBy (fun i => i.Holds a) m) ∨
      ∃ k, j.Leads k ∧ ¬ k.Holds a ∧ k.LeadsBy (fun i => i.Holds b) m := by
  induction h with
  | refl => exact absurd ha hja
  | @tail k m hk hstep ih =>
    by_cases hka : k.Holds a
    · by_cases hkb : k.Holds b
      · cases ih hka hkb with
        | inl hfirst =>
          obtain ⟨i, hi, hib, hik⟩ := hfirst
          exact Or.inl ⟨i, hi, hib, hik.tail ⟨hka, hstep.2⟩⟩
        | inr hfirst =>
          obtain ⟨i, hi, hia, hik⟩ := hfirst
          exact Or.inr ⟨i, hi, hia, hik.tail ⟨hkb, hstep.2⟩⟩
      · exact Or.inl ⟨k, hk, hkb, .single ⟨hka, hstep.2⟩⟩
    · by_cases hkb : k.Holds b
      · exact Or.inr ⟨k, hk, hka, .single ⟨hkb, hstep.2⟩⟩
      · unfold Holds at ha hb
        rw [(shift_of_step hstep.2).handles_eq] at ha hb
        exact absurd (eq_of_change hka hkb ha hb) hne

theorem sublist_keys_iff (h : j.Leads m) (hj : j.world.registry.handles = ∅) (hne : a ≠ b)
    (ha : m.Holds a) (hb : m.Holds b) :
    [a, b].Sublist m.world.registry.handles.keys ↔
      ∃ k, j.Leads k ∧ ¬ k.Holds b ∧ k.LeadsBy (fun i => i.Holds a) m := by
  constructor
  · intro hsublist
    have hja : ¬ j.Holds a := by
      rw [Holds, hj]
      exact List.not_mem_nil
    cases exists_first h hne hja ha hb with
    | inl hfirst => exact hfirst
    | inr hfirst =>
      obtain ⟨k, _, hka, hleads⟩ := hfirst
      have hswap := sublist_keys_of_leadsBy hleads hka hb ha
      have hnodup := m.world.registry.handles.keys_nodup
      have heq := (hnodup.perm_iff_eq_of_sublist hsublist hswap).mp (List.Perm.swap ..)
      rw [List.cons.injEq] at heq
      exact absurd heq.1 hne
  · intro hfirst
    obtain ⟨k, _, hkb, hleads⟩ := hfirst
    exact sublist_keys_of_leadsBy hleads hkb ha hb

end Machine

end InstanceRegistry
