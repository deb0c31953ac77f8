import InstanceRegistry.Bag
import InstanceRegistry.Machine

/-!
This module contains what a machine still has to do: the bag of all the code that it holds, running,
waiting or stored, and the effort of the teardown that it is at. No operation of the registry adds
to the code that it stores.
-/

namespace InstanceRegistry

variable {C : Client}

inductive Code (C : Client) : Type 1 where
  | program {r : Role} (p : Program C r)
  | reply {r : Role} {α : Type} (next : α → Program C r)

namespace Code

def After (c : Code C) : Code C → Prop
  | .program (.done _) => False
  | .program (.panic _) => False
  | .program (.read next) => ∃ s, c = .program (next s)
  | .program (.write _ next) => c = .program next
  | .program (.note _ next) => c = .program next
  | .program (.call _ next) => ∃ a, c = .program (next a)
  | .program (.lookup _ _ next) => c = .reply next ∨ ∃ i, c = .program (next i)
  | .program (.getOrCreate _ factory next) =>
    c = .program factory ∨ c = .reply next ∨ ∃ a, c = .program (next a)
  | .program (.addEarlyFactory _ code next) => c = .program code ∨ c = .program next
  | .program (.addHandle _ code next) => c = .program code ∨ c = .program next
  | .program (.destroy _ next) => c = .program next
  | .program (.destroyAll next) => c = .program next
  | .program (.attempt body next) => c = .program body ∨ c = .reply next
  | .reply next => ∃ a, c = .program (next a)

theorem acc_reply {r : Role} {α : Type} {next : α → Program C r}
    (h : ∀ a, Acc After (.program (next a))) : Acc After (.reply next : Code C) := by
  constructor
  rintro c ⟨a, rfl⟩
  exact h a

theorem acc_program {r : Role} (p : Program C r) : Acc After (.program p) := by
  induction p with
  | done => exact Acc.intro _ fun c h => h.elim
  | panic => exact Acc.intro _ fun c h => h.elim
  | read next ih =>
    constructor
    rintro c ⟨s, rfl⟩
    exact ih s
  | write _ next ih =>
    constructor
    rintro c rfl
    exact ih
  | note _ next ih =>
    constructor
    rintro c rfl
    exact ih
  | call _ next ih =>
    constructor
    rintro c ⟨a, rfl⟩
    exact ih a
  | lookup _ _ next ih =>
    constructor
    rintro c (rfl | ⟨i, rfl⟩)
    · exact acc_reply ih
    · exact ih i
  | getOrCreate _ factory next ihf ih =>
    constructor
    rintro c (rfl | rfl | ⟨a, rfl⟩)
    · exact ihf
    · exact acc_reply ih
    · exact ih a
  | addEarlyFactory _ code next ihc ih =>
    constructor
    rintro c (rfl | rfl)
    · exact ihc
    · exact ih
  | addHandle _ code next ihc ih =>
    constructor
    rintro c (rfl | rfl)
    · exact ihc
    · exact ih
  | destroy _ next ih =>
    constructor
    rintro c rfl
    exact ih
  | destroyAll next ih =>
    constructor
    rintro c rfl
    exact ih
  | attempt body next ihb ih =>
    constructor
    rintro c (rfl | rfl)
    · exact ihb
    · exact acc_reply ih

theorem after_wellFounded : WellFounded (After (C := C)) := by
  constructor
  intro c
  cases c with
  | program p => exact acc_program p
  | reply next => exact acc_reply fun a => acc_program (next a)

end Code

def Slot.codes : Slot (Entrusted C .early) → List (Code C)
  | .pending e => [.program e.code]
  | .early _ => []

def Entrusted.codes {r : Role} (e : Entrusted C r) : List (Code C) :=
  [.program e.code]

def Registry.codes (r : Registry (Entrusted C .early) (Entrusted C .callback)) : List (Code C) :=
  r.cache.slots.flatMap Slot.codes ++ r.handles.flatMap Entrusted.codes

def Task.codes : Task C → List (Code C)
  | .settle _ handle => handle.codes
  | _ => []

def Stack.codes : {r : Role} → Stack C r → List (Code C)
  | _, .bottom => []
  | _, .creating _ next s => .reply next :: s.codes
  | _, .exposing _ _ next s => .reply next :: s.codes
  | _, .settling _ _ tasks next s => tasks.flatMap Task.codes ++ .program next :: s.codes
  | _, .attempting next s => .reply next :: s.codes

def Control.codes : Control C → List (Code C)
  | .run p s => .program p :: s.codes
  | .tear tasks next s => tasks.flatMap Task.codes ++ .program next :: s.codes
  | .unwind _ s => s.codes
  | .halted _ => []

def Machine.codes (m : Machine C) : List (Code C) :=
  m.control.codes ++ m.world.registry.codes

def Task.effort : Task C → Nat
  | .visit _ => 4
  | .settle _ _ => 1
  | .release _ => 2
  | .scrub _ => 1
  | .wipe => 1

def Task.efforts : List (Task C) → Nat
  | [] => 0
  | t :: tasks => t.effort + efforts tasks

def Machine.effort (m : Machine C) : Nat :=
  let edges := m.world.registry.graph.dependents.count + m.world.registry.graph.contained.count
  match m.control with
  | .run _ _ => 0
  -- the edges that a task takes out of the graph pay for the visits that it adds
  | .tear tasks _ _ => 1 + Task.efforts tasks + 4 * edges
  | .unwind _ _ => 1
  | .halted _ => 0

namespace Table

universe u

variable {α : Type} {β : Type u} [DecidableEq β] (t : Table α) (n : Name) (f : α → List β) (b : β)

theorem count_flatMap_erase_le : ((t.erase n).flatMap f).count b ≤ (t.flatMap f).count b := by
  cases h : t.find? n with
  | none => exact Nat.le_of_eq (by rw [erase_of_find?_eq_none h])
  | some a =>
    have := (flatMap_perm_of_find?_eq_some h f).count_eq b
    rw [List.count_append] at this
    omega

theorem count_flatMap_insert_le (a : α) :
    ((t.insert n a).flatMap f).count b ≤ (f a).count b + (t.flatMap f).count b := by
  have h₁ := (flatMap_insert_perm t n a f).count_eq b
  have h₂ := count_flatMap_erase_le t n f b
  rw [List.count_append] at h₁
  omega

end Table

namespace Registry

open Classical

variable (r : Registry (Entrusted C .early) (Entrusted C .callback)) (n : Name) (c : Code C)

theorem count_codes : r.codes.count c =
    (r.cache.slots.flatMap Slot.codes).count c + (r.handles.flatMap Entrusted.codes).count c :=
  List.count_append

theorem count_codes_perform_le (o : Operation) :
    (r.perform o).registry.codes.count c ≤ r.codes.count c := by
  have herase := Table.count_flatMap_erase_le r.cache.slots (f := Slot.codes) (b := c)
  cases o with
  | register n i =>
    simp only [perform, register, Cache.register]
    split
    case h_1 => exact Nat.le_refl _
    case h_2 h =>
      split at h
      · cases h
      · cases h
        have := herase n
        simp only [count_codes, Cache.publish]
        omega
  | remove n =>
    have := herase n
    simp only [perform, count_codes, Cache.remove, Cache.discard]
    omega
  | clear =>
    simp only [perform, count_codes, Cache.clear, Table.flatMap_empty, List.count_nil]
    omega
  | addAlias name nick =>
    simp only [perform, addAlias]
    split <;> exact Nat.le_refl _
  | removeAlias nick =>
    simp only [perform, removeAlias]
    split <;> exact Nat.le_refl _
  | _ => exact Nat.le_refl _

theorem codes_of_startCreation {creation : Creation}
    {r' : Registry (Entrusted C .early) (Entrusted C .callback)}
    (h : r.startCreation n = .started creation r') : r'.codes = r.codes := by
  simp only [startCreation] at h
  split at h
  · cases h
  · split at h
    · cases h
    · split at h
      · cases h
      · cases h
        rfl

theorem count_codes_of_lookup {e : Entrusted C .early} {allowEarly : Bool}
    (h : r.lookup n allowEarly = .consult e) :
    r.codes.count c =
      e.codes.count c + (codes { r with cache := r.cache.takeSlot n }).count c := by
  have hslot : r.cache.slots.find? n = some (.pending e) := by
    simp only [lookup] at h
    split at h
    · cases h
    · split at h
      · split at h
        · cases h
        · split at h
          · cases h
            assumption
          · cases h
        · cases h
      · cases h
  have := (Table.flatMap_perm_of_find?_eq_some hslot Slot.codes).count_eq c
  rw [List.count_append] at this
  simp only [count_codes, Cache.takeSlot, this, Slot.codes, Entrusted.codes]
  omega

theorem count_codes_addEarlyFactory_le (e : Entrusted C .early) :
    (codes { r with cache := r.cache.addEarlyFactory n e }).count c ≤
      e.codes.count c + r.codes.count c := by
  simp only [Cache.addEarlyFactory]
  split
  · exact Nat.le_add_left _ _
  · have := Table.count_flatMap_insert_le r.cache.slots n Slot.codes c (.pending e)
    simp only [count_codes, Slot.codes, Entrusted.codes] at this ⊢
    omega

theorem count_codes_addHandle_le (e : Entrusted C .callback) :
    (codes { r with handles := r.handles.insert n e }).count c ≤
      e.codes.count c + r.codes.count c := by
  have := Table.count_flatMap_insert_le r.handles n Entrusted.codes c e
  simp only [count_codes]
  omega

theorem count_codes_discardUnready_le : (r.discardUnready n).codes.count c ≤ r.codes.count c := by
  simp only [discardUnready]
  split
  · exact Nat.le_refl _
  · have := Table.count_flatMap_erase_le r.cache.slots n Slot.codes c
    simp only [count_codes, Cache.discard]
    omega

theorem codes_closeWindow (creation : Creation) : (r.closeWindow creation).codes = r.codes := by
  simp only [closeWindow]
  split <;> rfl

theorem count_codes_conclude_le (creation : Creation) (result : Except CreationError Instance) :
    (r.conclude creation result).2.codes.count c ≤ r.codes.count c := by
  rw [← codes_closeWindow r creation]
  cases result with
  | ok i =>
    simp only [conclude]
    split
    · exact Nat.le_refl _
    · have :=
        Table.count_flatMap_erase_le (r.closeWindow creation).cache.slots creation.name Slot.codes c
      simp only [count_codes, Cache.publish, unmark]
      omega
  | error e =>
    exact count_codes_discardUnready_le ((r.closeWindow creation).unmark creation.name) _ c

theorem count_codes_rollback_le (creation : Creation) :
    (r.rollback creation).2.codes.count c ≤ r.codes.count c := by
  refine Nat.le_trans (count_codes_discardUnready_le _ _ c) (Nat.le_of_eq ?_)
  rw [codes_closeWindow]
  rfl

theorem count_codes_expose_le (i : Instance) :
    (codes { r with cache := (r.cache.expose n i).2 }).count c ≤ r.codes.count c := by
  simp only [Cache.expose]
  split
  · exact Nat.le_refl _
  · have := Table.count_flatMap_insert_le r.cache.slots n Slot.codes c (.early i)
    simp only [count_codes, Slot.codes, List.count_nil] at this ⊢
    omega

theorem count_codes_detach_le :
    ((r.detach n).1.toList.flatMap Entrusted.codes).count c + (r.detach n).2.codes.count c ≤
      r.codes.count c := by
  have := Table.count_flatMap_erase_le r.cache.slots n Slot.codes c
  simp only [detach, count_codes, Cache.remove, Cache.discard]
  cases h : r.handles.find? n with
  | none =>
    rw [Table.erase_of_find?_eq_none h]
    simp only [Option.toList_none, List.flatMap_nil, List.count_nil]
    omega
  | some e =>
    have := (Table.flatMap_perm_of_find?_eq_some h Entrusted.codes).count_eq c
    rw [List.count_append] at this
    simp only [Option.toList_some, List.flatMap_cons, List.flatMap_nil, List.append_nil]
    omega

theorem count_codes_wipe_le : r.wipe.codes.count c ≤ r.codes.count c := by
  simp only [wipe, count_codes, Cache.clear, Table.flatMap_empty, List.count_nil]
  omega

end Registry

end InstanceRegistry
