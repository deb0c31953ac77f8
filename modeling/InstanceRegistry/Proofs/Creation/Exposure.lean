import InstanceRegistry.Proofs.Creation.Marking

/-!
This module contains where early factories run: as long as nobody changes whether a name is exempt
while it is being created, the early factory of a name runs within a creation of that name
(`Machine.founded_of_leadsBy`).
-/

namespace InstanceRegistry

variable {C : Client}

def Stack.Founded : {r : Role} → Stack C r → Prop
  | _, .bottom => True
  | _, .creating _ _ s => s.Founded
  | _, .exposing n _ _ s => (∃ c ∈ s.creations, c.name = n) ∧ s.Founded
  | _, .settling _ _ _ _ s => s.Founded
  | _, .attempting _ s => s.Founded

theorem Marks.Follow.exists_creation {r : C.Store} {cs : List Creation} {n : Name}
    {allowEarly : Bool} {e : Entrusted C .early} (h : r.marks.Follow cs)
    (hconsult : r.lookup n allowEarly = .consult e) : ∃ c ∈ cs, c.name = n := by
  obtain ⟨_, hmarked, _⟩ := Registry.lookup_eq_consult hconsult
  rw [Marks.isMarked, decide_eq_true_eq, h.mem_active_iff] at hmarked
  obtain ⟨c, hc, hn, _⟩ := hmarked
  exact ⟨c, hc, hn⟩

namespace Machine

def Founded (m : Machine C) : Prop :=
  match m.control with
  | .run _ s => s.Founded
  | .tear _ _ s => s.Founded
  | .unwind _ s => s.Founded
  | .halted _ => True

variable {w : World C} {r : Role}

theorem founded_finish (result : C.Result r) {s : Stack C r} (h : s.Founded) :
    (w.finish result s).Founded := by
  cases s with
  | bottom => trivial
  | exposing n ticket next s => exact h.2
  | _ => exact h

theorem founded_lookup (n : Name) (allowEarly : Bool) (next : Option Instance → Program C r)
    {s : Stack C r} (h : s.Founded) (hfollow : w.registry.marks.Follow s.creations) :
    (w.lookup n allowEarly next s).Founded := by
  unfold World.lookup
  split
  · exact h
  · exact h
  · next hconsult => exact ⟨hfollow.exists_creation hconsult, h⟩

theorem founded_getOrCreate (n : Name) (factory : Program C .factory)
    (next : Except RegistryError Instance → Program C r) {s : Stack C r} (h : s.Founded) :
    (w.getOrCreate n factory next s).Founded := by
  unfold World.getOrCreate
  split
  · exact h
  · exact h
  · exact h

theorem founded_exec (p : Program C r) {s : Stack C r} (h : s.Founded)
    (hfollow : w.registry.marks.Follow s.creations) : (w.exec p s).Founded := by
  cases p with
  | done result => exact founded_finish result h
  | lookup n allowEarly next => exact founded_lookup n allowEarly next h hfollow
  | getOrCreate n factory next => exact founded_getOrCreate n factory next h
  | _ => exact h

theorem founded_unwind (text : String) {s : Stack C r} (h : s.Founded) :
    (w.unwind text s).Founded := by
  cases s with
  | bottom => trivial
  | exposing n ticket next s => exact h.2
  | _ => exact h

theorem founded_of_step {m m' : Machine C} (hstep : m.step = some m') (h : m.Founded)
    (hfollow : m.world.registry.marks.Follow m.creations) : m'.Founded := by
  obtain ⟨w, control⟩ := m
  cases control with
  | run p s =>
    cases hstep
    exact founded_exec p h hfollow
  | tear tasks next s =>
    cases tasks with
    | nil =>
      cases hstep
      exact h
    | cons t tasks =>
      cases hstep
      cases t <;> exact h
  | unwind text s =>
    cases hstep
    exact founded_unwind text h
  | halted outcome => cases hstep

theorem founded_of_leadsBy (config : Config) (resolver : Option (Name → Name)) (state : C.State)
    (p : Program C .block) {m : Machine C}
    (h : (start (.fresh config resolver state) p).LeadsBy KeepsExemptions m) : m.Founded := by
  induction h with
  | refl => trivial
  | tail hleads hstep ih =>
    exact founded_of_step hstep.2 ih (follow_of_leadsBy config resolver state p hleads)

theorem exists_exposing_of_expose {m : Machine C} {n : Name} {i : Instance}
    (h : m.change = .expose n i) :
    ∃ (r : Role) (ticket : Nat) (next : Option Instance → Program C r) (s : Stack C r),
      m.control = .run (.done i) (.exposing n ticket next s) := by
  obtain ⟨w, control⟩ := m
  cases control with
  | run p s =>
    cases p with
    | done result =>
      cases s with
      | exposing k ticket next s =>
        cases h
        exact ⟨_, ticket, next, s, rfl⟩
      | _ => cases h
    | lookup k allowEarly next =>
      simp only [change, World.change] at h
      split at h
      · cases h
      · cases h
    | getOrCreate k factory next =>
      simp only [change, World.change] at h
      split at h
      · cases h
      · cases h
      · cases h
    | _ => cases h
  | tear tasks next s =>
    cases tasks with
    | nil => cases h
    | cons t tasks => cases t <;> cases h
  | unwind text s => cases s <;> cases h
  | halted outcome => cases h

theorem Founded.exists_creation {m : Machine C} (h : m.Founded) {n : Name} {i : Instance}
    (hexpose : m.change = .expose n i) : ∃ c ∈ m.creations, c.name = n := by
  obtain ⟨r, ticket, next, s, hcontrol⟩ := exists_exposing_of_expose hexpose
  obtain ⟨w, control⟩ := m
  cases hcontrol
  exact h.1

end Machine

end InstanceRegistry
