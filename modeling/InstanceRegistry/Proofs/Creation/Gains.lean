import InstanceRegistry.Proofs.Cache.EarlyReference
import InstanceRegistry.Proofs.Creation.Cycle

/-!
This module contains what a registry gains from creations that come to their ends while the
creation of another name, the root, goes on: the instances that they have made, in the order of
their ends (`Registry.Gains.publish`). Nothing else is left of them when the root's creation has
come to its end as well (`Registry.Gains.completes`).
-/

namespace InstanceRegistry

variable {C : Client}

namespace Registry

def frame {ε δ : Type} (r : Registry ε δ) : Registry ε δ :=
  { r with cache := { r.cache with ready := ∅, slots := ∅, listed := ∅ } }

structure Provides {ε δ : Type} (r : Registry ε δ) (n : Name) (i : Instance) : Prop where
  ready : r.cache.ready.find? n = some i
  no_slot : r.cache.slots.find? n = none
  not_marked : ¬ n ∈ r.marks.active

structure Gains {ε δ : Type} (r : Registry ε δ) (root : Name) (made : List (Name × Instance))
    (r' : Registry ε δ) : Prop where
  frame : r'.frame = r.frame
  slots : ∀ n, n ≠ root → r'.cache.slots.find? n = r.cache.slots.find? n
  ready_of_mem : ∀ n i, (n, i) ∈ made → r'.cache.ready.find? n = some i
  ready_of_not_mem : ∀ n, ¬ n ∈ made.map (·.1) →
    r'.cache.ready.find? n = r.cache.ready.find? n
  listed : r'.cache.listed.toList = r.cache.listed.toList ++ made.map (·.1)

structure Completes {ε δ : Type} (r : Registry ε δ) (made : List (Name × Instance))
    (r' : Registry ε δ) : Prop where
  provides : ∀ n i, (n, i) ∈ made → r'.Provides n i
  ready : ∀ n, ¬ n ∈ made.map (·.1) → r'.cache.ready.find? n = r.cache.ready.find? n
  slots : ∀ n, ¬ n ∈ made.map (·.1) → r'.cache.slots.find? n = r.cache.slots.find? n
  frame : r'.frame = r.frame

structure Lends (r : C.Store) (n : Name) : Prop where
  not_ready : r.cache.ready.find? n = none
  marked : r.marks.isMarked n = true
  slot : (∃ e, r.cache.slots.find? n = some (.pending e) ∧ e.code.Quiet) ∨
    ∃ i, r.cache.slots.find? n = some (.early i)

def owed (r : C.Store) (n : Name) : List Moment :=
  match r.cache.slots.find? n with
  | some (.pending e) => (Body.early n e.ticket).moments
  | _ => []

section Gains

variable {ε δ : Type} {r r' r'' : Registry ε δ} {root n : Name} {c : Creation}
  {made made' : List (Name × Instance)}

theorem gains_refl (r : Registry ε δ) (root : Name) : r.Gains root [] r where
  frame := rfl
  slots := fun _ _ => rfl
  ready_of_mem := nofun
  ready_of_not_mem := fun _ _ => rfl
  listed := (List.append_nil _).symm

theorem Gains.trans (h : r.Gains root made r') (h' : r'.Gains root made' r'')
    (hdisjoint : ∀ n ∈ made.map (·.1), ¬ n ∈ made'.map (·.1)) :
    r.Gains root (made ++ made') r'' where
  frame := h'.frame.trans h.frame
  slots := fun n hn => (h'.slots n hn).trans (h.slots n hn)
  ready_of_mem := by
    intro n i hmem
    rw [List.mem_append] at hmem
    cases hmem with
    | inl hmem =>
      rw [h'.ready_of_not_mem n (hdisjoint n (List.mem_map_of_mem hmem))]
      exact h.ready_of_mem n i hmem
    | inr hmem => exact h'.ready_of_mem n i hmem
  ready_of_not_mem := by
    intro n hn
    rw [List.map_append, List.mem_append, not_or] at hn
    rw [h'.ready_of_not_mem n hn.2, h.ready_of_not_mem n hn.1]
  listed := by
    rw [h'.listed, h.listed, List.map_append, List.append_assoc]

theorem Gains.marks (h : r.Gains root made r') : r'.marks = r.marks := by
  have hkept : r'.frame.marks = r.frame.marks := by rw [h.frame]
  exact hkept

theorem Gains.window (h : r.Gains root made r') : r'.cache.window = r.cache.window := by
  have hkept : r'.frame.cache.window = r.frame.cache.window := by rw [h.frame]
  exact hkept

theorem Gains.destroying (h : r.Gains root made r') : r'.cache.destroying = r.cache.destroying := by
  have hkept : r'.frame.cache.destroying = r.frame.cache.destroying := by rw [h.frame]
  exact hkept

theorem Gains.unknown (h : r.Gains root made r') (hn : r.Unknown n) (hroot : n ≠ root)
    (hmade : ¬ n ∈ made.map (·.1)) : r'.Unknown n := by
  refine ⟨?_, ?_, ?_, ?_, ?_⟩
  · rw [h.ready_of_not_mem n hmade]
    exact hn.not_ready
  · rw [h.slots n hroot]
    exact hn.no_slot
  · rw [← NameSet.mem_toList, h.listed, List.mem_append, not_or]
    exact ⟨hn.not_listed, hmade⟩
  · rw [h.marks]
    exact hn.not_marked
  · rw [h.marks]
    exact hn.not_exempt

theorem frame_restore (hstart : r.startCreation n = .started c r') (hframe : r''.frame = r'.frame) :
    (r''.restore r).frame = r.frame := by
  have hrestore : (r''.frame.restore r).frame = (r'.frame.restore r).frame := by rw [hframe]
  rw [← restore_of_started hstart]
  exact hrestore

theorem Gains.publish (h : r'.Gains root made r'') (hstart : r.startCreation n = .started c r')
    (hn : r.Unknown n) (hroot : n ≠ root) (hmade : ¬ n ∈ made.map (·.1)) (i : Instance) :
    r.Gains root (made ++ [(n, i)]) ((r''.restore r).created n (.ok i)).2 := by
  obtain ⟨_, _, _, _, hcache, _⟩ := startCreation_eq_started hstart
  have hslots : r'.cache.slots = r.cache.slots := by rw [hcache]
  have hready : r'.cache.ready = r.cache.ready := by rw [hcache]
  have hlisted : r'.cache.listed = r.cache.listed := by rw [hcache]
  constructor
  case frame =>
    have hframe := frame_restore hstart h.frame
    exact hframe
  case slots =>
    intro m hm
    have hkept := h.slots m hm
    rw [hslots] at hkept
    by_cases hmn : m = n
    · simp [hmn, hn.no_slot]
    · simp [hmn, hkept]
  case ready_of_mem =>
    intro m a hmem
    rw [List.mem_append, List.mem_singleton] at hmem
    cases hmem with
    | inl hmem =>
      have hmn : m ≠ n := by
        rintro rfl
        exact hmade (List.mem_map_of_mem hmem)
      simp [hmn, h.ready_of_mem m a hmem]
    | inr hmem =>
      cases hmem
      simp
  case ready_of_not_mem =>
    intro m hm
    rw [List.map_append, List.mem_append, not_or] at hm
    have hmn : m ≠ n := fun hmn => hm.2 (by simp [hmn])
    have hkept := h.ready_of_not_mem m hm.1
    rw [hready] at hkept
    simp [hmn, hkept]
  case listed =>
    have hunlisted : ¬ n ∈ r''.cache.listed := by
      rw [← NameSet.mem_toList, h.listed, hlisted, List.mem_append, not_or]
      exact ⟨hn.not_listed, hmade⟩
    simp only [created, restore, Cache.publish]
    rw [NameSet.toList_insert_of_not_mem hunlisted, h.listed, hlisted]
    simp

end Gains

section Lends

variable {r r' : C.Store} {root n : Name} {c : Creation} {i : Instance}

theorem ShowsEarly.lends (h : r.ShowsEarly n i) : r.Lends n :=
  ⟨h.not_ready, h.marked, .inr ⟨i, h.slot⟩⟩

theorem ShowsEarly.owed (h : r.ShowsEarly n i) : r.owed n = [] := by
  simp [Registry.owed, h.slot]

theorem Lends.ne (h : r.Lends root) (hn : r.Unknown n) : n ≠ root := by
  rintro rfl
  have hmarked := h.marked
  rw [Marks.isMarked, decide_eq_true_eq] at hmarked
  exact hn.not_marked hmarked

theorem isMarked_of_started (h : r.marks.isMarked root = true) (hn : r.Unknown n)
    (hstart : r.startCreation n = .started c r') : r'.marks.isMarked root = true := by
  rw [Marks.isMarked, decide_eq_true_eq] at h
  simp [Marks.isMarked, hn.marks_of_started hstart, h]

theorem ShowsEarly.of_started (h : r.ShowsEarly root i) (hn : r.Unknown n)
    (hstart : r.startCreation n = .started c r') : r'.ShowsEarly root i := by
  obtain ⟨_, _, _, _, hcache, _⟩ := startCreation_eq_started hstart
  refine ⟨?_, isMarked_of_started h.marked hn hstart, ?_⟩
  · rw [hcache]
    exact h.not_ready
  · rw [hcache]
    exact h.slot

theorem owed_of_started (hstart : r.startCreation n = .started c r') :
    r'.owed root = r.owed root := by
  obtain ⟨_, _, _, _, hcache, _⟩ := startCreation_eq_started hstart
  unfold owed
  rw [hcache]

theorem Lends.of_started (h : r.Lends root) (hn : r.Unknown n)
    (hstart : r.startCreation n = .started c r') : r'.Lends root := by
  obtain ⟨_, _, _, _, hcache, _⟩ := startCreation_eq_started hstart
  refine ⟨?_, isMarked_of_started h.marked hn hstart, ?_⟩
  · rw [hcache]
    exact h.not_ready
  · rw [hcache]
    exact h.slot

theorem ShowsEarly.created (h : r'.ShowsEarly root i) (hmarked : r.marks.isMarked root = true)
    (hroot : n ≠ root) (j : Instance) :
    ((r'.restore r).created n (.ok j)).2.ShowsEarly root i := by
  refine ⟨?_, hmarked, ?_⟩
  · simp [hroot.symm, h.not_ready]
  · simp [hroot.symm, h.slot]

def lend (r : C.Store) (n : Name) (i : Instance) : C.Store :=
  { r with
    cache := { r.cache with slots := (r.cache.slots.erase n).insert n (.early i) } }

theorem showsEarly_lend (hready : r.cache.ready.find? n = none)
    (hmarked : r.marks.isMarked n = true) (i : Instance) : (r.lend n i).ShowsEarly n i := by
  refine ⟨hready, hmarked, ?_⟩
  simp [lend, Table.find?_insert]

theorem gains_lend (r : C.Store) (n : Name) (i : Instance) : r.Gains n [] (r.lend n i) where
  frame := rfl
  slots := by
    intro m hm
    simp [lend, Table.find?_insert, Table.find?_erase, hm]
  ready_of_mem := nofun
  ready_of_not_mem := fun _ _ => rfl
  listed := (List.append_nil _).symm

end Lends

section Offer

variable {r r' r'' : C.Store} {root n m : Name} {c : Creation} {e : Entrusted C .early}
  {made : List (Name × Instance)} {i : Instance}

def offer (r : C.Store) (n : Name) (e : Entrusted C .early) : C.Store :=
  { r with cache := r.cache.addEarlyFactory n e }

theorem offer_eq (h : r.cache.ready.find? n = none) (e : Entrusted C .early) :
    r.offer n e = { r with cache := { r.cache with
      slots := r.cache.slots.insert n (.pending e)
      listed := r.cache.listed.insert n } } := by
  simp [offer, Cache.addEarlyFactory, Table.contains, h]

theorem Busy.lends_offer (h : r.Busy n) (hquiet : e.code.Quiet) : (r.offer n e).Lends n := by
  rw [offer_eq h.not_ready]
  refine ⟨h.not_ready, ?_, .inl ⟨e, by simp [Table.find?_insert], hquiet⟩⟩
  rw [Marks.isMarked, decide_eq_true_eq]
  exact h.marked

theorem owed_offer (h : r.cache.ready.find? n = none) (e : Entrusted C .early) :
    (r.offer n e).owed n = (Body.early n e.ticket).moments := by
  simp [offer_eq h, owed, Table.find?_insert]

theorem Unknown.offer (h : r.Unknown m) (hne : m ≠ n) (hready : r.cache.ready.find? n = none)
    (e : Entrusted C .early) : (r.offer n e).Unknown m := by
  rw [offer_eq hready]
  refine ⟨h.not_ready, ?_, ?_, h.not_marked, h.not_exempt⟩
  · simp [Table.find?_insert, hne, h.no_slot]
  · simp [hne, h.not_listed]

theorem Gains.completes (h : (r'.offer root e).Gains root made r'')
    (hstart : r.startCreation root = .started c r') (hroot : r.Unknown root)
    (hmade : ∀ n ∈ made.map (·.1), n ≠ root ∧ r.Unknown n) (i : Instance) :
    r.Completes (made ++ [(root, i)]) ((r''.restore r).created root (.ok i)).2 := by
  obtain ⟨hready, _, _, _, hcache, _⟩ := startCreation_eq_started hstart
  rw [offer_eq (by rwa [hcache]), hcache] at h
  have hslots : ∀ n, n ≠ root → r''.cache.slots.find? n = r.cache.slots.find? n := by
    intro n hn
    simpa [Table.find?_insert, hn] using h.slots n hn
  constructor
  case provides =>
    intro n a hmem
    rw [List.mem_append, List.mem_singleton] at hmem
    cases hmem with
    | inl hmem =>
      obtain ⟨hne, hn⟩ := hmade n (List.mem_map_of_mem hmem)
      refine ⟨?_, ?_, hn.not_marked⟩
      · simp [hne, h.ready_of_mem n a hmem]
      · simp [hne, hslots n hne, hn.no_slot]
    | inr hmem =>
      cases hmem
      refine ⟨?_, ?_, hroot.not_marked⟩
      · simp
      · simp
  case ready =>
    intro n hn
    rw [List.map_append, List.mem_append, not_or] at hn
    have hne : n ≠ root := fun hne => hn.2 (by simp [hne])
    simp [hne, h.ready_of_not_mem n hn.1]
  case slots =>
    intro n hn
    rw [List.map_append, List.mem_append, not_or] at hn
    have hne : n ≠ root := fun hne => hn.2 (by simp [hne])
    simp [hne, hslots n hne]
  case frame =>
    have hframe : (r''.restore r).frame = r.frame := by
      apply frame_restore hstart
      rw [h.frame, ← hcache]
      rfl
    exact hframe

theorem Gains.listed_created (h : (r'.offer root e).Gains root made r'')
    (hstart : r.startCreation root = .started c r') (hroot : r.Unknown root) (i : Instance) :
    ((r''.restore r).created root (.ok i)).2.cache.listed.toList =
      r.cache.listed.toList ++ root :: made.map (·.1) := by
  obtain ⟨hready, _, _, _, hcache, _⟩ := startCreation_eq_started hstart
  have hlisted := h.listed
  rw [offer_eq (by rwa [hcache]), hcache] at hlisted
  simp only [NameSet.toList_insert_of_not_mem hroot.not_listed] at hlisted
  have hmem : root ∈ r''.cache.listed := by
    rw [← NameSet.mem_toList, hlisted]
    simp
  simp only [Registry.created, restore, Cache.publish, NameSet.insert_of_mem hmem, hlisted]
  simp

end Offer

end Registry

end InstanceRegistry
