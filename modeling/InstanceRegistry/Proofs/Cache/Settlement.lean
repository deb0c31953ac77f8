import InstanceRegistry.Proofs.Creation.Outcome

/-!
This module contains what the operations on one name leave of a cache: everything that it holds of
other names, and of the name itself either a ready instance, or nothing, or something that is not
settled yet. The end of a creation settles its name, unless the mark of the name was lost.
-/

namespace InstanceRegistry

theorem NameSet.filter_toList_insert (s : NameSet) (n : Name) :
    (s.insert n).toList.filter (· ≠ n) = s.toList.filter (· ≠ n) := by
  by_cases h : n ∈ s
  · rw [insert_of_mem h]
  · rw [toList_insert_of_not_mem h, List.filter_append]
    simp

theorem NameSet.filter_toList_erase (s : NameSet) (n : Name) :
    (s.erase n).toList.filter (· ≠ n) = s.toList.filter (· ≠ n) := by
  rw [toList_erase, List.filter_filter]
  simp

namespace Cache

variable {ε : Type}

structure EqOff (c c' : Cache ε) (n : Name) : Prop where
  ready : ∀ m, m ≠ n → c'.ready.find? m = c.ready.find? m
  slots : ∀ m, m ≠ n → c'.slots.find? m = c.slots.find? m
  listed : c'.listed.toList.filter (· ≠ n) = c.listed.toList.filter (· ≠ n)

def Settled (c : Cache ε) (n : Name) : Prop :=
  (∃ i, c.ready.find? n = some i) ∨ c.slots.find? n = none ∧ ¬ n ∈ c.listed

variable {c c' : Cache ε} {n m : Name}

theorem EqOff.mem_listed (h : EqOff c c' n) (hm : m ≠ n) : m ∈ c'.listed ↔ m ∈ c.listed := by
  have hmem : m ∈ c'.listed.toList.filter (· ≠ n) ↔ m ∈ c.listed.toList.filter (· ≠ n) := by
    rw [h.listed]
  simpa [NameSet.mem_toList, hm] using hmem

theorem eqOff_refl (c : Cache ε) (n : Name) : EqOff c c n := by
  constructor
  · intro m _
    rfl
  · intro m _
    rfl
  · rfl

theorem eqOff_publish (c : Cache ε) (n : Name) (i : Instance) : EqOff c (c.publish n i) n := by
  constructor
  · intro m hm
    simp [publish, Table.find?_insert, hm]
  · intro m hm
    simp [publish, Table.find?_erase, hm]
  · exact NameSet.filter_toList_insert ..

theorem eqOff_addEarlyFactory (c : Cache ε) (n : Name) (code : ε) :
    EqOff c (c.addEarlyFactory n code) n := by
  unfold addEarlyFactory
  split
  · apply eqOff_refl
  · constructor
    · intro m _
      rfl
    · intro m hm
      simp [Table.find?_insert, hm]
    · exact NameSet.filter_toList_insert ..

theorem eqOff_takeSlot (c : Cache ε) (n : Name) : EqOff c (c.takeSlot n) n := by
  constructor
  · intro m _
    rfl
  · intro m hm
    simp [takeSlot, Table.find?_erase, hm]
  · rfl

theorem eqOff_expose (c : Cache ε) (n : Name) (i : Instance) : EqOff c (c.expose n i).2 n := by
  unfold expose
  split
  · apply eqOff_refl
  · constructor
    · intro m _
      rfl
    · intro m hm
      simp [Table.find?_insert, hm]
    · rfl

theorem eqOff_discard (c : Cache ε) (n : Name) : EqOff c (c.discard n) n := by
  constructor
  · intro m _
    rfl
  · intro m hm
    simp [discard, Table.find?_erase, hm]
  · exact NameSet.filter_toList_erase ..

theorem eqOff_remove (c : Cache ε) (n : Name) : EqOff c (c.remove n) n := by
  constructor
  · intro m hm
    simp [remove, Table.find?_erase, hm]
  · exact (c.eqOff_discard n).slots
  · exact (c.eqOff_discard n).listed

theorem settled_publish (c : Cache ε) (n : Name) (i : Instance) : (c.publish n i).Settled n := by
  apply Or.inl
  exists i
  simp [publish, Table.find?_insert]

theorem settled_discard (c : Cache ε) (n : Name) : (c.discard n).Settled n := by
  apply Or.inr
  simp [discard, Table.find?_erase]

theorem settled_remove (c : Cache ε) (n : Name) : (c.remove n).Settled n :=
  Or.inr ⟨by simp [remove, discard, Table.find?_erase], by simp [remove, discard]⟩

end Cache

namespace Registry

variable {ε δ : Type} (r : Registry ε δ) (c : Creation)

theorem eqOff_discardUnready (n : Name) : Cache.EqOff r.cache (r.discardUnready n).cache n := by
  rw [discardUnready_cache]
  split
  · apply Cache.eqOff_refl
  · apply Cache.eqOff_discard

theorem settled_discardUnready (n : Name) : (r.discardUnready n).cache.Settled n := by
  rw [discardUnready_cache]
  split
  · next h => exact Or.inl (Option.isSome_iff_exists.mp h)
  · apply Cache.settled_discard

theorem eqOff_conclude (result : Except CreationError Instance) :
    Cache.EqOff r.cache (r.conclude c result).2.cache c.name := by
  cases result with
  | ok i =>
    rw [conclude_ok_cache]
    split
    · exact ⟨fun _ _ => rfl, fun _ _ => rfl, rfl⟩
    · obtain ⟨hready, hslots, hlisted⟩ := r.cache.eqOff_publish c.name i
      exact ⟨hready, hslots, hlisted⟩
  | error e =>
    rw [conclude_error_cache]
    obtain ⟨hready, hslots, hlisted⟩ := r.eqOff_discardUnready c.name
    exact ⟨hready, hslots, hlisted⟩

theorem eqOff_rollback : Cache.EqOff r.cache (r.rollback c).2.cache c.name := by
  rw [rollback_cache]
  obtain ⟨hready, hslots, hlisted⟩ := r.eqOff_discardUnready c.name
  exact ⟨hready, hslots, hlisted⟩

theorem settled_conclude {r : Registry ε δ} {c : Creation}
    {result : Except CreationError Instance}
    (h : ∀ i, result = .ok i → (r.marks.unmark c.name).isSome = true) :
    (r.conclude c result).2.cache.Settled c.name := by
  cases result with
  | ok i =>
    have hkept : (r.marks.unmark c.name).isNone = false := by
      rw [← Option.not_isSome, h i rfl]
      rfl
    rw [conclude_ok_cache, hkept]
    exact r.cache.settled_publish c.name i
  | error e =>
    rw [conclude_error_cache]
    exact r.settled_discardUnready c.name

theorem settled_rollback : (r.rollback c).2.cache.Settled c.name := by
  rw [rollback_cache]
  exact r.settled_discardUnready c.name

end Registry

end InstanceRegistry
