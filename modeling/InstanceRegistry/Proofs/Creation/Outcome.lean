import InstanceRegistry.Operation

/-!
This module contains what the start and the end of a creation, and the operations that run no client
code, leave of a registry.
-/

namespace InstanceRegistry

namespace Registry

variable {ε δ : Type}

theorem startCreation_eq_started {r r' : Registry ε δ} {n : Name} {c : Creation}
    (h : r.startCreation n = .started c r') :
    r.cache.ready.find? n = none ∧ r.cache.destroying = false ∧
      c = ⟨n, !decide (n ∈ r.marks.exempt), r.cache.window.isNone⟩ ∧
      r.marks.mark n = some r'.marks ∧
      r'.cache = { r.cache with window := some (r.cache.window.getD []) } ∧
      r' = { r with cache := r'.cache, marks := r'.marks } := by
  unfold startCreation at h
  split at h
  · cases h
  · next hready =>
    split at h
    · cases h
    · next hdestroying =>
      split at h
      · cases h
      · next hmark =>
        cases h
        simp [hready, hdestroying, hmark]

theorem startCreation_eq_refused {r : Registry ε δ} {n : Name} {e : RegistryError}
    (h : r.startCreation n = .refused e) :
    e = .creationDuringDestruction n ∧ r.cache.destroying = true ∨ e = .currentlyInCreation n := by
  unfold startCreation at h
  split at h
  · cases h
  · split at h
    · next hdestroying =>
      cases h
      exact Or.inl ⟨rfl, hdestroying⟩
    · split at h
      · cases h
        exact Or.inr rfl
      · cases h

theorem lookup_eq_consult {r : Registry ε δ} {n : Name} {allowEarly : Bool} {code : ε}
    (h : r.lookup n allowEarly = .consult code) :
    r.cache.ready.find? n = none ∧ r.marks.isMarked n = true ∧
      r.cache.slots.find? n = some (.pending code) ∧ allowEarly = true := by
  unfold lookup at h
  split at h
  · cases h
  · next hready =>
    split at h
    · next hmarked =>
      split at h
      · cases h
      · next hslot =>
        split at h
        · next hallow =>
          cases h
          exact ⟨hready, hmarked, hslot, hallow⟩
        · cases h
      · cases h
    · cases h

theorem closeWindow_eq (r : Registry ε δ) (c : Creation) :
    r.closeWindow c = { r with
      cache := { r.cache with window := if c.collects then none else r.cache.window } } := by
  unfold closeWindow
  split
  · rfl
  · rfl

theorem discardUnready_eq (r : Registry ε δ) (n : Name) :
    r.discardUnready n = { r with cache := { r.cache with
      slots := (r.discardUnready n).cache.slots
      listed := (r.discardUnready n).cache.listed } } := by
  unfold discardUnready
  split
  · rfl
  · rfl

theorem conclude_error (r : Registry ε δ) (c : Creation) (e : CreationError) :
    (r.conclude c (.error e)).2 = ((r.closeWindow c).unmark c.name).discardUnready c.name :=
  rfl

theorem conclude_eq (r : Registry ε δ) (c : Creation) (result : Except CreationError Instance) :
    (r.conclude c result).2 = { r with
      marks := (r.marks.unmark c.name).getD r.marks
      cache := { (r.conclude c result).2.cache with
        window := if c.collects then none else r.cache.window
        destroying := r.cache.destroying } } := by
  cases result with
  | ok i =>
    unfold conclude
    rw [closeWindow_eq]
    dsimp
    split
    · rfl
    · rfl
  | error e =>
    rw [conclude_error, discardUnready_eq, closeWindow_eq]
    rfl

theorem rollback_eq (r : Registry ε δ) (c : Creation) :
    (r.rollback c).2 = { r with
      marks := (r.marks.unmark c.name).getD r.marks
      cache := { (r.rollback c).2.cache with
        ready := r.cache.ready
        window := if c.collects then none else r.cache.window
        destroying := r.cache.destroying } } := by
  unfold rollback
  rw [closeWindow_eq, discardUnready_eq]
  rfl

theorem discardUnready_cache (r : Registry ε δ) (n : Name) :
    (r.discardUnready n).cache =
      if r.cache.ready.contains n then r.cache else r.cache.discard n := by
  unfold discardUnready
  split
  · rfl
  · rfl

theorem conclude_ok_cache (r : Registry ε δ) (c : Creation) (i : Instance) :
    (r.conclude c (.ok i)).2.cache = { (if (r.marks.unmark c.name).isNone then r.cache else
        r.cache.publish c.name i) with
      window := if c.collects then none else r.cache.window } := by
  unfold conclude
  rw [closeWindow_eq]
  dsimp
  split
  · rfl
  · rfl

theorem conclude_error_cache (r : Registry ε δ) (c : Creation) (e : CreationError) :
    (r.conclude c (.error e)).2.cache = { (r.discardUnready c.name).cache with
      window := if c.collects then none else r.cache.window } := by
  rw [conclude_error, discardUnready_cache, discardUnready_cache, closeWindow_eq]
  unfold unmark
  dsimp
  split
  · rfl
  · rfl

theorem rollback_cache (r : Registry ε δ) (c : Creation) :
    (r.rollback c).2.cache = { (r.discardUnready c.name).cache with
      window := if c.collects then none else r.cache.window } := by
  unfold rollback unmark
  rw [discardUnready_cache, discardUnready_cache, closeWindow_eq]
  dsimp
  split
  · rfl
  · rfl

theorem conclude_marks (r : Registry ε δ) (c : Creation)
    (result : Except CreationError Instance) :
    (r.conclude c result).2.marks = (r.marks.unmark c.name).getD r.marks := by
  rw [conclude_eq]

theorem conclude_ok (r : Registry ε δ) (c : Creation) (i : Instance) :
    ((r.conclude c (.ok i)).1 = .ok i ∧
      (r.conclude c (.ok i)).2.cache.ready = r.cache.ready.insert c.name i) ∨
    ((r.conclude c (.ok i)).1 = .error (.notInCreation c.name) ∧
      (r.conclude c (.ok i)).2.cache.ready = r.cache.ready) := by
  unfold conclude
  rw [closeWindow_eq]
  dsimp
  split
  · exact Or.inr ⟨rfl, rfl⟩
  · exact Or.inl ⟨rfl, rfl⟩

theorem conclude_error_ready (r : Registry ε δ) (c : Creation) (e : CreationError) :
    (r.conclude c (.error e)).2.cache.ready = r.cache.ready := by
  rw [conclude_error, discardUnready_eq, closeWindow_eq]
  rfl

theorem rollback_ready (r : Registry ε δ) (c : Creation) :
    (r.rollback c).2.cache.ready = r.cache.ready := by
  rw [rollback_eq]

theorem rollback_marks (r : Registry ε δ) (c : Creation) :
    (r.rollback c).2.marks = (r.marks.unmark c.name).getD r.marks := by
  rw [rollback_eq]

theorem conclude_ne_notInCreation {r : Registry ε δ} {c : Creation}
    (h : (r.marks.unmark c.name).isSome) (result : Except CreationError Instance) (n : Name) :
    (r.conclude c result).1 ≠ .error (.notInCreation n) := by
  have hlost : (r.marks.unmark c.name).isNone = false := by
    rw [← Option.not_isSome, h]
    rfl
  unfold conclude
  rw [closeWindow_eq]
  cases result with
  | ok i => simp [hlost]
  | error e =>
    simp only [hlost, Bool.false_eq_true, if_false]
    split
    · simp
    · simp

theorem eq_collected_of_conclude {r : Registry ε δ} {c : Creation}
    {result : Except CreationError Instance} {n : Name} {e : CreationError} {fs : List Failure}
    (h : (r.conclude c result).1 = .error (.creationFailed n e fs)) : fs = r.collected c := by
  unfold conclude at h
  cases result with
  | ok i =>
    dsimp at h
    split at h
    · cases h
    · cases h
  | error e =>
    dsimp at h
    split at h
    · cases h
    · split at h
      · cases h
      · cases h
        rfl

@[simp]
theorem register_registry (r : Registry ε δ) (n : Name) (i : Instance) :
    (r.register n i).registry = { r with
      cache := if r.cache.ready.contains n then r.cache else r.cache.publish n i } := by
  unfold register Cache.register
  by_cases h : r.cache.ready.contains n = true
  · simp [h]
  · simp [h]

@[simp]
theorem addAlias_registry (r : Registry ε δ) (name nick : Name) :
    (r.addAlias name nick).registry =
      { r with aliases := (r.aliases.register name nick).toOption.getD r.aliases } := by
  unfold addAlias
  split
  · next h => rw [h]; rfl
  · next h => rw [h]; rfl

@[simp]
theorem removeAlias_registry (r : Registry ε δ) (nick : Name) :
    (r.removeAlias nick).registry =
      { r with aliases := (r.aliases.remove nick).toOption.getD r.aliases } := by
  unfold removeAlias
  split
  · next h => rw [h]; rfl
  · next h => rw [h]; rfl

theorem perform_cache (r : Registry ε δ) (o : Operation) :
    (r.perform o).registry.cache = match o with
      | .register n i => if r.cache.ready.contains n then r.cache else r.cache.publish n i
      | .suppress f => r.cache.suppress r.suppressedLimit f
      | .remove n => r.cache.remove n
      | .clear => r.cache.clear
      | _ => r.cache := by
  cases o with
  | register n i => simp [perform]
  | addAlias name nick => simp [perform]
  | removeAlias nick => simp [perform]
  | _ => rfl

theorem perform_marks (r : Registry ε δ) (o : Operation) :
    (r.perform o).registry.marks = match o with
      | .setInCreation n value => r.marks.setInCreation n value
      | _ => r.marks := by
  cases o with
  | register n i => simp [perform]
  | addAlias name nick => simp [perform]
  | removeAlias nick => simp [perform]
  | _ => rfl

theorem perform_window (r : Registry ε δ) (o : Operation) :
    (r.perform o).registry.cache.window = match o with
      | .suppress f => (r.cache.suppress r.suppressedLimit f).window
      | _ => r.cache.window := by
  cases o with
  | register n i =>
    simp only [perform, register_registry]
    split
    · rfl
    · rfl
  | addAlias name nick => simp [perform]
  | removeAlias nick => simp [perform]
  | _ => rfl

theorem perform_destroying (r : Registry ε δ) (o : Operation) :
    (r.perform o).registry.cache.destroying = match o with
      | .clear => false
      | _ => r.cache.destroying := by
  cases o with
  | register n i =>
    simp only [perform, register_registry]
    split
    · rfl
    · rfl
  | addAlias name nick => simp [perform]
  | removeAlias nick => simp [perform]
  | _ => rfl

theorem perform_graph (r : Registry ε δ) (o : Operation) :
    (r.perform o).registry.graph = match o with
      | .contain inner outer => r.graph.contain r.resolve inner outer
      | .depend on dependent => r.graph.depend r.resolve on dependent
      | .removeEdges n => r.graph.removeAll n
      | _ => r.graph := by
  cases o with
  | register n i => simp [perform]
  | addAlias name nick => simp [perform]
  | removeAlias nick => simp [perform]
  | _ => rfl

theorem perform_handles (r : Registry ε δ) (o : Operation) :
    (r.perform o).registry.handles = r.handles := by
  cases o with
  | register n i => simp [perform]
  | addAlias name nick => simp [perform]
  | removeAlias nick => simp [perform]
  | _ => rfl

theorem perform_suppressedLimit (r : Registry ε δ) (o : Operation) :
    (r.perform o).registry.suppressedLimit = r.suppressedLimit := by
  cases o with
  | register n i => simp [perform]
  | addAlias name nick => simp [perform]
  | removeAlias nick => simp [perform]
  | _ => rfl

theorem perform_register_ready {r : Registry ε δ} {n m : Name} {i j : Instance}
    (h : r.cache.ready.find? n = some i) :
    (r.perform (.register m j)).registry.cache.ready.find? n = some i := by
  simp only [perform, register_registry]
  by_cases hm : r.cache.ready.contains m = true
  · simp [hm, h]
  · have hne : n ≠ m := by
      intro hnm
      apply hm
      rw [← hnm, Table.contains, h]
      rfl
    simp [hm, Cache.publish, Table.find?_insert, hne, h]

end Registry

end InstanceRegistry
