import InstanceRegistry.Operation

/-!
This module contains registries whose stored code is replaced by other code. A registry only stores
the code of early factories and of destroy handles, so it does the same before and after the
replacement.
-/

namespace InstanceRegistry

variable {ε ε' δ δ' : Type}

namespace Table

variable {α β : Type}

theorem put_map (f : α → β) (n : Name) (a : α) (es : List (Name × α)) :
    (put n a es).map (fun e => (e.1, f e.2)) = put n (f a) (es.map fun e => (e.1, f e.2)) := by
  induction es with
  | nil => rfl
  | cons e es ih =>
    simp only [List.map_cons, put]
    split
    · rfl
    · rw [← ih, List.map_cons]

theorem lookup_map (f : α → β) (n : Name) (es : List (Name × α)) :
    lookup n (es.map fun e => (e.1, f e.2)) = (lookup n es).map f := by
  induction es with
  | nil => rfl
  | cons e es ih =>
    simp only [List.map_cons, lookup]
    split
    · rfl
    · exact ih

def map (f : α → β) (t : Table α) : Table β :=
  ⟨t.entries.map fun e => (e.1, f e.2), by
    rw [List.map_map]
    exact t.nodup⟩

@[simp]
theorem map_empty (f : α → β) : (∅ : Table α).map f = ∅ :=
  rfl

@[simp]
theorem find?_map (f : α → β) (t : Table α) (n : Name) : (t.map f).find? n = (t.find? n).map f :=
  lookup_map f n t.entries

@[simp]
theorem keys_map (f : α → β) (t : Table α) : (t.map f).keys = t.keys := by
  unfold keys map
  rw [List.map_map]
  rfl

@[simp]
theorem map_insert (f : α → β) (t : Table α) (n : Name) (a : α) :
    (t.insert n a).map f = (t.map f).insert n (f a) :=
  ext (put_map f n a t.entries)

@[simp]
theorem map_erase (f : α → β) (t : Table α) (n : Name) :
    (t.erase n).map f = (t.map f).erase n := by
  apply ext
  simp only [map, erase, List.filter_map]
  rfl

end Table

def Slot.map (f : ε → ε') : Slot ε → Slot ε'
  | pending code => pending (f code)
  | early i => early i

namespace Cache

variable (f : ε → ε') (c : Cache ε) (n : Name) (i : Instance)

def map : Cache ε' :=
  { c with slots := c.slots.map (Slot.map f) }

theorem map_publish : (c.publish n i).map f = (c.map f).publish n i := by
  simp [publish, map]

theorem map_addEarlyFactory (code : ε) :
    (c.addEarlyFactory n code).map f = (c.map f).addEarlyFactory n (f code) := by
  unfold addEarlyFactory
  have hready : (c.map f).ready = c.ready := rfl
  rw [hready]
  split
  · rfl
  · simp [map, Slot.map]

theorem map_expose : (c.map f).expose n i = ((c.expose n i).1, (c.expose n i).2.map f) := by
  unfold expose
  have hready : (c.map f).ready = c.ready := rfl
  rw [hready]
  split
  · rfl
  · simp [map, Slot.map]

theorem map_takeSlot : (c.takeSlot n).map f = (c.map f).takeSlot n := by
  simp [takeSlot, map]

theorem map_discard : (c.discard n).map f = (c.map f).discard n := by
  simp [discard, map]

theorem map_remove : (c.remove n).map f = (c.map f).remove n := by
  simp [remove, discard, map]

end Cache

def Lookup.map (f : ε → ε') : Lookup ε → Lookup ε'
  | found i => found i
  | absent => absent
  | consult code => consult (f code)

def Admission.map (h : Registry ε δ → Registry ε' δ') : Admission ε δ → Admission ε' δ'
  | ready i => ready i
  | refused e => refused e
  | started c r => started c (h r)

def Performed.map {α : Type} (h : Registry ε δ → Registry ε' δ') (p : Performed ε δ α) :
    Performed ε' δ' α :=
  ⟨p.answer, p.events, h p.registry⟩

namespace Registry

variable (f : ε → ε') (g : δ → δ') (r : Registry ε δ) (n : Name)

def map : Registry ε' δ' :=
  { r with
    cache := r.cache.map f
    handles := r.handles.map g }

theorem lookup_map (allowEarly : Bool) :
    (r.map f g).lookup n allowEarly = (r.lookup n allowEarly).map f := by
  have hready : (r.map f g).cache.ready = r.cache.ready := rfl
  have hslots : (r.map f g).cache.slots.find? n = (r.cache.slots.find? n).map (Slot.map f) :=
    Table.find?_map _ _ n
  have hmarks : (r.map f g).marks = r.marks := rfl
  unfold lookup
  rw [hready, hslots, hmarks]
  cases r.cache.ready.find? n with
  | some i => rfl
  | none =>
    dsimp
    split
    · cases r.cache.slots.find? n with
      | none => rfl
      | some slot =>
        cases slot with
        | early i => rfl
        | pending code => cases allowEarly <;> rfl
    · rfl

theorem startCreation_map :
    (r.map f g).startCreation n = (r.startCreation n).map (map f g) := by
  have hready : (r.map f g).cache.ready = r.cache.ready := rfl
  have hdestroying : (r.map f g).cache.destroying = r.cache.destroying := rfl
  have hmarks : (r.map f g).marks = r.marks := rfl
  unfold startCreation
  rw [hready, hdestroying, hmarks]
  cases r.cache.ready.find? n with
  | some i => rfl
  | none =>
    cases r.cache.destroying with
    | true => rfl
    | false => cases r.marks.mark n <;> rfl

theorem closeWindow_map (c : Creation) :
    (r.map f g).closeWindow c = (r.closeWindow c).map f g := by
  unfold closeWindow
  split
  · rfl
  · rfl

theorem discardUnready_map :
    (r.map f g).discardUnready n = (r.discardUnready n).map f g := by
  have hready : (r.map f g).cache.ready = r.cache.ready := rfl
  unfold discardUnready
  rw [hready]
  split
  · rfl
  · simp [map, Cache.map_discard]

theorem conclude_map (c : Creation) (result : Except CreationError Instance) :
    (r.map f g).conclude c result =
      ((r.conclude c result).1, (r.conclude c result).2.map f g) := by
  have hunmark (q : Registry ε δ) : (q.map f g).unmark c.name = (q.unmark c.name).map f g := rfl
  have hmarks (q : Registry ε δ) : (q.map f g).marks = q.marks := rfl
  have hready (q : Registry ε δ) : (q.map f g).cache.ready = q.cache.ready := rfl
  have hcollected : (r.map f g).collected c = r.collected c := rfl
  unfold conclude
  simp only [closeWindow_map, hunmark, discardUnready_map, hmarks, hready, hcollected]
  cases result with
  | ok i =>
    dsimp
    split
    · rfl
    · simp [map, Cache.map_publish]
  | error e => rfl

theorem rollback_map (c : Creation) :
    (r.map f g).rollback c = ((r.rollback c).1, (r.rollback c).2.map f g) := by
  have hunmark : (r.map f g).unmark c.name = (r.unmark c.name).map f g := rfl
  unfold rollback
  rw [hunmark, closeWindow_map, discardUnready_map]
  rfl

theorem detach_map :
    (r.map f g).detach n = ((r.detach n).1.map g, (r.detach n).2.map f g) := by
  simp [detach, map, Cache.map_remove]

theorem wipe_map : (r.map f g).wipe = r.wipe.map f g := by
  simp [wipe, map, Cache.clear, Cache.map]

theorem register_map (i : Instance) :
    (r.map f g).register n i = (r.register n i).map (map f g) := by
  have hready : (r.map f g).cache.ready = r.cache.ready := rfl
  unfold register Cache.register
  rw [hready]
  by_cases h : r.cache.ready.contains n = true
  · simp [h, Performed.map]
  · simp [h, Performed.map, map, Cache.map_publish]

theorem addAlias_map (name nick : Name) :
    (r.map f g).addAlias name nick = (r.addAlias name nick).map (map f g) := by
  have haliases : (r.map f g).aliases = r.aliases := rfl
  unfold addAlias
  rw [haliases]
  cases r.aliases.register name nick with
  | ok aliases => rfl
  | error e => rfl

theorem removeAlias_map (nick : Name) :
    (r.map f g).removeAlias nick = (r.removeAlias nick).map (map f g) := by
  have haliases : (r.map f g).aliases = r.aliases := rfl
  unfold removeAlias
  rw [haliases]
  cases r.aliases.remove nick with
  | ok aliases => rfl
  | error e => rfl

theorem perform_map (o : Operation) :
    (r.map f g).perform o = (r.perform o).map (map f g) := by
  cases o with
  | register n i => exact register_map f g r n i
  | addAlias name nick => exact addAlias_map f g r name nick
  | removeAlias nick => exact removeAlias_map f g r nick
  | remove n => simp [perform, Performed.map, map, Cache.map_remove]
  | clear => simp [perform, Performed.map, map, Cache.clear, Cache.map]
  | _ => rfl

end Registry

end InstanceRegistry
