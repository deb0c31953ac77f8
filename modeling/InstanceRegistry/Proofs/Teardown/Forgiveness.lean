import InstanceRegistry.Proofs.Run
import InstanceRegistry.Proofs.Stored

/-!
This module contains machines in which the failures of callbacks are forgiven: a callback does what
it does, and then succeeds. A machine and the one that forgives take their steps together
(`Machine.step_forgive`), so a failure decides nothing.
-/

namespace InstanceRegistry

variable {C : Client} {r : Role}

def Client.pardon (C : Client) : {r : Role} → C.Result r → C.Result r
  | .factory, result => result
  | .early, result => result
  | .callback, _ => .ok ()
  | .block, result => result

/--
The same program, except that it succeeds in the end if it is a callback, and so do the callbacks
that it registers.
-/
def Program.forgive : {r : Role} → Program C r → Program C r
  | _, .done result => .done (C.pardon result)
  | _, .panic text => .panic text
  | _, .read next => .read fun state => (next state).forgive
  | _, .write state next => .write state next.forgive
  | _, .note n next => .note n next.forgive
  | _, .call o next => .call o fun answer => (next answer).forgive
  | _, .lookup n allowEarly next => .lookup n allowEarly fun i => (next i).forgive
  | _, .getOrCreate n factory next =>
    .getOrCreate n factory.forgive fun answer => (next answer).forgive
  | _, .addEarlyFactory n code next => .addEarlyFactory n code.forgive next.forgive
  | _, .addHandle n code next => .addHandle n code.forgive next.forgive
  | _, .destroy n next => .destroy n next.forgive
  | _, .destroyAll next => .destroyAll next.forgive
  | _, .attempt body next => .attempt body.forgive fun outcome => (next outcome).forgive

def Entrusted.forgive (e : Entrusted C r) : Entrusted C r :=
  { e with code := e.code.forgive }

namespace Registry

variable (r : C.Store)

def forgive : C.Store :=
  r.map Entrusted.forgive Entrusted.forgive

theorem lookup_forgive (n : Name) (allowEarly : Bool) :
    r.forgive.lookup n allowEarly = (r.lookup n allowEarly).map Entrusted.forgive :=
  lookup_map _ _ r n allowEarly

theorem startCreation_forgive (n : Name) :
    r.forgive.startCreation n = (r.startCreation n).map forgive :=
  startCreation_map _ _ r n

theorem conclude_forgive (c : Creation) (result : Except CreationError Instance) :
    r.forgive.conclude c result = ((r.conclude c result).1, (r.conclude c result).2.forgive) :=
  conclude_map _ _ r c result

theorem rollback_forgive (c : Creation) :
    r.forgive.rollback c = ((r.rollback c).1, (r.rollback c).2.forgive) :=
  rollback_map _ _ r c

theorem expose_forgive (n : Name) (i : Instance) :
    r.forgive.cache.expose n i =
      ((r.cache.expose n i).1, (r.cache.expose n i).2.map Entrusted.forgive) :=
  Cache.map_expose _ r.cache n i

theorem perform_forgive (o : Operation) :
    r.forgive.perform o = (r.perform o).map forgive :=
  perform_map _ _ r o

theorem detach_forgive (n : Name) :
    r.forgive.detach n = ((r.detach n).1.map Entrusted.forgive, (r.detach n).2.forgive) :=
  detach_map _ _ r n

theorem wipe_forgive : r.forgive.wipe = r.wipe.forgive :=
  wipe_map _ _ r

theorem takeSlot_forgive (n : Name) :
    r.forgive.cache.takeSlot n = (r.cache.takeSlot n).map Entrusted.forgive :=
  (Cache.map_takeSlot _ r.cache n).symm

theorem addEarlyFactory_forgive (n : Name) (e : Entrusted C .early) :
    r.forgive.cache.addEarlyFactory n e.forgive =
      (r.cache.addEarlyFactory n e).map Entrusted.forgive :=
  (Cache.map_addEarlyFactory _ r.cache n e).symm

theorem insert_forgive (n : Name) (e : Entrusted C .callback) :
    r.forgive.handles.insert n e.forgive = (r.handles.insert n e).map Entrusted.forgive :=
  (Table.map_insert _ r.handles n e).symm

theorem keys_forgive : r.forgive.handles.keys = r.handles.keys :=
  Table.keys_map _ r.handles

end Registry

def Task.forgive : Task C → Task C
  | .settle n handle => .settle n handle.forgive
  | t => t

def Stack.forgive : {r : Role} → Stack C r → Stack C r
  | _, .bottom => .bottom
  | _, .creating c next s => .creating c (fun answer => (next answer).forgive) s.forgive
  | _, .exposing n ticket next s => .exposing n ticket (fun i => (next i).forgive) s.forgive
  | _, .settling n ticket tasks next s =>
    .settling n ticket (tasks.map Task.forgive) next.forgive s.forgive
  | _, .attempting next s => .attempting (fun outcome => (next outcome).forgive) s.forgive

def Control.forgive : Control C → Control C
  | .run p s => .run p.forgive s.forgive
  | .tear tasks next s => .tear (tasks.map Task.forgive) next.forgive s.forgive
  | .unwind text s => .unwind text s.forgive
  | .halted outcome => .halted outcome

def Event.isFailure : Event C → Bool
  | .logged (.callbackFailed _) => true
  | _ => false

namespace World

def forgive (w : World C) : World C where
  registry := w.registry.forgive
  state := w.state
  history := w.history.filter fun e => !e.isFailure
  tickets := w.tickets

variable (w : World C)

theorem forgive_registry : w.forgive.registry = w.registry.forgive :=
  rfl

theorem forgive_log {events : List LogEvent}
    (h : ∀ event ∈ events, Event.isFailure (C := C) (.logged event) = false) :
    (w.log events).forgive = w.forgive.log events := by
  have hkept : (events.map (Event.logged (C := C))).reverse.filter (fun e => !e.isFailure) =
      (events.map Event.logged).reverse := by
    rw [List.filter_eq_self]
    intro e he
    rw [List.mem_reverse, List.mem_map] at he
    obtain ⟨event, hevent, rfl⟩ := he
    rw [h event hevent]
    rfl
  unfold forgive log
  rw [List.filter_append, hkept]

end World

def Machine.forgive (m : Machine C) : Machine C :=
  ⟨m.world.forgive, m.control.forgive⟩

namespace Machine

variable {w : World C}

theorem forgive_conclude (c : Creation) (result : Except CreationError Instance)
    (next : Except RegistryError Instance → Program C r) (s : Stack C r) :
    (w.conclude c result next s).forgive =
      w.forgive.conclude c result (fun answer => (next answer).forgive) s.forgive := by
  unfold World.conclude
  rw [World.forgive_registry, Registry.conclude_forgive]
  dsimp
  split
  · rfl
  · rfl

theorem forgive_expose (n : Name) (ticket : Nat) (i : Instance)
    (next : Option Instance → Program C r) (s : Stack C r) :
    (w.expose n ticket i next s).forgive =
      w.forgive.expose n ticket i (fun i => (next i).forgive) s.forgive := by
  unfold World.expose
  rw [World.forgive_registry, Registry.expose_forgive]
  rfl

theorem forgive_settled (n : Name) (ticket : Nat) (result : Except Failure Unit)
    (tasks : List (Task C)) (next : Program C r) (s : Stack C r) :
    (w.settled n ticket result tasks next s).forgive =
      w.forgive.settled n ticket (.ok ()) (tasks.map Task.forgive) next.forgive s.forgive := by
  cases result with
  | ok x => rfl
  | error f => rfl

theorem forgive_finish (result : C.Result r) (s : Stack C r) :
    (w.finish result s).forgive = w.forgive.finish (C.pardon result) s.forgive := by
  cases s with
  | bottom => rfl
  | creating c next s => exact forgive_conclude c result next s
  | exposing n ticket next s => exact forgive_expose n ticket result next s
  | settling n ticket tasks next s => exact forgive_settled n ticket result tasks next s
  | attempting next s => rfl

theorem isFailure_perform (o : Operation) {event : LogEvent}
    (h : event ∈ (w.registry.perform o).events) :
    Event.isFailure (C := C) (.logged event) = false := by
  cases o with
  | register n i =>
    have hevents : event ∈ (w.registry.register n i).events := h
    unfold Registry.register at hevents
    split at hevents
    · rw [List.mem_singleton.mp hevents]
      rfl
    · cases hevents
  | addAlias name nick =>
    have hevents : event ∈ (w.registry.addAlias name nick).events := h
    unfold Registry.addAlias at hevents
    split at hevents
    · rw [List.mem_singleton.mp hevents]
      rfl
    · cases hevents
  | removeAlias nick =>
    have hevents : event ∈ (w.registry.removeAlias nick).events := h
    unfold Registry.removeAlias at hevents
    split at hevents
    · cases hevents
    · cases hevents
  | _ => cases h

theorem isFailure_rollback (c : Creation) {event : LogEvent}
    (h : event ∈ (w.registry.rollback c).1) : Event.isFailure (C := C) (.logged event) = false := by
  simp only [Registry.rollback, List.mem_cons] at h
  obtain rfl | h := h
  · rfl
  · split at h
    · rw [List.mem_singleton.mp h]
      rfl
    · cases h

theorem forgive_perform (o : Operation) (next : o.Answer → Program C r) (s : Stack C r) :
    (w.perform o next s).forgive =
      w.forgive.perform o (fun answer => (next answer).forgive) s.forgive := by
  unfold World.perform
  rw [World.forgive_registry, Registry.perform_forgive]
  simp only [forgive, World.run, Control.forgive]
  rw [World.forgive_log _ fun _ => isFailure_perform o]
  rfl

theorem forgive_lookup (n : Name) (allowEarly : Bool) (next : Option Instance → Program C r)
    (s : Stack C r) :
    (w.lookup n allowEarly next s).forgive =
      w.forgive.lookup n allowEarly (fun i => (next i).forgive) s.forgive := by
  unfold World.lookup
  rw [World.forgive_registry, Registry.lookup_forgive]
  cases w.registry.lookup n allowEarly with
  | found i => rfl
  | absent => rfl
  | consult e =>
    simp only [Lookup.map, Registry.takeSlot_forgive]
    rfl

theorem forgive_getOrCreate (n : Name) (factory : Program C .factory)
    (next : Except RegistryError Instance → Program C r) (s : Stack C r) :
    (w.getOrCreate n factory next s).forgive = w.forgive.getOrCreate n factory.forgive
      (fun answer => (next answer).forgive) s.forgive := by
  unfold World.getOrCreate
  rw [World.forgive_registry, Registry.startCreation_forgive]
  cases w.registry.startCreation n with
  | ready i => rfl
  | refused e => rfl
  | started c registry => rfl

theorem forgive_addEarlyFactory (n : Name) (code : Program C .early) (next : Program C r)
    (s : Stack C r) :
    (w.addEarlyFactory n code next s).forgive =
      w.forgive.addEarlyFactory n code.forgive next.forgive s.forgive := by
  have hadd : w.forgive.registry.cache.addEarlyFactory n ⟨w.forgive.tickets, code.forgive⟩ = _ :=
    w.registry.addEarlyFactory_forgive n ⟨w.tickets, code⟩
  unfold World.addEarlyFactory
  rw [hadd]
  rfl

theorem forgive_addHandle (n : Name) (code : Program C .callback) (next : Program C r)
    (s : Stack C r) :
    (w.addHandle n code next s).forgive =
      w.forgive.addHandle n code.forgive next.forgive s.forgive := by
  have hadd : w.forgive.registry.handles.insert n ⟨w.forgive.tickets, code.forgive⟩ = _ :=
    w.registry.insert_forgive n ⟨w.tickets, code⟩
  unfold World.addHandle
  rw [hadd]
  rfl

theorem map_forgive_visits (names : List Name) :
    (names.map Task.visit).map Task.forgive = names.map (Task.visit (C := C)) := by
  rw [List.map_map]
  rfl

theorem map_forgive_settle (n : Name) (handle : Option (Entrusted C .callback)) :
    (handle.toList.map (Task.settle n)).map Task.forgive =
      (handle.map Entrusted.forgive).toList.map (Task.settle n) := by
  cases handle with
  | none => rfl
  | some e => rfl

theorem forgive_destroyAll (next : Program C r) (s : Stack C r) :
    (w.destroyAll next s).forgive = w.forgive.destroyAll next.forgive s.forgive := by
  unfold World.destroyAll
  rw [World.forgive_registry, Registry.keys_forgive, forgive]
  simp only [Control.forgive, List.map_append, map_forgive_visits]
  rfl

theorem forgive_exec (p : Program C r) (s : Stack C r) :
    (w.exec p s).forgive = w.forgive.exec p.forgive s.forgive := by
  cases p with
  | done result => exact forgive_finish result s
  | panic text => rfl
  | read next => rfl
  | write state next => rfl
  | note n next => rfl
  | call o next => exact forgive_perform o next s
  | lookup n allowEarly next => exact forgive_lookup n allowEarly next s
  | getOrCreate n factory next => exact forgive_getOrCreate n factory next s
  | addEarlyFactory n code next => exact forgive_addEarlyFactory n code next s
  | addHandle n code next => exact forgive_addHandle n code next s
  | destroy n next => rfl
  | destroyAll next => exact forgive_destroyAll next s
  | attempt body next => rfl

theorem forgive_work (t : Task C) (tasks : List (Task C)) (next : Program C r) (s : Stack C r) :
    (w.work t tasks next s).forgive =
      w.forgive.work t.forgive (tasks.map Task.forgive) next.forgive s.forgive := by
  cases t with
  | visit n =>
    simp only [World.work, Task.forgive, World.forgive_registry, Registry.detach_forgive, forgive,
      Control.forgive, List.map_append, List.map_cons, map_forgive_visits, map_forgive_settle]
    rfl
  | settle n handle => rfl
  | release n =>
    simp only [World.work, Task.forgive, forgive, Control.forgive, List.map_append,
      map_forgive_visits]
    rfl
  | scrub n => rfl
  | wipe =>
    simp only [World.work, Task.forgive, World.forgive_registry, Registry.wipe_forgive]
    rfl

theorem forgive_unwind (text : String) (s : Stack C r) :
    (w.unwind text s).forgive = w.forgive.unwind text s.forgive := by
  cases s with
  | bottom => rfl
  | creating c next s =>
    unfold World.unwind
    rw [Stack.forgive]
    simp only [World.forgive_registry, Registry.rollback_forgive, forgive, Control.forgive]
    rw [World.forgive_log _ fun _ => isFailure_rollback c]
    rfl
  | exposing n ticket next s => rfl
  | settling n ticket tasks next s => rfl
  | attempting next s => rfl

theorem step_forgive (m : Machine C) : m.forgive.step = m.step.map forgive := by
  obtain ⟨w, control⟩ := m
  cases control with
  | run p s => exact congrArg some (forgive_exec p s).symm
  | tear tasks next s =>
    cases tasks with
    | nil => rfl
    | cons t tasks => exact congrArg some (forgive_work t tasks next s).symm
  | unwind text s => exact congrArg some (forgive_unwind text s).symm
  | halted outcome => rfl

end Machine

end InstanceRegistry
