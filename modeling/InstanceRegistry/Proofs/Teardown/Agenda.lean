import InstanceRegistry.Proofs.Teardown.Task

/-!
This module contains what a machine still has to tear down, frame by frame: a step does the first
task of the innermost teardown, begins another one, or leaves a frame (`Machine.move_of_step`).
-/

namespace InstanceRegistry

variable {C : Client}

def Stack.layers : {r : Role} → Stack C r → List (List (Task C))
  | _, .bottom => []
  | _, .creating _ _ s => [] :: s.layers
  | _, .exposing _ _ _ s => [] :: s.layers
  | _, .settling _ _ tasks _ s => tasks :: s.layers
  | _, .attempting _ s => [] :: s.layers

def Stack.lost : {r : Role} → Stack C r → List (Task C)
  | _, .settling _ _ tasks _ _ => tasks
  | _, _ => []

def Event.call? : Event C → Option Body
  | .began (.callback n ticket) => some (.callback n ticket)
  | _ => none

def World.calls (w : World C) : List Body :=
  w.history.filterMap Event.call?

@[simp]
theorem World.calls_log (w : World C) (events : List LogEvent) :
    (w.log events).calls = w.calls := by
  unfold World.calls
  rw [filterMap_log]
  intro event
  rfl

def Change.Tears : Change C → Prop
  | announce => True
  | visit _ => True
  | release _ => True
  | scrub _ => True
  | wipe => True
  | _ => False

/--
What a step does to the callbacks that have been run and to the tasks that are left, frame by frame.
Its change and the tasks that it gives up to a panic are known beforehand.
-/
inductive Move (r : C.Store) : Change C → List (Task C) → List Body → List (List (Task C)) →
    List Body → List (List (Task C)) → Prop
  | stay {change : Change C} {calls : List Body} {ls : List (List (Task C))}
    (h : ¬ change.Tears) : Move r change [] calls ls calls ls
  | enter {change : Change C} {calls : List Body} {ls : List (List (Task C))}
    (h : ¬ change.Tears) : Move r change [] calls ls calls ([] :: ls)
  | leave {change : Change C} {calls : List Body} {lost : List (Task C)}
    {ls : List (List (Task C))} (h : ¬ change.Tears) :
    Move r change lost calls (lost :: ls) calls ls
  | destroy {calls : List Body} {ls : List (List (Task C))} (n : Name) :
    Move r .idle [] calls ls calls ([.visit n] :: ls)
  | announce {calls : List Body} {ls : List (List (Task C))} :
    Move r .announce [] calls ls calls ((r.handles.keys.reverse.map .visit ++ [.wipe]) :: ls)
  | work {calls : List Body} {ts : List (Task C)} {ls : List (List (Task C))} (t : Task C) :
    Move r t.change [] calls ((t :: ts) :: ls) (t.call?.toList ++ calls) ((r.next t ++ ts) :: ls)

namespace Machine

def layers (m : Machine C) : List (List (Task C)) :=
  match m.control with
  | .run _ s => s.layers
  | .tear tasks _ s => tasks :: s.layers
  | .unwind _ s => s.layers
  | .halted _ => []

def lost (m : Machine C) : List (Task C) :=
  match m.control with
  | .unwind _ s => s.lost
  | _ => []

variable {w : World C} {r : Role}

theorem move_finish (result : C.Result r) (s : Stack C r) :
    Move w.registry (s.changeAtEnd result) [] w.calls s.layers
      (w.finish result s).world.calls (w.finish result s).layers := by
  cases s with
  | bottom => exact .stay id
  | creating c next s =>
    simp only [World.finish, World.conclude, World.run, World.calls_log]
    exact .leave id
  | exposing n ticket next s => exact .leave id
  | settling n ticket tasks next s =>
    simp only [World.finish, World.settled, World.calls_log]
    exact .stay id
  | attempting next s => exact .leave id

theorem move_lookup (n : Name) (allowEarly : Bool) (next : Option Instance → Program C r)
    (s : Stack C r) :
    Move w.registry (w.change (.lookup n allowEarly next) s) [] w.calls s.layers
      (w.lookup n allowEarly next s).world.calls (w.lookup n allowEarly next s).layers := by
  simp only [World.change, World.lookup]
  cases h : w.registry.lookup n allowEarly with
  | found i => exact .stay id
  | absent => exact .stay id
  | consult e => exact .enter id

theorem move_getOrCreate (n : Name) (factory : Program C .factory)
    (next : Except RegistryError Instance → Program C r) (s : Stack C r) :
    Move w.registry (w.change (.getOrCreate n factory next) s) [] w.calls s.layers
      (w.getOrCreate n factory next s).world.calls (w.getOrCreate n factory next s).layers := by
  simp only [World.change, World.getOrCreate]
  cases h : w.registry.startCreation n with
  | ready i => exact .stay id
  | refused e =>
    simp only [World.run, World.calls_log]
    exact .stay id
  | started c registry => exact .enter id

theorem move_exec (p : Program C r) (s : Stack C r) :
    Move w.registry (w.change p s) [] w.calls s.layers
      (w.exec p s).world.calls (w.exec p s).layers := by
  cases p with
  | done result => apply move_finish
  | panic text => exact .stay id
  | read next => exact .stay id
  | write state next => exact .stay id
  | note n next => exact .stay id
  | call o next =>
    simp only [World.exec, World.perform, World.run, World.calls_log]
    exact .stay id
  | lookup n allowEarly next => apply move_lookup
  | getOrCreate n factory next => apply move_getOrCreate
  | addEarlyFactory n code next => exact .stay id
  | addHandle n code next => exact .stay id
  | destroy n next => exact .destroy n
  | destroyAll next => exact .announce
  | attempt body next => exact .enter id

theorem move_work (t : Task C) (tasks : List (Task C)) (next : Program C r) (s : Stack C r) :
    Move w.registry t.change [] w.calls ((t :: tasks) :: s.layers)
      (w.work t tasks next s).world.calls (w.work t tasks next s).layers := by
  have hmove : Move w.registry t.change [] w.calls ((t :: tasks) :: s.layers)
    (t.call?.toList ++ w.calls) ((w.registry.next t ++ tasks) :: s.layers) := .work t
  cases t with
  | visit n =>
    unfold Registry.next at hmove
    rw [List.append_assoc, List.append_assoc] at hmove
    exact hmove
  | release n =>
    unfold Registry.next at hmove
    rw [List.append_assoc] at hmove
    exact hmove
  | _ => exact hmove

theorem move_unwind (text : String) (s : Stack C r) :
    Move w.registry s.changeAtPanic s.lost w.calls s.layers
      (w.unwind text s).world.calls (w.unwind text s).layers := by
  cases s with
  | bottom => exact .stay id
  | creating c next s =>
    simp only [World.unwind, World.calls_log]
    exact .leave id
  | exposing n ticket next s => exact .leave id
  | settling n ticket tasks next s => exact .leave id
  | attempting next s => exact .leave id

theorem move_of_step {m m' : Machine C} (h : m.step = some m') :
    Move m.world.registry m.change m.lost m.world.calls m.layers m'.world.calls m'.layers := by
  obtain ⟨w, control⟩ := m
  cases control with
  | run p s =>
    cases h
    apply move_exec
  | tear tasks next s =>
    cases tasks with
    | nil =>
      cases h
      exact .leave id
    | cons t tasks =>
      cases h
      apply move_work
  | unwind text s =>
    cases h
    apply move_unwind
  | halted outcome => cases h

end Machine

end InstanceRegistry
