import InstanceRegistry.Program

/-!
This module contains the machine that runs programs against a registry. Between two steps of the
machine everything that is going on is data: the registry, the state of the client, the history, and
the stack of what waits for the running code to end. `Machine.step` is one step; a machine that has
halted has none.
-/

namespace InstanceRegistry

variable {C : Client}

/-- Code that was handed to the registry, and the ticket that it got then. No two share a ticket. -/
structure Entrusted (C : Client) (r : Role) where
  ticket : Nat
  code : Program C r

inductive Body where
  | factory (name : Name)
  | early (name : Name) (ticket : Nat)
  | callback (name : Name) (ticket : Nat)
  deriving DecidableEq, Repr

inductive Event (C : Client) where
  | logged (event : LogEvent)
  | noted (note : C.Note)
  | began (body : Body)
  | ended (body : Body)

structure World (C : Client) where
  registry : Registry (Entrusted C .early) (Entrusted C .callback)
  state : C.State
  -- the latest event comes first
  history : List (Event C)
  -- how many tickets have been given out
  tickets : Nat

inductive Task (C : Client) where
  | visit (name : Name)
  | settle (name : Name) (handle : Entrusted C .callback)
  | release (name : Name)
  | scrub (name : Name)
  | wipe

/-- What waits for a program to end, by the role of that program. -/
inductive Stack (C : Client) : Role → Type where
  | bottom : Stack C .block
  | creating {r : Role} (creation : Creation) (next : Except RegistryError Instance → Program C r)
    (rest : Stack C r) : Stack C .factory
  | exposing {r : Role} (name : Name) (ticket : Nat) (next : Option Instance → Program C r)
    (rest : Stack C r) : Stack C .early
  | settling {r : Role} (name : Name) (ticket : Nat) (tasks : List (Task C)) (next : Program C r)
    (rest : Stack C r) : Stack C .callback
  | attempting {r : Role} (next : Except String C.Answer → Program C r) (rest : Stack C r) :
    Stack C .block

inductive Control (C : Client) where
  | run {r : Role} (program : Program C r) (stack : Stack C r)
  | tear {r : Role} (tasks : List (Task C)) (next : Program C r) (stack : Stack C r)
  | unwind {r : Role} (text : String) (stack : Stack C r)
  | halted (outcome : Except String C.Answer)

structure Machine (C : Client) where
  world : World C
  control : Control C

namespace World

def log (w : World C) (events : List LogEvent) : World C :=
  { w with history := (events.map Event.logged).reverse ++ w.history }

def record (w : World C) (event : Event C) : World C :=
  { w with history := event :: w.history }

def run {r : Role} (w : World C) (p : Program C r) (s : Stack C r) : Machine C :=
  ⟨w, .run p s⟩

def perform {r : Role} (w : World C) (o : Operation) (next : o.Answer → Program C r)
    (s : Stack C r) : Machine C :=
  let p := w.registry.perform o
  ({ w with registry := p.registry }.log p.events).run (next p.answer) s

def lookup {r : Role} (w : World C) (n : Name) (allowEarly : Bool)
    (next : Option Instance → Program C r) (s : Stack C r) : Machine C :=
  match w.registry.lookup n allowEarly with
  | .found i => w.run (next (some i)) s
  | .absent => w.run (next none) s
  | .consult e =>
    let w := { w with registry := { w.registry with cache := w.registry.cache.takeSlot n } }
    (w.record (.began (.early n e.ticket))).run e.code (.exposing n e.ticket next s)

def getOrCreate {r : Role} (w : World C) (n : Name) (factory : Program C .factory)
    (next : Except RegistryError Instance → Program C r) (s : Stack C r) : Machine C :=
  match w.registry.startCreation n with
  | .ready i => w.run (next (.ok i)) s
  | .refused e => (w.log [.refused e]).run (next (.error e)) s
  | .started c registry =>
    ({ w with registry }.record (.began (.factory n))).run factory (.creating c next s)

def addEarlyFactory {r : Role} (w : World C) (n : Name) (code : Program C .early)
    (next : Program C r) (s : Stack C r) : Machine C :=
  let cache := w.registry.cache.addEarlyFactory n ⟨w.tickets, code⟩
  { w with registry := { w.registry with cache }, tickets := w.tickets + 1 }.run next s

def addHandle {r : Role} (w : World C) (n : Name) (code : Program C .callback)
    (next : Program C r) (s : Stack C r) : Machine C :=
  let handles := w.registry.handles.insert n ⟨w.tickets, code⟩
  { w with registry := { w.registry with handles }, tickets := w.tickets + 1 }.run next s

def destroyAll {r : Role} (w : World C) (next : Program C r) (s : Stack C r) : Machine C :=
  let cache := { w.registry.cache with destroying := true }
  ⟨{ w with registry := { w.registry with cache } },
    .tear (w.registry.handles.keys.reverse.map .visit ++ [.wipe]) next s⟩

def conclude {r : Role} (w : World C) (c : Creation) (result : Except CreationError Instance)
    (next : Except RegistryError Instance → Program C r) (s : Stack C r) : Machine C :=
  let (answer, registry) := w.registry.conclude c result
  let events := match answer with
    | .ok _ => []
    | .error e => [.refused e]
  ({ w.record (.ended (.factory c.name)) with registry }.log events).run (next answer) s

def expose {r : Role} (w : World C) (n : Name) (ticket : Nat) (i : Instance)
    (next : Option Instance → Program C r) (s : Stack C r) : Machine C :=
  let (answer, cache) := w.registry.cache.expose n i
  let w := w.record (.ended (.early n ticket))
  { w with registry := { w.registry with cache } }.run (next (some answer)) s

def settled {r : Role} (w : World C) (n : Name) (ticket : Nat) (result : Except Failure Unit)
    (tasks : List (Task C)) (next : Program C r) (s : Stack C r) : Machine C :=
  let events := match result with
    | .ok _ => []
    | .error f => [.callbackFailed f]
  ⟨(w.record (.ended (.callback n ticket))).log events, .tear tasks next s⟩

def finish (w : World C) : {r : Role} → C.Result r → Stack C r → Machine C
  | _, result, .bottom => ⟨w, .halted (.ok result)⟩
  | _, result, .creating c next s => w.conclude c result next s
  | _, result, .exposing n ticket next s => w.expose n ticket result next s
  | _, result, .settling n ticket tasks next s => w.settled n ticket result tasks next s
  | _, result, .attempting next s => w.run (next (.ok result)) s

def exec {r : Role} (w : World C) (p : Program C r) (s : Stack C r) : Machine C :=
  match p with
  | .done result => w.finish result s
  | .panic text => ⟨w, .unwind text s⟩
  | .read next => w.run (next w.state) s
  | .write state next => { w with state }.run next s
  | .note n next => (w.record (.noted n)).run next s
  | .call o next => w.perform o next s
  | .lookup n allowEarly next => w.lookup n allowEarly next s
  | .getOrCreate n factory next => w.getOrCreate n factory next s
  | .addEarlyFactory n code next => w.addEarlyFactory n code next s
  | .addHandle n code next => w.addHandle n code next s
  | .destroy n next => ⟨w, .tear [.visit n] next s⟩
  | .destroyAll next => w.destroyAll next s
  | .attempt body next => w.run body (.attempting next s)

/--
Do one task of a teardown. What depends on a name is torn down before its callback runs, what it
contains after that. The names to visit are out of the graph by then, so that a circle of edges
leads nowhere.
-/
def work {r : Role} (w : World C) (t : Task C) (tasks : List (Task C)) (next : Program C r)
    (s : Stack C r) : Machine C :=
  match t with
  | .visit n =>
    let (handle, registry) := w.registry.detach n
    let (dependents, graph) := registry.graph.takeDependents n
    let rest := (handle.toList.map (.settle n)) ++ .release n :: tasks
    ⟨{ w with registry := { registry with graph } },
      .tear (dependents.map .visit ++ rest) next s⟩
  | .settle n handle =>
    (w.record (.began (.callback n handle.ticket))).run handle.code
      (.settling n handle.ticket tasks next s)
  | .release n =>
    let (contained, graph) := w.registry.graph.takeContained n
    ⟨{ w with registry := { w.registry with graph } },
      .tear (contained.map .visit ++ .scrub n :: tasks) next s⟩
  | .scrub n =>
    let graph := w.registry.graph.removeReferences n
    ⟨{ w with registry := { w.registry with graph } }, .tear tasks next s⟩
  | .wipe => ⟨{ w with registry := w.registry.wipe }, .tear tasks next s⟩

def unwind (w : World C) (text : String) : {r : Role} → Stack C r → Machine C
  | _, .bottom => ⟨w, .halted (.error text)⟩
  | _, .creating c _ s =>
    let (events, registry) := w.registry.rollback c
    ⟨{ w with registry }.log events, .unwind text s⟩
  | _, .exposing _ _ _ s => ⟨w, .unwind text s⟩
  | _, .settling _ _ _ _ s => ⟨w, .unwind text s⟩
  | _, .attempting next s => w.run (next (.error text)) s

end World

namespace Machine

def start (w : World C) (p : Program C .block) : Machine C :=
  w.run p .bottom

def step (m : Machine C) : Option (Machine C) :=
  match m.control with
  | .run p s => some (m.world.exec p s)
  | .tear [] next s => some (m.world.run next s)
  | .tear (t :: tasks) next s => some (m.world.work t tasks next s)
  | .unwind text s => some (m.world.unwind text s)
  | .halted _ => none

end Machine

end InstanceRegistry
