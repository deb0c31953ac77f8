import InstanceRegistry.Operation

/-!
This module contains programs: client code that works with a registry. A program is the tree of the
requests that it makes, each with what the client does for every answer. Client code runs in one of
four roles, which decide what it gives when it is done. Programs are finite in depth, so client code
that keeps to itself always comes to an end.
-/

namespace InstanceRegistry

/--
What client code brings along: a state of its own, the notes it takes, and what its blocks give.
-/
structure Client where
  State : Type
  Note : Type
  Answer : Type

inductive Role where
  | factory
  | early
  | callback
  | block
  deriving DecidableEq, Repr

abbrev Client.Result (C : Client) : Role → Type
  | .factory => Except CreationError Instance
  | .early => Instance
  | .callback => Except Failure Unit
  | .block => C.Answer

inductive Program (C : Client) : Role → Type where
  | done {r : Role} (result : C.Result r) : Program C r
  | panic {r : Role} (text : String) : Program C r
  | read {r : Role} (next : C.State → Program C r) : Program C r
  | write {r : Role} (state : C.State) (next : Program C r) : Program C r
  | note {r : Role} (note : C.Note) (next : Program C r) : Program C r
  | call {r : Role} (operation : Operation) (next : operation.Answer → Program C r) : Program C r
  | lookup {r : Role} (name : Name) (allowEarly : Bool) (next : Option Instance → Program C r) :
    Program C r
  | getOrCreate {r : Role} (name : Name) (factory : Program C .factory)
    (next : Except RegistryError Instance → Program C r) : Program C r
  | addEarlyFactory {r : Role} (name : Name) (code : Program C .early) (next : Program C r) :
    Program C r
  | addHandle {r : Role} (name : Name) (code : Program C .callback) (next : Program C r) :
    Program C r
  | destroy {r : Role} (name : Name) (next : Program C r) : Program C r
  | destroyAll {r : Role} (next : Program C r) : Program C r
  | attempt {r : Role} (body : Program C .block) (next : Except String C.Answer → Program C r) :
    Program C r

end InstanceRegistry
