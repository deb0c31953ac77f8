import InstanceRegistry.Operation

/-!
This module contains scenarios: written descriptions of a session with a registry. A scenario is a
list of steps; the client code that a step hands to the registry is in turn a list of steps, its
body.
-/

namespace InstanceRegistry

namespace Scenario

inductive Expr where
  | int (n : Int)
  | text (s : String)
  | unit
  | holder (inner : Expr)
  | var (x : Name)

inductive Product where
  | made (inst : Expr)
  | failed (error : CreationError)

inductive OnError where
  | ignore
  | abort
  | wrap (context : String)
  | suppress

inductive BodyKind where
  | factory
  | early
  | callback
  | lock
  | thread
  | attempt
  deriving DecidableEq, Repr

structure Heading where
  title : String
  name : Option Name
  mentions : List Name

mutual

inductive Command where
  | perform (operation : Operation) (onError : OnError)
  | register (name : Name) (inst : Expr) (onError : OnError)
  | get (name : Name) (allowEarly : Bool) (bind : Option Name) (require : Option String)
  | getAs (name : Name) (kind : Kind)
  | getOrCreate (name : Name) (body : List Step) (product : Product) (bind : Option Name)
    (onError : OnError)
  | addEarlyFactory (name : Name) (body : List Step) (product : Expr)
  | addHandle (name : Name) (body : List Step) (error : Option Failure)
  | destroy (name : Name)
  | destroyAll
  | new (inst : Expr) (bind : Option Name)
  | same (x y : Name)
  | downcast (x : Name) (kind : Kind)
  | enclose (kind : BodyKind) (body : List Step)
  | attempt (body : List Step)
  | race (name : Name) (times : Nat) (product : Product)
  | panic (text : String)

inductive Step where
  | mk (heading : Heading) (command : Command)

end

end Scenario

structure Scenario where
  config : Config
  resolver : Option (Name → Name)
  steps : List Scenario.Step

end InstanceRegistry
