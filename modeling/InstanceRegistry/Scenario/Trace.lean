import InstanceRegistry.Machine
import InstanceRegistry.Scenario.Session

/-!
This module contains traces: what a scenario shows of its history. An entry stands as deep as there
are bodies around it. A panic leaves bodies without a note; they are left when it is caught.
-/

namespace InstanceRegistry

namespace Scenario

inductive Entry where
  | step (title : String) (name : Option Name) (reply : Reply)
  | entered (kind : BodyKind) (name : Name)
  | logged (event : LogEvent)

structure Placed where
  depth : Nat
  entry : Entry

def unwound : List BodyKind → List BodyKind
  | [] => []
  | .attempt :: bodies => bodies
  | _ :: bodies => unwound bodies

def trace : List BodyKind → List (Event player) → List Placed
  | _, [] => []
  | bodies, event :: events =>
    match event with
    | .logged e => ⟨bodies.length, .logged e⟩ :: trace bodies events
    | .noted (.entered kind n) => ⟨bodies.length, .entered kind n⟩ :: trace (kind :: bodies) events
    | .noted .left => trace bodies.tail events
    | .noted .caught => trace (unwound bodies) events
    | .noted (.finished title n reply) =>
      ⟨bodies.length, .step title n reply⟩ :: trace bodies events
    | .began _ => trace bodies events
    | .ended _ => trace bodies events

end Scenario

end InstanceRegistry
