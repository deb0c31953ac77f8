import InstanceRegistry.Program
import InstanceRegistry.Scenario

/-!
This module contains the client that plays a scenario: its state is what the steps share, and its
notes say where the scenario is and what its steps came to.
-/

namespace InstanceRegistry

namespace Scenario

inductive Reply where
  | ok
  | bool (b : Bool)
  | flags (b c : Bool)
  | count (n : Nat)
  | name (n : Name)
  | names (ns : List Name)
  | instance (inst : Option Instance)
  | value (value : Option Value)
  | failed (error : RegistryError)
  | aliasRefused (error : AliasError)
  | panicked (text : String)
  | race (calls : Nat) (answers : List (Except RegistryError Instance))

namespace Reply

def ofCreation : Except RegistryError Instance → Reply
  | .ok i => .instance (some i)
  | .error e => .failed e

def ofRegistration : Except RegistryError Unit → Reply
  | .ok _ => .ok
  | .error e => .failed e

def ofAliasChange : Except AliasError Unit → Reply
  | .ok _ => .ok
  | .error e => .aliasRefused e

def ofAnswer : (o : Operation) → o.Answer → Reply
  | .register _ _, a => .ofRegistration a
  | .suppress _, _ => .ok
  | .remove _, _ => .ok
  | .clear, _ => .ok
  | .contains _, a => .bool a
  | .names, a => .names a
  | .count, a => .count a
  | .inDestruction, a => .bool a
  | .setInCreation _ _, _ => .ok
  | .inCreation _, a => .flags a.1 a.2
  | .contain _ _, _ => .ok
  | .depend _ _, _ => .ok
  | .isDependent _ _, a => .bool a
  | .isDependentVia _ _ _, a => .bool a
  | .hasDependent _, a => .bool a
  | .dependents _, a => .names a
  | .dependencies _, a => .names a
  | .contained _, a => .names a
  | .graphIsEmpty, a => .bool a
  | .removeEdges _, _ => .ok
  | .addAlias _ _, a => .ofAliasChange a
  | .removeAlias _, a => .ofAliasChange a
  | .isAlias _, a => .bool a
  | .hasAlias _ _, a => .bool a
  | .aliases _, a => .names a
  | .canonical _, a => .name a

def error? : Reply → Option CreationError
  | failed e => some (.registry e)
  | aliasRefused e => some (.custom (.aliasing e))
  | _ => none

end Reply

structure Session where
  allocated : Nat
  vars : Table Instance
  calls : Nat
  touched : NameSet

def Session.start : Session :=
  ⟨0, ∅, 0, ∅⟩

inductive Flow where
  | next
  | abort (error : CreationError)

inductive Note where
  | entered (kind : BodyKind) (name : Name)
  | left
  | caught
  | finished (title : String) (name : Option Name) (reply : Reply)

abbrev player : Client where
  State := Session
  Note := Note
  Answer := Flow

end Scenario

end InstanceRegistry
