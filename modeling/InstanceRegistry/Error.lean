import InstanceRegistry.NameSet

/-!
This module contains the ways in which requests to a registry fail. Errors are causes; their wording
is in `InstanceRegistry.Error.Message`.
-/

namespace InstanceRegistry

inductive AliasError where
  | cycle (name nick : Name)
  | overriding (name nick registered : Name)
  | notRegistered (nick : Name)
  deriving DecidableEq, Repr

mutual

inductive RegistryError where
  | alreadyRegistered (name : Name)
  | currentlyInCreation (name : Name)
  | creationDuringDestruction (name : Name)
  | notInCreation (name : Name)
  | creationFailed (name : Name) (source : CreationError) (suppressed : List Failure)

inductive CreationError where
  | registry (error : RegistryError)
  | custom (failure : Failure)

inductive Failure where
  | plain (text : String)
  | registry (error : RegistryError)
  | aliasing (error : AliasError)
  | context (text : String) (inner : Failure)

end

namespace RegistryError

def name : RegistryError → Name
  | alreadyRegistered n => n
  | currentlyInCreation n => n
  | creationDuringDestruction n => n
  | notInCreation n => n
  | creationFailed n _ _ => n

def rootCause : RegistryError → RegistryError
  | creationFailed _ (.registry e) _ => e.rootCause
  | e => e

end RegistryError

def CreationError.toFailure : CreationError → Failure
  | .registry e => .registry e
  | .custom f => f

def Failure.withContexts (f : Failure) (contexts : List String) : Failure :=
  contexts.foldl (fun inner text => .context text inner) f

end InstanceRegistry
