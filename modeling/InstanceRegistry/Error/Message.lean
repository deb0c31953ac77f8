import InstanceRegistry.Error

/-!
This module contains the wording of errors. Every error has a message of one line and a chain: the
messages of the errors below it, from the nearest one to the last.
-/

namespace InstanceRegistry

def AliasError.message : AliasError → String
  | cycle n a =>
    s!"Cannot register alias '{a}' for name '{n}': circular reference - '{n}' is a direct or " ++
      s!"indirect alias for '{a}' already"
  | overriding n a r =>
    s!"Cannot define alias '{a}' for name '{n}': it is already registered for name '{r}'"
  | notRegistered a => s!"No alias '{a}' registered"

mutual

def RegistryError.message : RegistryError → String
  | .alreadyRegistered n =>
    s!"Could not register singleton '{n}': there is already an instance bound"
  | .currentlyInCreation n =>
    s!"Requested singleton '{n}' is currently in creation: is there an unresolvable circular " ++
      "reference?"
  | .creationDuringDestruction n =>
    s!"Singleton creation of '{n}' is not allowed while singletons of this registry are in " ++
      "destruction. Don't request a singleton from a destroy callback"
  | .notInCreation n => s!"Singleton '{n}' isn't currently in creation"
  | .creationFailed n source suppressed =>
    s!"Creation of singleton '{n}' failed ({suppressed.length} suppressed): " ++ source.message

def CreationError.message : CreationError → String
  | .registry e => e.message
  | .custom f => f.message

def Failure.message : Failure → String
  | .plain text => text
  | .registry e => e.message
  | .aliasing e => e.message
  | .context text _ => text

end

mutual

def RegistryError.chain : RegistryError → List String
  | .creationFailed _ source _ => source.message :: source.chain
  | _ => []

def CreationError.chain : CreationError → List String
  | .registry e => e.chain
  | .custom f => f.chain

def Failure.chain : Failure → List String
  | .plain _ => []
  | .registry e => e.chain
  | .aliasing _ => []
  | .context _ inner => inner.message :: inner.chain

end

def Failure.alternate (f : Failure) : String :=
  ": ".intercalate (f.message :: f.chain)

end InstanceRegistry
