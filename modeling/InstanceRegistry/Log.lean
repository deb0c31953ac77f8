import InstanceRegistry.Error.Message

/-!
This module contains what a registry reports about itself while it works. Only warnings and errors
are events here; what is of use for debugging alone, such as that a destroy callback has succeeded,
is not recorded, and neither is within which of its operations the registry reports something.
-/

namespace InstanceRegistry

inductive Level where
  | warning
  | error
  deriving DecidableEq, Repr

inductive LogEvent where
  | refused (error : RegistryError)
  | rolledBack (name : Name)
  | callbackFailed (failure : Failure)
  | aliasRefused (error : AliasError)

namespace LogEvent

def level : LogEvent → Level
  | refused _ => .error
  | rolledBack _ => .error
  | callbackFailed _ => .warning
  | aliasRefused _ => .warning

def message : LogEvent → String
  | refused e => e.message
  | rolledBack _ => "Factory panicked, rolling back creation"
  | callbackFailed f => "Destroy callback failed: " ++ f.alternate
  | aliasRefused e => e.message

def subject : LogEvent → Option Name
  | rolledBack n => some n
  | _ => none

end LogEvent

end InstanceRegistry
