import InstanceRegistry.Table

/-!
This module contains ways to resolve names that do without aliases.
-/

namespace InstanceRegistry

inductive Resolver where
  | identity
  | trimAmpersands
  | asciiLower
  | constant (name : Name)
  | table (names : Table Name)

def Resolver.resolve : Resolver → Name → Name
  | identity, n => n
  | trimAmpersands, n => .ofList (n.toList.dropWhile (· = '&'))
  | asciiLower, n => n.map Char.toLower
  | constant m, _ => m
  | table names, n => (names.find? n).getD n

end InstanceRegistry
