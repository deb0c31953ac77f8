import InstanceRegistry.Error
import InstanceRegistry.Table

/-!
This module contains alias tables. An alias stands for another name, which may be an alias in turn;
the chain of a name lists what it stands for, link by link. Registration refuses an alias that would
close a chain into a circle.
-/

namespace InstanceRegistry

structure AliasTable where
  targets : Table Name
  allowOverriding : Bool

namespace AliasTable

def empty (allowOverriding : Bool) : AliasTable :=
  ⟨∅, allowOverriding⟩

/--
The names that a name stands for, nearest first. Every link is followed at most once.
-/
def chain (targets : Table Name) (n : Name) : List Name :=
  match _h : targets.find? n with
  | none => []
  | some m => m :: chain (targets.erase n) m
termination_by targets.size
decreasing_by exact Table.size_erase_lt _h

def sources (links : List (Name × Name)) (n : Name) : List Name :=
  (links.filter (·.2 = n)).map (·.1)

def others (links : List (Name × Name)) (n : Name) : List (Name × Name) :=
  links.filter (·.2 ≠ n)

theorem length_others_lt {links : List (Name × Name)} {n : Name} (h : sources links n ≠ []) :
    (others links n).length < links.length := by
  obtain ⟨a, ha⟩ := List.exists_mem_of_ne_nil _ h
  obtain ⟨e, he, _⟩ := List.mem_map.mp ha
  rw [List.mem_filter] at he
  rw [others, List.length_filter_lt_length_iff_exists]
  exact ⟨e, he.1, by simpa using he.2⟩

def collect (links : List (Name × Name)) (names : List Name) : List Name :=
  match names with
  | [] => []
  | n :: names =>
    sources links n ++ collect (others links n) (sources links n ++ names)
termination_by (links.length, names.length)
decreasing_by
  by_cases h : sources links n = []
  · rw [h, List.nil_append]
    apply Prod.Lex.right'
    · exact List.length_filter_le _ _
    · simp
  · apply Prod.Lex.left
    exact length_others_lt h

def canonical (t : AliasTable) (n : Name) : Name :=
  (chain t.targets n).getLastD n

def isAlias (t : AliasTable) (n : Name) : Bool :=
  t.targets.contains n

def hasAlias (t : AliasTable) (name nick : Name) : Bool :=
  name ∈ chain t.targets nick

def aliases (t : AliasTable) (n : Name) : List Name :=
  Name.sort (collect t.targets.entries [n])

def register (t : AliasTable) (name nick : Name) : Except AliasError AliasTable :=
  -- a name does not stand for itself, and after such a request not for anything else either
  if nick = name then
    .ok { t with targets := t.targets.erase nick }
  else
    let bound : Except AliasError AliasTable :=
      if t.hasAlias nick name then
        .error (.cycle name nick)
      else
        .ok { t with targets := t.targets.insert nick name }
    match t.targets.find? nick with
    | none => bound
    | some registered =>
      if registered = name then
        .ok t
      else if t.allowOverriding then
        bound
      else
        .error (.overriding name nick registered)

def remove (t : AliasTable) (nick : Name) : Except AliasError AliasTable :=
  if t.isAlias nick then
    .ok { t with targets := t.targets.erase nick }
  else
    .error (.notRegistered nick)

theorem chain_of_find?_eq_none {targets : Table Name} {n : Name} (h : targets.find? n = none) :
    chain targets n = [] := by
  rw [chain]
  split
  · rfl
  case h_2 hm => simp [h] at hm

theorem chain_of_find?_eq_some {targets : Table Name} {n m : Name} (h : targets.find? n = some m) :
    chain targets n = m :: chain (targets.erase n) m := by
  rw [chain]
  split
  case h_1 hm => simp [h] at hm
  case h_2 hm =>
    rw [h] at hm
    cases hm
    rfl

end AliasTable

end InstanceRegistry
