/-!
This module contains names and finite sets of names that remember the order in which their members
came in.
-/

namespace InstanceRegistry

abbrev Name := String

def Name.sort (names : List Name) : List Name :=
  names.mergeSort fun n m => decide (n ≤ m)

theorem Name.mem_sort {n : Name} {names : List Name} : n ∈ Name.sort names ↔ n ∈ names :=
  List.mem_mergeSort

/--
A set of names in the order of their first insertion.
-/
structure NameSet where
  toList : List Name
  nodup : toList.Nodup

namespace NameSet

theorem ext {s t : NameSet} (h : s.toList = t.toList) : s = t := by
  cases s
  cases t
  simp_all

instance : Membership Name NameSet where
  mem s n := n ∈ s.toList

instance (n : Name) (s : NameSet) : Decidable (n ∈ s) :=
  inferInstanceAs (Decidable (n ∈ s.toList))

instance : DecidableEq NameSet := fun s t =>
  if h : s.toList = t.toList then isTrue (ext h) else isFalse fun e => h (e ▸ rfl)

theorem mem_toList {n : Name} {s : NameSet} : n ∈ s.toList ↔ n ∈ s :=
  Iff.rfl

def empty : NameSet :=
  ⟨[], List.nodup_nil⟩

instance : EmptyCollection NameSet := ⟨empty⟩

instance : Inhabited NameSet := ⟨empty⟩

def isEmpty (s : NameSet) : Bool :=
  s.toList.isEmpty

def size (s : NameSet) : Nat :=
  s.toList.length

def insert (s : NameSet) (n : Name) : NameSet :=
  if h : n ∈ s then
    s
  else
    ⟨s.toList ++ [n], by
      have := s.nodup
      simp only [List.nodup_append, List.nodup_cons, List.mem_singleton]
      refine ⟨this, by simp, ?_⟩
      rintro a ha b rfl rfl
      exact h ha⟩

def erase (s : NameSet) (n : Name) : NameSet :=
  ⟨s.toList.filter (· ≠ n), s.nodup.filter _⟩

@[simp]
theorem toList_empty : (∅ : NameSet).toList = [] :=
  rfl

@[simp]
theorem not_mem_empty (n : Name) : ¬ n ∈ (∅ : NameSet) :=
  List.not_mem_nil

theorem insert_of_mem {s : NameSet} {n : Name} (h : n ∈ s) : s.insert n = s := by
  simp [insert, h]

theorem toList_insert_of_not_mem {s : NameSet} {n : Name} (h : ¬ n ∈ s) :
    (s.insert n).toList = s.toList ++ [n] := by
  simp [insert, h]

@[simp]
theorem mem_insert {s : NameSet} {n m : Name} : m ∈ s.insert n ↔ m ∈ s ∨ m = n := by
  by_cases h : n ∈ s
  · rw [insert_of_mem h]
    constructor
    · exact Or.inl
    · rintro (hm | rfl)
      · exact hm
      · exact h
  · rw [← mem_toList, toList_insert_of_not_mem h]
    simp [mem_toList]

@[simp]
theorem toList_erase (s : NameSet) (n : Name) :
    (s.erase n).toList = s.toList.filter (· ≠ n) :=
  rfl

@[simp]
theorem mem_erase {s : NameSet} {n m : Name} : m ∈ s.erase n ↔ m ∈ s ∧ m ≠ n := by
  rw [← mem_toList, toList_erase]
  simp [mem_toList]

theorem erase_of_not_mem {s : NameSet} {n : Name} (h : ¬ n ∈ s) : s.erase n = s := by
  apply ext
  rw [toList_erase, List.filter_eq_self]
  intro m hm
  have : m ≠ n := by
    rintro rfl
    exact h hm
  simpa using this

theorem isEmpty_iff {s : NameSet} : s.isEmpty = true ↔ s = ∅ := by
  rw [isEmpty, List.isEmpty_iff]
  constructor
  · intro h
    exact ext h
  · rintro rfl
    rfl

end NameSet

end InstanceRegistry
