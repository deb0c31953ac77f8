import InstanceRegistry.NameSet

/-!
This module contains tables from names to values. A table lists each bound name once, in the order
in which the names were first bound. Its two views are `Table.keys` and `Table.find?`, and each
operation comes with what it does to them.
-/

namespace InstanceRegistry

universe u

variable {α : Type}

namespace Table

def lookup (n : Name) : List (Name × α) → Option α
  | [] => none
  | e :: es => if e.1 = n then some e.2 else lookup n es

def put (n : Name) (a : α) : List (Name × α) → List (Name × α)
  | [] => [(n, a)]
  | e :: es => if e.1 = n then (n, a) :: es else e :: put n a es

theorem lookup_eq_none_iff {n : Name} {es : List (Name × α)} :
    lookup n es = none ↔ ¬ n ∈ es.map (·.1) := by
  induction es with
  | nil => simp [lookup]
  | cons e es ih =>
    by_cases h : e.1 = n
    · simp [lookup, h]
    · simp [lookup, h, ih, Ne.symm h]

theorem map_fst_put (n : Name) (a : α) (es : List (Name × α)) :
    (put n a es).map (·.1) = if n ∈ es.map (·.1) then es.map (·.1) else es.map (·.1) ++ [n] := by
  induction es with
  | nil => simp [put]
  | cons e es ih =>
    by_cases h : e.1 = n
    · simp [put, h]
    · simp only [put, h, if_false, List.map_cons, ih, List.mem_cons, Ne.symm h, false_or]
      split <;> simp

theorem lookup_put (n m : Name) (a : α) (es : List (Name × α)) :
    lookup m (put n a es) = if m = n then some a else lookup m es := by
  induction es with
  | nil =>
    by_cases hm : m = n
    · simp [put, lookup, hm]
    · simp [put, lookup, hm, Ne.symm hm]
  | cons e es ih =>
    by_cases h : e.1 = n
    · by_cases hm : m = n
      · simp [put, lookup, h, hm]
      · simp [put, lookup, h, hm, Ne.symm hm]
    · by_cases he : e.1 = m
      · have hm : ¬ m = n := he ▸ h
        simp [put, lookup, he, hm]
      · simp [put, lookup, h, he, ih]

theorem lookup_filter_ne (n m : Name) (es : List (Name × α)) :
    lookup m (es.filter (·.1 ≠ n)) = if m = n then none else lookup m es := by
  induction es with
  | nil => simp [lookup]
  | cons e es ih =>
    by_cases h : e.1 = n
    · rw [List.filter_cons_of_neg (by simpa using h), ih, lookup]
      by_cases hm : m = n
      · simp [hm]
      · simp [hm, h, Ne.symm hm]
    · rw [List.filter_cons_of_pos (by simpa using h), lookup, lookup, ih]
      by_cases he : e.1 = m
      · simp [he, he ▸ h]
      · simp [he]

theorem filter_ne_of_not_mem {n : Name} {es : List (Name × α)} (h : ¬ n ∈ es.map (·.1)) :
    es.filter (·.1 ≠ n) = es := by
  rw [List.filter_eq_self]
  intro e he
  have : e.1 ≠ n := by
    rintro rfl
    exact h (List.mem_map_of_mem he)
  simpa using this

theorem put_of_lookup_eq_some {n : Name} {a : α} {es : List (Name × α)}
    (h : lookup n es = some a) : put n a es = es := by
  induction es with
  | nil => cases h
  | cons e es ih =>
    by_cases he : e.1 = n
    · simp only [lookup, he, if_true, Option.some.injEq] at h
      rw [put, if_pos he, ← he, ← h]
    · rw [lookup, if_neg he] at h
      rw [put, if_neg he, ih h]

theorem put_perm {n : Name} (a : α) {es : List (Name × α)} (h : (es.map (·.1)).Nodup) :
    (put n a es).Perm ((n, a) :: es.filter (·.1 ≠ n)) := by
  induction es with
  | nil => simp [put]
  | cons e es ih =>
    rw [List.map_cons, List.nodup_cons] at h
    by_cases he : e.1 = n
    · rw [List.filter_cons_of_neg (by simpa using he), filter_ne_of_not_mem (he ▸ h.1)]
      simp [put, he]
    · rw [List.filter_cons_of_pos (by simpa using he)]
      simp only [put, he, if_false]
      exact ((ih h.2).cons e).trans (List.Perm.swap (n, a) e _)

theorem perm_of_lookup_eq_some {n : Name} {a : α} {es : List (Name × α)}
    (h : (es.map (·.1)).Nodup) (ha : lookup n es = some a) :
    es.Perm ((n, a) :: es.filter (·.1 ≠ n)) := by
  induction es with
  | nil => simp [lookup] at ha
  | cons e es ih =>
    rw [List.map_cons, List.nodup_cons] at h
    by_cases he : e.1 = n
    · rw [List.filter_cons_of_neg (by simpa using he), filter_ne_of_not_mem (he ▸ h.1)]
      simp only [lookup, he, if_true, Option.some.injEq] at ha
      rw [← he, ← ha]
    · rw [List.filter_cons_of_pos (by simpa using he)]
      simp only [lookup, he, if_false] at ha
      exact ((ih h.2 ha).cons e).trans (List.Perm.swap (n, a) e _)

theorem lookup_of_mem {es : List (Name × α)} (h : (es.map (·.1)).Nodup) {e : Name × α}
    (he : e ∈ es) : lookup e.1 es = some e.2 := by
  induction es with
  | nil => cases he
  | cons e' es ih =>
    rw [List.map_cons, List.nodup_cons] at h
    rw [List.mem_cons] at he
    cases he with
    | inl he => simp [lookup, he]
    | inr he =>
      have hne : e'.1 ≠ e.1 := by
        intro heq
        apply h.1
        rw [heq]
        exact List.mem_map_of_mem he
      rw [lookup, if_neg hne, ih h.2 he]

end Table

/--
A finite map from names that remembers the order of first binding.
-/
structure Table (α : Type) where
  entries : List (Name × α)
  nodup : (entries.map (·.1)).Nodup

namespace Table

theorem ext {t u : Table α} (h : t.entries = u.entries) : t = u := by
  cases t
  cases u
  simp_all

def empty : Table α :=
  ⟨[], List.nodup_nil⟩

instance : EmptyCollection (Table α) := ⟨empty⟩

instance : Inhabited (Table α) := ⟨empty⟩

def keys (t : Table α) : List Name :=
  t.entries.map (·.1)

def size (t : Table α) : Nat :=
  t.entries.length

def isEmpty (t : Table α) : Bool :=
  t.entries.isEmpty

def find? (t : Table α) (n : Name) : Option α :=
  lookup n t.entries

def contains (t : Table α) (n : Name) : Bool :=
  (t.find? n).isSome

def insert (t : Table α) (n : Name) (a : α) : Table α :=
  ⟨put n a t.entries, by
    rw [map_fst_put]
    split
    · exact t.nodup
    case isFalse h =>
      rw [List.nodup_append]
      refine ⟨t.nodup, by simp, ?_⟩
      rintro b hb c hc rfl
      exact h (List.mem_singleton.mp hc ▸ hb)⟩

def erase (t : Table α) (n : Name) : Table α :=
  ⟨t.entries.filter (·.1 ≠ n), t.nodup.sublist (List.filter_sublist.map _)⟩

theorem keys_nodup (t : Table α) : t.keys.Nodup :=
  t.nodup

theorem find?_eq_none_iff {t : Table α} {n : Name} : t.find? n = none ↔ ¬ n ∈ t.keys :=
  lookup_eq_none_iff

theorem find?_of_mem_entries {t : Table α} {e : Name × α} (h : e ∈ t.entries) :
    t.find? e.1 = some e.2 :=
  lookup_of_mem t.nodup h

theorem contains_iff {t : Table α} {n : Name} : t.contains n = true ↔ n ∈ t.keys := by
  rw [contains, Option.isSome_iff_ne_none, Ne, find?_eq_none_iff, Decidable.not_not]

theorem find?_insert (t : Table α) (n m : Name) (a : α) :
    (t.insert n a).find? m = if m = n then some a else t.find? m :=
  lookup_put n m a t.entries

theorem keys_insert (t : Table α) (n : Name) (a : α) :
    (t.insert n a).keys = if n ∈ t.keys then t.keys else t.keys ++ [n] :=
  map_fst_put n a t.entries

theorem find?_erase (t : Table α) (n m : Name) :
    (t.erase n).find? m = if m = n then none else t.find? m :=
  lookup_filter_ne n m t.entries

@[simp]
theorem keys_erase (t : Table α) (n : Name) : (t.erase n).keys = t.keys.filter (· ≠ n) := by
  simp only [keys, erase, List.filter_map]
  rfl

theorem erase_of_find?_eq_none {t : Table α} {n : Name} (h : t.find? n = none) : t.erase n = t := by
  rw [find?_eq_none_iff] at h
  exact ext (filter_ne_of_not_mem h)

theorem insert_of_find?_eq_some {t : Table α} {n : Name} {a : α} (h : t.find? n = some a) :
    t.insert n a = t :=
  ext (put_of_lookup_eq_some h)

theorem entries_insert_perm (t : Table α) (n : Name) (a : α) :
    (t.insert n a).entries.Perm ((n, a) :: (t.erase n).entries) :=
  put_perm a t.nodup

theorem entries_perm_of_find?_eq_some {t : Table α} {n : Name} {a : α} (h : t.find? n = some a) :
    t.entries.Perm ((n, a) :: (t.erase n).entries) :=
  perm_of_lookup_eq_some t.nodup h

theorem size_erase_lt {t : Table α} {n : Name} {a : α} (h : t.find? n = some a) :
    (t.erase n).size < t.size := by
  have := (entries_perm_of_find?_eq_some h).length_eq
  simp only [size, this, List.length_cons]
  omega

def flatMap {β : Type u} (t : Table α) (f : α → List β) : List β :=
  t.entries.flatMap fun e => f e.2

@[simp]
theorem flatMap_empty {β : Type u} (f : α → List β) : (∅ : Table α).flatMap f = [] :=
  rfl

theorem flatMap_insert_perm {β : Type u} (t : Table α) (n : Name) (a : α) (f : α → List β) :
    ((t.insert n a).flatMap f).Perm (f a ++ (t.erase n).flatMap f) :=
  (entries_insert_perm t n a).flatMap_right _

theorem flatMap_perm_of_find?_eq_some {β : Type u} {t : Table α} {n : Name} {a : α}
    (h : t.find? n = some a) (f : α → List β) :
    (t.flatMap f).Perm (f a ++ (t.erase n).flatMap f) :=
  (entries_perm_of_find?_eq_some h).flatMap_right _

theorem isEmpty_iff {t : Table α} : t.isEmpty = true ↔ t = ∅ := by
  rw [isEmpty, List.isEmpty_iff]
  constructor
  · intro h
    exact ext h
  · rintro rfl
    rfl

end Table

end InstanceRegistry
