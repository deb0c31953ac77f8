import InstanceRegistry.Proofs.Graph.Query

/-!
This module contains the search that answers the question for a dependency, as it is without a
bound. It goes down from a name into its dependents, one after the other, and never goes into a name
twice. On every graph it comes to its end, and it has found the dependent if and only if there is a
path to it (`Graph.isDependent_decides_path`).
-/

namespace InstanceRegistry

variable {e : Edges} {resolve : Name → Name} {n m target : Name} {direct : NameSet}

namespace Edges

/--
The search for a name, begun at each of the given names in turn and ended as soon as the name is
found. It remembers the names that it has gone into, as they are written, not what they resolve to.
The dependents of a name are looked at before the search goes into any of them, and only then is the
name remembered.
-/
inductive Explores (e : Edges) (resolve : Name → Name) (target : Name) :
    NameSet → List Name → Bool → NameSet → Prop
  | done {seen : NameSet} : Explores e resolve target seen [] false seen
  | known {seen seen' : NameSet} {n : Name} {names : List Name} {found : Bool} (hn : n ∈ seen)
    (hrest : Explores e resolve target seen names found seen') :
    Explores e resolve target seen (n :: names) found seen'
  | bare {seen seen' : NameSet} {n : Name} {names : List Name} {found : Bool} (hn : ¬ n ∈ seen)
    (hfind : e.find? (resolve n) = none)
    (hrest : Explores e resolve target seen names found seen') :
    Explores e resolve target seen (n :: names) found seen'
  | direct {seen direct : NameSet} {n : Name} {names : List Name} (hn : ¬ n ∈ seen)
    (hfind : e.find? (resolve n) = some direct) (htarget : target ∈ direct) :
    Explores e resolve target seen (n :: names) true seen
  | deeper {seen seen' direct : NameSet} {n : Name} {names : List Name} (hn : ¬ n ∈ seen)
    (hfind : e.find? (resolve n) = some direct) (htarget : ¬ target ∈ direct)
    (hdeeper : Explores e resolve target (seen.insert n) direct.toList true seen') :
    Explores e resolve target seen (n :: names) true seen'
  | next {seen seen' seen'' direct : NameSet} {n : Name} {names : List Name} {found : Bool}
    (hn : ¬ n ∈ seen) (hfind : e.find? (resolve n) = some direct) (htarget : ¬ target ∈ direct)
    (hdeeper : Explores e resolve target (seen.insert n) direct.toList false seen')
    (hrest : Explores e resolve target seen' names found seen'') :
    Explores e resolve target seen (n :: names) found seen''

def Settled (e : Edges) (resolve : Name → Name) (seen : NameSet) (n : Name) : Prop :=
  n ∈ seen ∨ e.find? (resolve n) = none

def Exhausted (e : Edges) (resolve : Name → Name) (target : Name) (seen : NameSet) (n : Name) :
    Prop :=
  ¬ e.Follows resolve n target ∧ ∀ m, e.Follows resolve n m → e.Settled resolve seen m

variable {seen seen' : NameSet} {names : List Name} {found : Bool}

theorem Settled.mono (h : e.Settled resolve seen n) (hseen : ∀ m, m ∈ seen → m ∈ seen') :
    e.Settled resolve seen' n :=
  h.imp_left (hseen n)

theorem Exhausted.mono (h : e.Exhausted resolve target seen n) (hseen : ∀ m, m ∈ seen → m ∈ seen') :
    e.Exhausted resolve target seen' n :=
  ⟨h.1, fun m hm => (h.2 m hm).mono hseen⟩

theorem exhausted_of_direct (hfind : e.find? (resolve n) = some direct)
    (htarget : ¬ target ∈ direct) (h : ∀ m, m ∈ direct → e.Settled resolve seen m) :
    e.Exhausted resolve target seen n := by
  unfold Exhausted
  simp only [follows_iff_mem hfind]
  exact ⟨htarget, h⟩

theorem Explores.mem (h : e.Explores resolve target seen names found seen') :
    ∀ m, m ∈ seen → m ∈ seen' := by
  induction h with
  | done => exact fun m hm => hm
  | known _ _ ih => exact ih
  | bare _ _ _ ih => exact ih
  | direct => exact fun m hm => hm
  | deeper _ _ _ _ ih => exact fun m hm => ih m (NameSet.mem_insert.mpr (.inl hm))
  | next _ _ _ _ _ ihdeeper ih =>
    exact fun m hm => ih m (ihdeeper m (NameSet.mem_insert.mpr (.inl hm)))

theorem Explores.exists_pathVia (h : e.Explores resolve target seen names found seen')
    (hfound : found = true) : ∃ n ∈ names, e.PathVia resolve n target := by
  induction h with
  | done => cases hfound
  | @known _ _ n _ _ _ _ ih =>
    obtain ⟨m, hm, hpath⟩ := ih hfound
    exact ⟨m, List.mem_cons_of_mem n hm, hpath⟩
  | @bare _ _ n _ _ _ _ _ ih =>
    obtain ⟨m, hm, hpath⟩ := ih hfound
    exact ⟨m, List.mem_cons_of_mem n hm, hpath⟩
  | @direct _ _ n _ _ hfind htarget =>
    exact ⟨n, List.mem_cons_self, .single ((follows_iff_mem hfind).mpr htarget)⟩
  | @deeper _ _ _ n _ _ hfind _ _ ih =>
    obtain ⟨m, hm, hpath⟩ := ih rfl
    exact ⟨n, List.mem_cons_self, hpath.head ((follows_iff_mem hfind).mpr hm)⟩
  | @next _ _ _ _ n _ _ _ _ _ _ _ _ ih =>
    obtain ⟨m, hm, hpath⟩ := ih hfound
    exact ⟨m, List.mem_cons_of_mem n hm, hpath⟩

theorem Explores.exhausted (h : e.Explores resolve target seen names found seen')
    (hfound : found = false) : (∀ n ∈ names, e.Settled resolve seen' n) ∧
      ∀ n, n ∈ seen' → n ∈ seen ∨ e.Exhausted resolve target seen' n := by
  -- names that the search has gone into before may still wait for their dependents
  induction h with
  | done => exact ⟨fun n hn => absurd hn List.not_mem_nil, fun n hn => .inl hn⟩
  | known hn hrest ih =>
    refine ⟨?_, (ih hfound).2⟩
    rw [List.forall_mem_cons]
    exact ⟨.inl (hrest.mem _ hn), (ih hfound).1⟩
  | bare _ hfind _ ih =>
    refine ⟨?_, (ih hfound).2⟩
    rw [List.forall_mem_cons]
    exact ⟨.inr hfind, (ih hfound).1⟩
  | direct => cases hfound
  | deeper => cases hfound
  | @next seen seen' seen'' direct n _ _ _ hfind htarget hdeeper hrest ihdeeper ih =>
    obtain ⟨hdirect, hold⟩ := ihdeeper rfl
    obtain ⟨hnames, hnew⟩ := ih hfound
    constructor
    · rw [List.forall_mem_cons]
      have hn : n ∈ seen' := hdeeper.mem n (NameSet.mem_insert.mpr (.inr rfl))
      exact ⟨.inl (hrest.mem n hn), hnames⟩
    · intro m hm
      cases hnew m hm with
      | inr hm => exact .inr hm
      | inl hm =>
        cases hold m hm with
        | inr hm => exact .inr (hm.mono hrest.mem)
        | inl hm =>
          rw [NameSet.mem_insert] at hm
          cases hm with
          | inl hm => exact .inl hm
          | inr hm =>
            -- the name itself: all its dependents have been searched by now
            rw [hm]
            exact .inr (exhausted_of_direct hfind htarget fun k hk =>
              (hdirect k hk).mono hrest.mem)

theorem not_pathVia_of_exhausted (h : ∀ m, m ∈ seen → e.Exhausted resolve target seen m)
    (hn : e.Settled resolve seen n) : ¬ e.PathVia resolve n target := by
  intro hpath
  induction hpath using Relation.TransGen.head_induction_on with
  | single hstep =>
    cases hn with
    | inl hn => exact (h _ hn).1 hstep
    | inr hn => exact not_follows hn hstep
  | head hstep _ ih =>
    cases hn with
    | inl hn => exact ih ((h _ hn).2 _ hstep)
    | inr hn => exact not_follows hn hstep

theorem Explores.iff_pathVia (h : e.Explores resolve target ∅ [n] found seen) :
    found = true ↔ e.PathVia resolve n target := by
  constructor
  · intro hfound
    simpa using h.exists_pathVia hfound
  · intro hpath
    rw [← Bool.not_eq_false]
    intro hfound
    obtain ⟨hsettled, hexhausted⟩ := h.exhausted hfound
    refine not_pathVia_of_exhausted ?_ (hsettled n (List.mem_singleton_self n)) hpath
    exact fun m hm => (hexhausted m hm).resolve_left (NameSet.not_mem_empty m)

section Termination

variable {all : List Name}

def unseen (all : List Name) (seen : NameSet) : Nat :=
  (all.filter (¬ · ∈ seen)).length

theorem unseen_lt (hn : n ∈ all) (hnew : ¬ n ∈ seen) (hn' : n ∈ seen')
    (hseen : ∀ m, m ∈ seen → m ∈ seen') : unseen all seen' < unseen all seen := by
  have hfilter : all.filter (¬ · ∈ seen') =
      (all.filter (¬ · ∈ seen)).filter (¬ · ∈ seen') := by
    rw [List.filter_filter]
    apply List.filter_congr
    intro m _
    by_cases hm : m ∈ seen
    · simp [hm, hseen m hm]
    · simp [hm]
  unfold unseen
  rw [hfilter, List.length_filter_lt_length_iff_exists]
  exact ⟨n, List.mem_filter.mpr ⟨hn, by simpa using hnew⟩, by simpa using hn'⟩

theorem exists_explores (hall : ∀ n m, e.Follows resolve n m → m ∈ all) (seen : NameSet)
    (hnames : names ⊆ all) :
    ∃ found seen', e.Explores resolve target seen names found seen' := by
  induction hk : unseen all seen using Nat.strongRecOn generalizing seen names with
  | _ k ih =>
    subst hk
    induction names with
    | nil => exact ⟨false, seen, .done⟩
    | cons n names ihnames =>
      rw [List.cons_subset] at hnames
      obtain ⟨hn, hnames⟩ := hnames
      by_cases hknown : n ∈ seen
      · obtain ⟨found, seen', hrest⟩ := ihnames hnames
        exact ⟨found, seen', .known hknown hrest⟩
      · cases hfind : e.find? (resolve n) with
        | none =>
          obtain ⟨found, seen', hrest⟩ := ihnames hnames
          exact ⟨found, seen', .bare hknown hfind hrest⟩
        | some direct =>
          by_cases htarget : target ∈ direct
          · exact ⟨true, seen, .direct hknown hfind htarget⟩
          · have hself : n ∈ seen.insert n := NameSet.mem_insert.mpr (.inr rfl)
            have hseen : ∀ m, m ∈ seen → m ∈ seen.insert n :=
              fun m hm => NameSet.mem_insert.mpr (.inl hm)
            have hdirect : direct.toList ⊆ all :=
              fun m hm => hall n m ((follows_iff_mem hfind).mpr hm)
            obtain ⟨found, seen', hdeeper⟩ :=
              ih _ (unseen_lt hn hknown hself hseen) (seen.insert n) hdirect rfl
            cases found with
            | true => exact ⟨true, seen', .deeper hknown hfind htarget hdeeper⟩
            | false =>
              have hlt := unseen_lt hn hknown (hdeeper.mem n hself)
                fun m hm => hdeeper.mem m (hseen m hm)
              obtain ⟨found, seen'', hrest⟩ := ih _ hlt seen' hnames rfl
              exact ⟨found, seen'', .next hknown hfind htarget hdeeper hrest⟩

theorem mem_flatMap_of_follows (h : e.Follows resolve n m) : m ∈ e.flatMap NameSet.toList := by
  obtain ⟨direct, hfind, hm⟩ := mem_of_iff.mp h
  rw [(Table.flatMap_perm_of_find?_eq_some hfind NameSet.toList).mem_iff, List.mem_append]
  exact .inl hm

end Termination

theorem explores_iff :
    (∃ seen, e.Explores resolve target ∅ [n] found seen) ↔
      found = e.reaches resolve target [n] := by
  have hfound : ∀ found seen, e.Explores resolve target ∅ [n] found seen →
      found = e.reaches resolve target [n] := by
    intro found seen h
    rw [Bool.eq_iff_iff, h.iff_pathVia, reaches_iff]
    simp
  constructor
  · rintro ⟨seen, h⟩
    exact hfound found seen h
  · rintro rfl
    obtain ⟨found, seen, h⟩ : ∃ found seen, e.Explores resolve target ∅ [n] found seen := by
      have hall : ∀ k m, e.Follows resolve k m → m ∈ n :: e.flatMap NameSet.toList :=
        fun _ _ hm => List.mem_cons_of_mem n (mem_flatMap_of_follows hm)
      apply exists_explores hall
      simp
    rw [← hfound found seen h]
    exact ⟨seen, h⟩

end Edges

/--
On every graph, and however names are resolved, the search for a dependent comes to its end with
exactly one result. It has found the dependent if and only if there is a path of one edge or more to
it, over the edges of what the names on the way resolve to. A name depends on itself if and only if
it lies on a circle of such edges.
-/
theorem Graph.isDependent_decides_path (g : Graph) (resolve : Name → Name) (on dependent : Name) :
    (∀ found, (∃ seen, g.dependents.Explores resolve dependent ∅ [on] found seen) ↔
      found = g.isDependent resolve on dependent) ∧
    (g.isDependent resolve on dependent = true ↔ g.dependents.PathVia resolve on dependent) ∧
    (g.isDependent resolve on on = true ↔
      ∃ n, g.dependents.PathVia resolve on n ∧ g.dependents.PathVia resolve n on) := by
  refine ⟨fun found => Edges.explores_iff, isDependent_iff, ?_⟩
  rw [isDependent_iff]
  constructor
  · intro h
    exact ⟨on, h, h⟩
  · rintro ⟨n, hn, hon⟩
    exact hn.trans hon

end InstanceRegistry
