import InstanceRegistry.Proofs.Creation.Concurrent
import Mathlib.Data.List.Nodup

/-!
This module contains cycles of names whose factories request one another, with nothing to show
before they are done. The request that closes a cycle is refused, and the error passes through the
creations of all its names, which leave no trace of themselves (`World.cycle_fails`).
-/

namespace InstanceRegistry

variable {C : Client}

namespace RegistryError

def through (e : RegistryError) (ns : List Name) : RegistryError :=
  ns.foldr (fun n e => .creationFailed n (.registry e) []) e

theorem rootCause_through (e : RegistryError) (ns : List Name) :
    (e.through ns).rootCause = e.rootCause := by
  induction ns with
  | nil => rfl
  | cons n ns ih =>
    rw [← ih]
    rfl

end RegistryError

namespace Moment

def nested : List Name → List Moment
  | [] => []
  | n :: ns => .began (.factory n) :: nested ns ++ [.ended (.factory n)]

theorem count_began_nested (ns : List Name) (n : Name) :
    (nested ns).count (.began (.factory n)) = ns.count n := by
  induction ns with
  | nil => rfl
  | cons m ns ih => simp [nested, List.count_append, List.count_cons, ih]

end Moment

namespace Registry

variable {ε δ : Type}

structure Unknown (r : Registry ε δ) (n : Name) : Prop where
  not_ready : r.cache.ready.find? n = none
  no_slot : r.cache.slots.find? n = none
  not_listed : ¬ n ∈ r.cache.listed
  not_marked : ¬ n ∈ r.marks.active
  not_exempt : ¬ n ∈ r.marks.exempt

structure Busy (r : Registry ε δ) (n : Name) : Prop where
  not_ready : r.cache.ready.find? n = none
  marked : n ∈ r.marks.active
  not_exempt : ¬ n ∈ r.marks.exempt

variable {r r' : Registry ε δ} {n m : Name} {c : Creation}

theorem unknown_empty (config : Config) (resolver : Option (Name → Name)) (n : Name) :
    (empty config resolver : Registry ε δ).Unknown n :=
  ⟨rfl, rfl, NameSet.not_mem_empty n, NameSet.not_mem_empty n, NameSet.not_mem_empty n⟩

theorem Unknown.discard_eq (h : r.Unknown n) : r.cache.discard n = r.cache := by
  unfold Cache.discard
  rw [Table.erase_of_find?_eq_none h.no_slot, NameSet.erase_of_not_mem h.not_listed]

theorem Unknown.created_error (h : r.Unknown n) (e : CreationError) :
    r.created n (.error e) = (.error (.creationFailed n e []), r) := by
  rw [created, h.discard_eq]

theorem Unknown.marks_of_started (h : r.Unknown n) (hstart : r.startCreation n = .started c r') :
    r'.marks = { r.marks with active := r.marks.active.insert n } := by
  obtain ⟨_, _, _, hmark, _⟩ := startCreation_eq_started hstart
  unfold Marks.mark at hmark
  rw [if_neg h.not_exempt, if_neg h.not_marked, Option.some.injEq] at hmark
  exact hmark.symm

theorem Unknown.busy_of_started (h : r.Unknown n) (hstart : r.startCreation n = .started c r') :
    r'.Busy n := by
  obtain ⟨_, _, _, _, hcache, _⟩ := startCreation_eq_started hstart
  have hmarks := h.marks_of_started hstart
  refine ⟨?_, ?_, ?_⟩
  · rw [hcache]
    exact h.not_ready
  · simp [hmarks]
  · rw [hmarks]
    exact h.not_exempt

theorem Unknown.of_started (h : r.Unknown m) (hn : r.Unknown n) (hne : m ≠ n)
    (hstart : r.startCreation n = .started c r') : r'.Unknown m := by
  obtain ⟨_, _, _, _, hcache, _⟩ := startCreation_eq_started hstart
  have hmarks := hn.marks_of_started hstart
  refine ⟨?_, ?_, ?_, ?_, ?_⟩
  · rw [hcache]
    exact h.not_ready
  · rw [hcache]
    exact h.no_slot
  · rw [hcache]
    exact h.not_listed
  · simp [hmarks, h.not_marked, hne]
  · rw [hmarks]
    exact h.not_exempt

theorem unknown_of_started {ns : List Name} (h : ∀ m ∈ n :: ns, r.Unknown m)
    (hnodup : (n :: ns).Nodup) (hstart : r.startCreation n = .started c r') :
    ∀ m ∈ ns, r'.Unknown m := by
  intro m hm
  apply (h m (List.mem_cons_of_mem n hm)).of_started (h n List.mem_cons_self) _ hstart
  rintro rfl
  exact (List.nodup_cons.mp hnodup).1 hm

theorem Busy.of_started (h : r.Busy m) (hn : r.Unknown n)
    (hstart : r.startCreation n = .started c r') : r'.Busy m := by
  obtain ⟨_, _, _, _, hcache, _⟩ := startCreation_eq_started hstart
  have hmarks := hn.marks_of_started hstart
  refine ⟨?_, ?_, ?_⟩
  · rw [hcache]
    exact h.not_ready
  · simp [hmarks, h.marked]
  · rw [hmarks]
    exact h.not_exempt

theorem destroying_of_started (hstart : r.startCreation n = .started c r') :
    r'.cache.destroying = false := by
  obtain ⟨_, hdestroying, _, _, hcache, _⟩ := startCreation_eq_started hstart
  rw [hcache]
  exact hdestroying

theorem Busy.refused (h : r.Busy n) (hdestroying : r.cache.destroying = false) :
    r.startCreation n = .refused (.currentlyInCreation n) := by
  simp [startCreation, Marks.mark, h.not_ready, hdestroying, h.not_exempt, h.marked]

end Registry

def Program.PassesOn (next : Except RegistryError Instance → Program C .factory) : Prop :=
  ∀ e, next (.error e) = .done (.error (.registry e))

/--
A factory requests the first one of some names, whose factory requests the next one, and so on. The
factory of the last one requests the root. They all pass an error on, and between the requests they
ask nothing of the registry.
-/
inductive Program.Chases (root : Name) : List Name → Program C .factory → Prop
  | close {factory : Program C .factory} {next : Except RegistryError Instance → Program C .factory}
    (hnext : PassesOn next) : Chases root [] (.getOrCreate root factory next)
  | nest {n : Name} {ns : List Name} {factory : Program C .factory}
    {next : Except RegistryError Instance → Program C .factory} (hfactory : Chases root ns factory)
    (hnext : PassesOn next) : Chases root (n :: ns) (.getOrCreate n factory next)
  | aside {ns : List Name} {r : Role} {body : Program C r} {k : C.Result r → Program C .factory}
    (hbody : body.Quiet) (hk : ∀ x, Chases root ns (k x)) : Chases root ns (body.bind k)

namespace World

variable {w : World C} {n root : Name} {ns : List Name} {factory p : Program C .factory}

def GivesUp (w : World C) (p : Program C .factory) (root : Name) (ns : List Name) : Prop :=
  ∃ w' : World C,
    (∀ s, (w.run p s).Leads (w'.run (.done (r := .factory)
      (.error (.registry ((RegistryError.currentlyInCreation root).through ns)))) s)) ∧
    w'.registry = w.registry ∧ w'.moments = w.moments ++ Moment.nested ns

theorem answers_of_givesUp (hn : w.registry.Unknown n)
    (hdestroying : w.registry.cache.destroying = false)
    (h : ∀ c r', w.registry.startCreation n = .started c r' →
      (w.enter n r').GivesUp factory root ns) :
    ∃ w' : World C, w.Answers n factory w'
        (.error ((RegistryError.currentlyInCreation root).through (n :: ns))) ∧
      w'.registry = w.registry ∧ w'.moments = w.moments ++ Moment.nested (n :: ns) := by
  obtain ⟨c, r', hstart⟩ := Registry.exists_started hn.not_ready hdestroying hn.not_marked
  obtain ⟨w₁, hfactory, hregistry, hmoments⟩ := h c r' hstart
  obtain ⟨w', hanswers, hcreated, hended⟩ :=
    answers_of_factory hstart hn.not_marked hregistry hfactory
  rw [hn.created_error] at hanswers hcreated
  refine ⟨w', hanswers, hcreated, ?_⟩
  rw [hended, hmoments, moments_enter]
  simp [Moment.nested]

theorem givesUp_of_chases (h : p.Chases root ns) (hroot : w.registry.Busy root)
    (hdestroying : w.registry.cache.destroying = false) (hns : ∀ n ∈ ns, w.registry.Unknown n)
    (hnodup : ns.Nodup) : w.GivesUp p root ns := by
  induction h generalizing w with
  | @close factory next hnext =>
    refine ⟨w.log [.refused (.currentlyInCreation root)], ?_, rfl, by simp [Moment.nested]⟩
    intro s
    have hanswers : w.Answers root factory _ _ := answers_of_refused (hroot.refused hdestroying)
    have hanswer := hanswers next s
    rwa [hnext] at hanswer
  | @nest n ns factory next _ hnext ih =>
    have hn := hns n List.mem_cons_self
    have hgivesUp : ∀ c r', w.registry.startCreation n = .started c r' →
        (w.enter n r').GivesUp factory root ns := by
      intro c r' hstart
      apply ih
      · exact hroot.of_started hn hstart
      · exact Registry.destroying_of_started hstart
      · exact Registry.unknown_of_started hns hnodup hstart
      · exact hnodup.of_cons
    obtain ⟨w', hanswers, hw'⟩ := answers_of_givesUp hn hdestroying hgivesUp
    refine ⟨w', ?_, hw'⟩
    intro s
    have hanswer := hanswers next s
    rwa [hnext] at hanswer
  | @aside ns r body k hbody _ ih =>
    obtain ⟨w₁, result, haside, hregistry, hmoments, _⟩ := Machine.leadsBy_bind_of_quiet w hbody
    obtain ⟨w', hleads, hw'⟩ := ih result (w := w₁) (hregistry ▸ hroot) (hregistry ▸ hdestroying)
      (hregistry ▸ hns) hnodup
    rw [hregistry, hmoments] at hw'
    refine ⟨w', ?_, hw'⟩
    intro s
    exact (Machine.leads_of_leadsBy (haside k s)).trans (hleads s)

/--
A cycle of unknown names fails, whatever its length, with an error that tells of all its names, from
the first one that was requested to the last one, and of the refusal of the first one at the end. No
factory has run more than once, and the registry is as it was.
-/
theorem cycle_fails (w : World C) (root : Name) (ns : List Name) (factory : Program C .factory)
    (hdestroying : w.registry.cache.destroying = false) (hnodup : (root :: ns).Nodup)
    (hunknown : ∀ n ∈ root :: ns, w.registry.Unknown n) (h : factory.Chases root ns) :
    ∃ (w' : World C) (e : RegistryError), w.Answers root factory w' (.error e) ∧
      e = (RegistryError.currentlyInCreation root).through (root :: ns) ∧
      e.rootCause = .currentlyInCreation root ∧
      w'.moments = w.moments ++ Moment.nested (root :: ns) ∧
      (∀ n, (Moment.nested (root :: ns)).count (.began (.factory n)) ≤ 1) ∧
      w'.registry = w.registry := by
  have hroot := hunknown root List.mem_cons_self
  have hgivesUp : ∀ c r', w.registry.startCreation root = .started c r' →
      (w.enter root r').GivesUp factory root ns := by
    intro c r' hstart
    apply givesUp_of_chases h
    · exact hroot.busy_of_started hstart
    · exact Registry.destroying_of_started hstart
    · exact Registry.unknown_of_started hunknown hnodup hstart
    · exact hnodup.of_cons
  obtain ⟨w', hanswers, hregistry, hmoments⟩ := answers_of_givesUp hroot hdestroying hgivesUp
  refine ⟨w', _, hanswers, rfl, ?_, hmoments, ?_, hregistry⟩
  · exact RegistryError.rootCause_through _ (root :: ns)
  · intro n
    rw [Moment.count_began_nested]
    exact List.nodup_iff_count_le_one.mp hnodup n

def needing : Except RegistryError Instance → Program .plain .factory
  | .ok _ => .done (.ok ⟨0, .unit⟩)
  | .error e => .done (.error (.registry e))

theorem passesOn_needing : Program.PassesOn needing := by
  intro e
  rfl

def circling : Program .plain .factory :=
  .getOrCreate "b" (.getOrCreate "c" (.getOrCreate "a" (.done (.ok ⟨1, .unit⟩)) needing) needing)
    needing

theorem chases_circling : circling.Chases "a" ["b", "c"] :=
  .nest (.nest (.close passesOn_needing) passesOn_needing) passesOn_needing

theorem circling_fails : ∃ w',
    (World.fresh (C := .plain) {} none ()).Answers "a" circling w'
      (.error (.creationFailed "a" (.registry (.creationFailed "b" (.registry (.creationFailed "c"
        (.registry (.currentlyInCreation "a")) [])) [])) [])) ∧
      w'.registry = (World.fresh (C := .plain) {} none ()).registry := by
  obtain ⟨w', e, hanswers, rfl, _, _, _, hregistry⟩ :=
    cycle_fails (.fresh {} none ()) "a" ["b", "c"] circling rfl (by decide)
      (fun n _ => Registry.unknown_empty {} none n) chases_circling
  exact ⟨w', hanswers, hregistry⟩

end World

end InstanceRegistry
