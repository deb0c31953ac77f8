import InstanceRegistry.Proofs.Creation.Outcome
import InstanceRegistry.Proofs.Run

/-!
This module contains which suppressed errors the failure of a creation carries: the outermost
creation carries the first of those that were reported while its factory was running, a nested one
carries none (`Machine.creationFailed_suppressed`).
-/

namespace InstanceRegistry

variable {C : Client}

def Change.suppressed : Change C → List Failure
  | perform (.suppress f) => [f]
  | _ => []

def Change.window (limit : Nat) (window : Option (List Failure)) : Change C → Option (List Failure)
  | perform (.suppress f) => window.map fun fs => if fs.length < limit then fs ++ [f] else fs
  | start _ => some (window.getD [])
  | conclude c _ => if c.collects then none else window
  | rollback c => if c.collects then none else window
  | _ => window

section Shift

variable {change : Change C} {r r' : C.Store} {cs cs' : List Creation}

theorem Shift.window_eq (h : Shift change r cs r' cs') :
    r'.cache.window = change.window r.suppressedLimit r.cache.window := by
  cases h with
  | perform o =>
    rw [Registry.perform_window]
    cases o with
    | suppress f => rfl
    | _ => rfl
  | start hstart =>
    obtain ⟨_, _, _, _, hcache, _⟩ := Registry.startCreation_eq_started hstart
    rw [hcache]
    rfl
  | conclude c result =>
    rw [Registry.conclude_eq]
    rfl
  | rollback c =>
    rw [Registry.rollback_eq]
    rfl
  | expose n i =>
    unfold Cache.expose
    split
    · rfl
    · rfl
  | addEarlyFactory n code =>
    unfold Cache.addEarlyFactory
    split
    · rfl
    · rfl
  | _ => rfl

theorem Shift.suppressedLimit_eq (h : Shift change r cs r' cs') :
    r'.suppressedLimit = r.suppressedLimit := by
  cases h with
  | perform o => exact Registry.perform_suppressedLimit ..
  | start hstart =>
    obtain ⟨_, _, _, _, _, hr⟩ := Registry.startCreation_eq_started hstart
    rw [hr]
  | conclude c result => rw [Registry.conclude_eq]
  | rollback c => rw [Registry.rollback_eq]
  | _ => rfl

end Shift

structure Collecting (window : Option (List Failure)) (cs : List Creation) : Prop where
  isSome_iff : window.isSome = true ↔ cs ≠ []
  collects_iff : ∀ c rest, c :: rest <:+ cs → (c.collects = true ↔ rest = [])

namespace Collecting

variable {window window' : Option (List Failure)} {cs : List Creation} {c : Creation}

theorem nil : Collecting none [] := by
  constructor
  · simp
  · intro c rest h
    rw [List.suffix_nil] at h
    cases h

theorem window_eq_none (h : Collecting window []) : window = none := by
  rw [← Option.not_isSome_iff_eq_none, h.isSome_iff]
  simp

theorem congr (h : Collecting window cs) (hw : window'.isSome = window.isSome) :
    Collecting window' cs := by
  constructor
  · rw [hw]
    exact h.isSome_iff
  · exact h.collects_iff

theorem start (h : Collecting window cs) (n : Name) (marks : Bool) :
    Collecting (some (window.getD [])) (⟨n, marks, window.isNone⟩ :: cs) := by
  constructor
  · simp
  · intro c rest hrest
    rw [List.suffix_cons_iff] at hrest
    cases hrest with
    | inl heq =>
      rw [List.cons.injEq] at heq
      rw [heq.1, heq.2, ← Option.not_isSome, Bool.not_eq_true', Bool.eq_false_iff, Ne, h.isSome_iff,
        Ne, Decidable.not_not]
    | inr hrest => exact h.collects_iff c rest hrest

theorem finish (h : Collecting window (c :: cs)) :
    Collecting (if c.collects then none else window) cs := by
  have hc : c.collects = true ↔ cs = [] := h.collects_iff c cs (List.suffix_refl _)
  constructor
  · split
    · next hcollects => simp [hc.mp hcollects]
    · next hcollects =>
      rw [h.isSome_iff]
      simpa using mt hc.mpr hcollects
  · intro d rest hrest
    exact h.collects_iff d rest (hrest.trans (List.suffix_cons c cs))

end Collecting

section Shift

variable {change : Change C} {r r' : C.Store} {cs cs' : List Creation}

theorem Shift.collecting (h : Shift change r cs r' cs') (hcs : Collecting r.cache.window cs) :
    Collecting r'.cache.window cs' := by
  rw [h.window_eq]
  cases h with
  | perform o =>
    apply hcs.congr
    cases o with
    | suppress f => simp [Change.window]
    | _ => rfl
  | start hstart =>
    obtain ⟨_, _, hc, _⟩ := Registry.startCreation_eq_started hstart
    rw [hc]
    exact hcs.start ..
  | conclude c result => exact hcs.finish
  | rollback c => exact hcs.finish
  | _ => exact hcs

theorem Shift.suffix_creations (h : Shift change r cs r' cs') {c : Creation}
    {rest : List Creation} (hc : c :: rest <:+ cs') :
    c :: rest <:+ cs ∨ change = .start c ∧ cs = rest := by
  cases h with
  | start hstart =>
    rw [List.suffix_cons_iff] at hc
    cases hc with
    | inl heq =>
      rw [List.cons.injEq] at heq
      rw [heq.1, heq.2]
      exact Or.inr ⟨rfl, rfl⟩
    | inr hc => exact Or.inl hc
  | conclude d result => exact Or.inl (hc.trans (List.suffix_cons d _))
  | rollback d => exact Or.inl (hc.trans (List.suffix_cons d _))
  | _ => exact Or.inl hc

theorem Shift.window_eq_take (h : Shift change r cs r' cs') (hcs : Collecting r.cache.window cs)
    (hcs' : cs' ≠ []) {fs : List Failure} (hw : r.cache.window = some (fs.take r.suppressedLimit)) :
    r'.cache.window = some ((fs ++ change.suppressed).take r.suppressedLimit) := by
  -- a creation that ends is not the outermost one, so that it leaves the window open
  have hcollects : ∀ c, cs = c :: cs' → ¬ c.collects = true := by
    intro c hc
    rw [hcs.collects_iff c cs' ⟨[], hc.symm⟩]
    exact hcs'
  rw [h.window_eq, hw]
  cases h with
  | perform o =>
    cases o with
    | suppress f =>
      simp only [Change.window, Change.suppressed, Option.map_some, Option.some.injEq]
      by_cases hlt : fs.length < r.suppressedLimit
      · rw [List.take_of_length_le (Nat.le_of_lt hlt), if_pos hlt, List.take_of_length_le]
        simp only [List.length_append, List.length_singleton]
        omega
      · rw [if_neg, List.take_append_of_le_length (by omega)]
        rw [List.length_take]
        omega
    | _ => simp [Change.window, Change.suppressed]
  | conclude c result => simp [Change.window, Change.suppressed, hcollects c rfl]
  | rollback c => simp [Change.window, Change.suppressed, hcollects c rfl]
  | _ => simp [Change.window, Change.suppressed]

end Shift

theorem Shift.eq_conclude_of_refusal {change : Change C} {r r' : C.Store} {cs cs' : List Creation}
    (h : Shift change r cs r' cs') {n : Name} {e : CreationError} {fs : List Failure}
    (hfailed : change.refusal? r = some (.creationFailed n e fs)) :
    ∃ c result, cs = c :: cs' ∧ change = .conclude c result ∧ fs = r.collected c := by
  cases h with
  | refuse hrefused =>
    cases Registry.startCreation_eq_refused hrefused with
    | inl he => simp [Change.refusal?, he.1] at hfailed
    | inr he => simp [Change.refusal?, he] at hfailed
  | conclude c result =>
    refine ⟨c, result, rfl, rfl, ?_⟩
    unfold Change.refusal? at hfailed
    dsimp at hfailed
    split at hfailed
    · cases hfailed
    · next he =>
      rw [Option.some.injEq] at hfailed
      rw [hfailed] at he
      exact Registry.eq_collected_of_conclude he
  | perform o =>
    cases o with
    | register m i =>
      simp only [Change.refusal?, Registry.register, Cache.register] at hfailed
      split at hfailed
      · cases hfailed
      · next he =>
        split at he
        · next herror =>
          cases he
          split at herror
          · cases herror
            cases hfailed
          · cases herror
        · cases he
    | _ => cases hfailed
  | _ => cases hfailed

namespace Machine

def Creates (j : Machine C) (changes : List (Change C)) (k : Machine C) : Prop :=
  ∃ c j' result, j.change = .start c ∧ j.step = some j' ∧
    j'.MakesBy (fun i => j.creations.length < i.creations.length) changes k ∧
    k.creations = c :: j.creations ∧ k.change = .conclude c result

variable {m j j' k k' : Machine C}

theorem collecting_of_leads (config : Config) (resolver : Option (Name → Name)) (state : C.State)
    (p : Program C .block) (h : (start (.fresh config resolver state) p).Leads m) :
    Collecting m.world.registry.cache.window m.creations ∧
      m.world.registry.suppressedLimit = config.suppressedLimit := by
  apply of_leadsBy (I := fun r cs => Collecting r.cache.window cs ∧
    r.suppressedLimit = config.suppressedLimit) h
  · exact ⟨Collecting.nil, rfl⟩
  · intro k r' cs' _ hshift hk
    exact ⟨hshift.collecting hk.1, hshift.suppressedLimit_eq.trans hk.2⟩

theorem exists_start (h : m.Leads k) (hm : m.creations = []) {c : Creation}
    {rest : List Creation} (hc : c :: rest <:+ k.creations) :
    ∃ j j' changes, m.Leads j ∧ j.change = .start c ∧ j.creations = rest ∧ j.step = some j' ∧
      j'.MakesBy (fun i => rest.length < i.creations.length) changes k := by
  induction h with
  | refl =>
    rw [hm, List.suffix_nil] at hc
    cases hc
  | @tail k k' hk hstep ih =>
    -- either the creation has been running before the step, or the step has started it
    cases (shift_of_step hstep.2).suffix_creations hc with
    | inl hc =>
      obtain ⟨j, j', changes, hj, hstart, hrest, hj', hmakes⟩ := ih hc
      refine ⟨j, j', changes ++ [k.change], hj, hstart, hrest, hj', hmakes.tail ?_ hstep.2⟩
      exact hc.length_le
    | inr hc => exact ⟨k, k', [], hk, hc.1, hc.2, hstep.2, .refl⟩

theorem window_of_makesBy {changes : List (Change C)}
    (h : j'.MakesBy (fun i => 0 < i.creations.length) changes k)
    (hj' : Collecting j'.world.registry.cache.window j'.creations)
    (hwindow : j'.world.registry.cache.window = some []) :
    Collecting k.world.registry.cache.window k.creations ∧ (k.creations ≠ [] →
      k.world.registry.cache.window =
        some ((changes.flatMap Change.suppressed).take k.world.registry.suppressedLimit)) := by
  induction h with
  | refl =>
    constructor
    · exact hj'
    · intro _
      rw [hwindow]
      simp
  | @tail changes k k' hmakes hk hstep ih =>
    have hshift := shift_of_step hstep
    constructor
    · exact hshift.collecting ih.1
    · intro hk'
      have hwindow := ih.2 (List.ne_nil_of_length_pos hk)
      rw [List.flatMap_append, List.flatMap_singleton, hshift.suppressedLimit_eq]
      exact hshift.window_eq_take ih.1 hk' hwindow

theorem window_of_start (h : Collecting j.world.registry.cache.window j.creations) {c : Creation}
    (hstart : j.change = .start c) (hstep : j.step = some j') (hj : j.creations = []) :
    j'.world.registry.cache.window = some [] := by
  rw [hj] at h
  rw [(shift_of_step hstep).window_eq, hstart, h.window_eq_none]
  rfl

theorem window_of_creates {changes : List (Change C)} (h : j.Creates changes k)
    (hcollecting : Collecting j.world.registry.cache.window j.creations) (hj : j.creations = []) :
    k.world.registry.cache.window =
      some ((changes.flatMap Change.suppressed).take k.world.registry.suppressedLimit) := by
  obtain ⟨c, j', result, hstart, hstep, hmakes, hcreations, _⟩ := h
  have hwindow := window_of_start hcollecting hstart hstep hj
  rw [hj] at hmakes
  apply (window_of_makesBy hmakes ((shift_of_step hstep).collecting hcollecting) hwindow).2
  simp [hcreations]

/--
A creation that fails because of its factory has been started before. If no other creation was
running then, its failure carries the first of the errors that were reported since, up to the limit;
else it carries none. While no creation is running, a reported error leaves the registry as it is.
-/
theorem creationFailed_suppressed (config : Config) (resolver : Option (Name → Name))
    (state : C.State) (p : Program C .block)
    (hk : (start (.fresh config resolver state) p).Leads k) :
    (∀ n e fs, k.change.refusal? k.world.registry = some (.creationFailed n e fs) →
      ∃ j changes, (start (.fresh config resolver state) p).Leads j ∧ j.Creates changes k ∧
        (j.creations = [] →
          fs = (changes.flatMap Change.suppressed).take config.suppressedLimit) ∧
        (j.creations ≠ [] → fs = [])) ∧
    (k.creations = [] →
      ∀ f, (k.world.registry.perform (.suppress f)).registry = k.world.registry) := by
  obtain ⟨hcollecting, hlimit⟩ := collecting_of_leads config resolver state p hk
  constructor
  · intro n e fs hfailed
    cases hstep : k.step with
    | none =>
      rw [change_of_step_eq_none hstep] at hfailed
      cases hfailed
    | some k' =>
      obtain ⟨c, result, hcreations, hchange, hfs⟩ :=
        (shift_of_step hstep).eq_conclude_of_refusal hfailed
      have hsuffix : c :: k'.creations <:+ k.creations := ⟨[], hcreations.symm⟩
      obtain ⟨j, j', changes, hj, hstart, hrest, hj', hmakes⟩ := exists_start hk rfl hsuffix
      rw [← hrest] at hcreations hmakes
      have hcreates : j.Creates changes k :=
        ⟨c, j', result, hstart, hj', hmakes, hcreations, hchange⟩
      have hcollects := hcollecting.collects_iff c _ hsuffix
      rw [← hrest] at hcollects
      refine ⟨j, changes, hj, hcreates, ?_, ?_⟩
      · intro houter
        have hwindow :=
          window_of_creates hcreates (collecting_of_leads config resolver state p hj).1 houter
        rw [hfs, Registry.collected, if_pos (hcollects.mpr houter), hwindow, hlimit]
        rfl
      · intro hnested
        rw [hfs, Registry.collected, if_neg (mt hcollects.mp hnested)]
  · intro hnone f
    rw [hnone] at hcollecting
    simp only [Registry.perform, Cache.suppress, hcollecting.window_eq_none]
    rw [Option.map_none, ← hcollecting.window_eq_none]

def reporting : Program .plain .block :=
  .getOrCreate "a"
    (.call (.suppress (.plain "first")) fun _ =>
      .getOrCreate "b"
        (.call (.suppress (.plain "second")) fun _ => .done (.error (.custom (.plain "inner"))))
        fun _ => .call (.suppress (.plain "third")) fun _ =>
          .done (.error (.custom (.plain "outer"))))
    fun _ => .done ()

theorem leads_reporting : ∃ k k' : Machine .plain,
    (start (.fresh ⟨2, true⟩ none ()) reporting).Leads k ∧
      (start (.fresh ⟨2, true⟩ none ()) reporting).Leads k' ∧
      k.change.refusal? k.world.registry =
        some (.creationFailed "b" (.custom (.plain "inner")) []) ∧
      k'.change.refusal? k'.world.registry = some (.creationFailed "a" (.custom (.plain "outer"))
        [.plain "first", .plain "second"]) := by
  -- the inner creation fails with the fifth step, the outer one with the seventh
  refine ⟨_, _, .tail (.tail (.tail (.tail .refl ⟨trivial, rfl⟩) ⟨trivial, rfl⟩) ⟨trivial, rfl⟩)
    ⟨trivial, rfl⟩, .tail (.tail (.tail (.tail (.tail (.tail .refl ⟨trivial, rfl⟩) ⟨trivial, rfl⟩)
    ⟨trivial, rfl⟩) ⟨trivial, rfl⟩) ⟨trivial, rfl⟩) ⟨trivial, rfl⟩, rfl, rfl⟩

theorem suppressed_of_reporting : ∃ k j : Machine .plain, ∃ changes,
    (start (.fresh ⟨2, true⟩ none ()) reporting).Leads k ∧
      k.change.refusal? k.world.registry = some (.creationFailed "a" (.custom (.plain "outer"))
        [.plain "first", .plain "second"]) ∧
      j.Creates changes k ∧ j.creations = [] ∧
      (changes.flatMap Change.suppressed).take 2 = [.plain "first", .plain "second"] := by
  obtain ⟨_, k, _, hk, _, hfailed⟩ := leads_reporting
  obtain ⟨j, changes, _, hcreates, houter, hnested⟩ :=
    (creationFailed_suppressed ⟨2, true⟩ none () reporting hk).1 _ _ _ hfailed
  have hj : j.creations = [] := by
    apply Classical.byContradiction
    intro hj
    cases hnested hj
  exact ⟨k, j, changes, hk, hfailed, hcreates, hj, (houter hj).symm⟩

end Machine

end InstanceRegistry
