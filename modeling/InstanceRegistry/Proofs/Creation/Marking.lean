import InstanceRegistry.Proofs.Creation.Outcome
import InstanceRegistry.Proofs.Run

/-!
This module contains how marks and running creations go together: as long as nobody changes whether
a name is exempt while it is being created, a name is marked exactly while a creation runs that
marked it (`Machine.isMarked_iff_running`).
-/

namespace InstanceRegistry

variable {C : Client}

namespace Marks

structure Follow (m : Marks) (cs : List Creation) : Prop where
  marks_iff : ∀ c ∈ cs, c.marks = true ↔ ¬ c.name ∈ m.exempt
  mem_active_iff : ∀ n, n ∈ m.active ↔ ∃ c ∈ cs, c.name = n ∧ c.marks = true
  count_le_one : ∀ n, ¬ n ∈ m.exempt → cs.countP (·.name = n) ≤ 1

theorem follow_empty : empty.Follow [] := by
  constructor
  · intro c hc
    cases hc
  · simp [empty]
  · simp

variable {m m' : Marks} {cs : List Creation} {c : Creation} {n : Name}

theorem Follow.count_eq_zero (h : m.Follow cs) (hexempt : ¬ n ∈ m.exempt)
    (hactive : ¬ n ∈ m.active) : cs.countP (·.name = n) = 0 := by
  rw [List.countP_eq_zero]
  intro c hc hname
  simp only [decide_eq_true_eq] at hname
  apply hactive
  rw [h.mem_active_iff]
  exists c
  simp [hc, hname, h.marks_iff c hc, hexempt]

theorem Follow.start (h : m.Follow cs) (hmark : m.mark n = some m') (collects : Bool) :
    m'.Follow (⟨n, !decide (n ∈ m.exempt), collects⟩ :: cs) := by
  unfold mark at hmark
  split at hmark
  · next hexempt =>
    cases hmark
    constructor
    · intro c hc
      cases hc with
      | head => simp [hexempt]
      | tail _ hc => exact h.marks_iff c hc
    · intro k
      rw [h.mem_active_iff]
      simp [hexempt]
    · intro k hk
      have hne : n ≠ k := fun e => hk (e ▸ hexempt)
      simpa [List.countP_cons, hne] using h.count_le_one k hk
  · next hexempt =>
    split at hmark
    · cases hmark
    · next hactive =>
      cases hmark
      constructor
      · intro c hc
        cases hc with
        | head => simp [hexempt]
        | tail _ hc => exact h.marks_iff c hc
      · intro k
        simp only [NameSet.mem_insert, h.mem_active_iff, List.mem_cons, exists_eq_or_imp]
        simp only [hexempt, decide_false, Bool.not_false, and_true]
        rw [or_comm, eq_comm]
      · intro k hk
        by_cases hkn : n = k
        · subst hkn
          simp [h.count_eq_zero hexempt hactive]
        · simpa [List.countP_cons, hkn] using h.count_le_one k hk

theorem Follow.mem_active (h : m.Follow (c :: cs)) (hexempt : ¬ c.name ∈ m.exempt) :
    c.name ∈ m.active := by
  rw [h.mem_active_iff]
  exists c
  simp [h.marks_iff c, hexempt]

theorem Follow.isSome_unmark (h : m.Follow (c :: cs)) : (m.unmark c.name).isSome := by
  unfold unmark
  split
  · rfl
  · next hexempt => simp [h.mem_active hexempt]

theorem Follow.finish (h : m.Follow (c :: cs)) : ((m.unmark c.name).getD m).Follow cs := by
  have hmarks : c.marks = true ↔ ¬ c.name ∈ m.exempt := h.marks_iff c (List.mem_cons_self ..)
  unfold unmark
  split
  · next hexempt =>
    constructor
    · intro d hd
      exact h.marks_iff d (List.mem_cons_of_mem _ hd)
    · intro k
      have hunmarked : c.marks = false := by
        simpa [hexempt] using hmarks
      simp [h.mem_active_iff, hunmarked]
    · intro k hk
      have := h.count_le_one k hk
      rw [List.countP_cons] at this
      omega
  · next hexempt =>
    rw [if_pos (h.mem_active hexempt), Option.getD_some]
    -- the creation that ends is the only one of its name, so no other one marks the name
    have hcount : cs.countP (·.name = c.name) = 0 := by
      have := h.count_le_one c.name hexempt
      rw [List.countP_cons] at this
      simp only [decide_true, if_true] at this
      omega
    constructor
    · intro d hd
      exact h.marks_iff d (List.mem_cons_of_mem _ hd)
    · intro k
      rw [List.countP_eq_zero] at hcount
      simp only [NameSet.mem_erase, h.mem_active_iff, List.mem_cons, exists_eq_or_imp]
      constructor
      · intro hk
        cases hk.1 with
        | inl hc => exact absurd hc.1.symm hk.2
        | inr hd => exact hd
      · intro hd
        constructor
        · exact Or.inr hd
        · obtain ⟨d, hd, hname, _⟩ := hd
          intro hk
          apply hcount d hd
          simp [hname, hk]
    · intro k hk
      have := h.count_le_one k hk
      rw [List.countP_cons] at this
      omega

theorem Follow.setInCreation (h : m.Follow cs) (hn : ∀ c ∈ cs, c.name ≠ n) (value : Bool) :
    (m.setInCreation n value).Follow cs := by
  have hexempt : ∀ k, k ≠ n → (k ∈ (m.setInCreation n value).exempt ↔ k ∈ m.exempt) := by
    intro k hk
    unfold Marks.setInCreation
    dsimp
    split
    · simp [hk]
    · simp [hk]
  constructor
  · intro c hc
    rw [hexempt _ (hn c hc)]
    exact h.marks_iff c hc
  · exact h.mem_active_iff
  · intro k hk
    by_cases hkn : k = n
    · have : cs.countP (·.name = k) = 0 := by
        rw [List.countP_eq_zero]
        intro c hc
        simpa [hkn] using hn c hc
      omega
    · apply h.count_le_one
      rwa [hexempt k hkn] at hk

end Marks

/-- Whether a name is exempt is not about to change while it is being created. -/
def Machine.KeepsExemptions (m : Machine C) : Prop :=
  ∀ n value, m.change = .perform (.setInCreation n value) → ∀ c ∈ m.creations, c.name ≠ n

theorem Shift.follow {change : Change C} {r r' : C.Store} {cs cs' : List Creation}
    (h : Shift change r cs r' cs') (hfollow : r.marks.Follow cs)
    (hkeep : ∀ n value, change = .perform (.setInCreation n value) → ∀ c ∈ cs, c.name ≠ n) :
    r'.marks.Follow cs' := by
  cases h with
  | perform o =>
    rw [Registry.perform_marks]
    split
    · next n value =>
      apply hfollow.setInCreation
      exact hkeep n value rfl
    · exact hfollow
  | start hstart =>
    obtain ⟨_, _, hc, hmark, _⟩ := Registry.startCreation_eq_started hstart
    rw [hc]
    exact hfollow.start hmark _
  | conclude c result =>
    rw [Registry.conclude_marks]
    exact hfollow.finish
  | rollback c =>
    rw [Registry.rollback_marks]
    exact hfollow.finish
  | _ => exact hfollow

theorem Shift.refusal_ne_notInCreation {change : Change C} {r r' : C.Store}
    {cs cs' : List Creation} (h : Shift change r cs r' cs') (hfollow : r.marks.Follow cs)
    (n : Name) : change.refusal? r ≠ some (.notInCreation n) := by
  cases h with
  | refuse hrefused =>
    cases Registry.startCreation_eq_refused hrefused with
    | inl he => simp [Change.refusal?, he.1]
    | inr he => simp [Change.refusal?, he]
  | conclude c result =>
    have := Registry.conclude_ne_notInCreation hfollow.isSome_unmark result n
    unfold Change.refusal?
    dsimp
    split
    · simp
    · next e he =>
      rw [he] at this
      simpa using this
  | perform o =>
    cases o with
    | register k i =>
      simp only [Change.refusal?, Registry.register, Cache.register]
      split
      · simp
      · next e he =>
        split at he
        · next herror =>
          cases he
          split at herror
          · cases herror
            simp
          · cases herror
        · cases he
    | _ => simp [Change.refusal?]
  | _ => simp [Change.refusal?]

namespace Machine

theorem follow_of_leadsBy (config : Config) (resolver : Option (Name → Name)) (state : C.State)
    (p : Program C .block) {m : Machine C}
    (h : (start (.fresh config resolver state) p).LeadsBy KeepsExemptions m) :
    m.world.registry.marks.Follow m.creations := by
  apply of_leadsBy (I := fun r cs => r.marks.Follow cs) h
  · exact Marks.follow_empty
  · intro k r' cs' hkeep hshift hfollow
    exact hshift.follow hfollow hkeep

/--
As long as nobody changes whether a name is exempt while it is being created, a name is marked
exactly while a creation runs that started when the name was not exempt. A name that is not exempt
is created at most once at a time, and no request is answered with a lost mark.
-/
theorem isMarked_iff_running (config : Config) (resolver : Option (Name → Name)) (state : C.State)
    (p : Program C .block) {m : Machine C}
    (h : (start (.fresh config resolver state) p).LeadsBy KeepsExemptions m) :
    (∀ n, m.world.registry.marks.isMarked n = true ↔
      ∃ c ∈ m.creations, c.name = n ∧ c.marks = true) ∧
    (∀ n, ¬ n ∈ m.world.registry.marks.exempt → m.creations.countP (·.name = n) ≤ 1) ∧
    ∀ n, m.change.refusal? m.world.registry ≠ some (.notInCreation n) := by
  have hfollow := follow_of_leadsBy config resolver state p h
  constructor
  · intro n
    rw [Marks.isMarked, decide_eq_true_eq]
    exact hfollow.mem_active_iff n
  · constructor
    · exact hfollow.count_le_one
    · intro n
      cases hstep : m.step with
      | none => simp [change_of_step_eq_none hstep, Change.refusal?]
      | some m' => exact (shift_of_step hstep).refusal_ne_notInCreation hfollow n

def nested : Program .plain .block :=
  .call (.setInCreation "b" false) fun _ =>
    .getOrCreate "a"
      (.getOrCreate "b"
        (.getOrCreate "b" (.done (.ok ⟨0, .unit⟩)) fun _ => .done (.ok ⟨1, .unit⟩))
        fun _ => .done (.ok ⟨2, .unit⟩))
      fun _ => .done ()

theorem leadsBy_nested : ∃ m : Machine .plain,
    (start (.fresh {} none ()) nested).LeadsBy KeepsExemptions m ∧
      ¬ "a" ∈ m.world.registry.marks.exempt ∧
      m.creations = [⟨"b", false, false⟩, ⟨"b", false, false⟩, ⟨"a", true, true⟩] := by
  -- the exemption is set before any creation starts, and the next three steps start one each
  refine ⟨_, .head ⟨?_, rfl⟩ (.head ⟨?_, rfl⟩ (.head ⟨?_, rfl⟩ (.head ⟨?_, rfl⟩ .refl))), ?_, rfl⟩
  · intro n value _ c hc
    cases hc
  · intro n value h
    cases h
  · intro n value h
    cases h
  · intro n value h
    cases h
  · decide

theorem isMarked_of_nested : ∃ m : Machine .plain,
    (start (.fresh {} none ()) nested).LeadsBy KeepsExemptions m ∧
      m.world.registry.marks.isMarked "a" = true ∧
      ¬ m.world.registry.marks.isMarked "b" = true ∧
      ¬ "a" ∈ m.world.registry.marks.exempt ∧
      m.creations.countP (·.name = "a") ≤ 1 ∧
      m.change.refusal? m.world.registry ≠ some (.notInCreation "b") := by
  obtain ⟨m, h, hexempt, hcreations⟩ := leadsBy_nested
  obtain ⟨hmarked, hcount, hrefusal⟩ := isMarked_iff_running {} none () nested h
  refine ⟨m, h, ?_, ?_, hexempt, hcount "a" hexempt, hrefusal "b"⟩
  · rw [hmarked, hcreations]
    simp
  · rw [hmarked, hcreations]
    simp

end Machine

end InstanceRegistry
