/-!
This module contains an order on finite bags, which are lists up to permutation: a bag gets lighter
when one member is replaced by finitely many smaller ones. Other members may go without replacement.
The order is well-founded if the order on the members is.
-/

namespace InstanceRegistry

universe u

variable {α : Type u} {lt : α → α → Prop}

namespace Bag

def Part (as bs : List α) : Prop :=
  ∃ gone, bs.Perm (as ++ gone)

/-- One bag is the other one with a member replaced by smaller ones, or a part of that. -/
def Lighter (lt : α → α → Prop) (as bs : List α) : Prop :=
  ∃ (old : α) (new rest gone : List α),
    bs.Perm (old :: rest) ∧ (new ++ rest).Perm (as ++ gone) ∧ ∀ a ∈ new, lt a old

theorem acc_of_perm {as bs : List α} (h : as.Perm bs) (ha : Acc (Lighter lt) as) :
    Acc (Lighter lt) bs := by
  constructor
  rintro cs ⟨old, new, rest, gone, hbs, hcs, hlt⟩
  exact ha.inv ⟨old, new, rest, gone, h.trans hbs, hcs, hlt⟩

theorem acc_of_part {as bs : List α} (h : Part as bs) (hb : Acc (Lighter lt) bs) :
    Acc (Lighter lt) as := by
  obtain ⟨gone, hp⟩ := h
  cases gone with
  | nil => exact acc_of_perm (by simpa using hp) hb
  | cons g gs =>
    refine hb.inv ⟨g, [], as ++ gs, gs, hp.trans List.perm_middle, ?_, by simp⟩
    exact List.Perm.refl _

theorem acc_nil : Acc (Lighter lt) [] := by
  constructor
  rintro cs ⟨old, new, rest, gone, h, _, _⟩
  exact absurd h.nil_eq (by simp)

theorem acc_cons {a : α} (ha : Acc lt a) {as : List α} (h : Acc (Lighter lt) as) :
    Acc (Lighter lt) (a :: as) := by
  induction ha generalizing as with
  | intro a _ iha =>
    induction h with
    | intro as has ihas =>
      constructor
      rintro cs ⟨old, new, rest, gone, hold, hcs, hlt⟩
      apply acc_of_part ⟨gone, hcs⟩
      by_cases heq : old = a
      · subst heq
        have hrest : Acc (Lighter lt) rest := acc_of_perm hold.cons_inv (Acc.intro as has)
        clear hcs hold
        induction new with
        | nil => exact hrest
        | cons b bs ih =>
          exact iha b (hlt b (by simp)) (ih fun c hc => hlt c (by simp [hc]))
      · have hmem : a ∈ rest := by
          have : a ∈ old :: rest := hold.mem_iff.mp (by simp)
          simpa [Ne.symm heq] using this
        obtain ⟨left, right, rfl⟩ := List.append_of_mem hmem
        have hsplit : as.Perm (old :: (left ++ right)) := by
          apply List.Perm.cons_inv (a := a)
          refine hold.trans ?_
          exact (List.Perm.cons old List.perm_middle).trans (List.Perm.swap a old _)
        have hlight : Lighter lt (new ++ (left ++ right)) as :=
          ⟨old, new, left ++ right, [], hsplit, by simp, hlt⟩
        refine acc_of_perm ?_ (ihas _ hlight)
        rw [← List.append_assoc, ← List.append_assoc]
        exact List.perm_middle.symm

theorem lighter_wellFounded (h : WellFounded lt) : WellFounded (Lighter lt) := by
  constructor
  intro as
  induction as with
  | nil => exact acc_nil
  | cons a as ih => exact acc_cons (h.apply a) ih

def Smaller (lt : α → α → Prop) (p q : List α × Nat) : Prop :=
  Lighter lt p.1 q.1 ∨ Part p.1 q.1 ∧ p.2 < q.2

theorem smaller_wellFounded (h : WellFounded lt) : WellFounded (Smaller lt) := by
  constructor
  rintro ⟨as, k⟩
  have has := (lighter_wellFounded h).apply as
  induction has generalizing k with
  | intro as has ih =>
    induction k using Nat.strongRecOn generalizing as with
    | ind k ihk =>
      constructor
      rintro ⟨bs, j⟩ (hl | ⟨⟨gone, hp⟩, hj⟩)
      · exact ih bs hl j
      · cases gone with
        | nil =>
          rw [List.append_nil] at hp
          apply ihk j hj bs
          · intro cs hcs
            obtain ⟨old, new, rest, gone, h₁, h₂, h₃⟩ := hcs
            exact has cs ⟨old, new, rest, gone, hp.trans h₁, h₂, h₃⟩
          · rintro cs ⟨old, new, rest, gone, h₁, h₂, h₃⟩ i
            exact ih cs ⟨old, new, rest, gone, hp.trans h₁, h₂, h₃⟩ i
        | cons g gs =>
          apply ih bs
          exact ⟨g, [], bs ++ gs, gs, hp.trans List.perm_middle, List.Perm.refl _, by simp⟩

section Count

open Classical in
theorem part_of_count {as bs : List α} (h : ∀ a, as.count a ≤ bs.count a) : Part as bs := by
  induction as generalizing bs with
  | nil => exact ⟨bs, List.Perm.refl _⟩
  | cons a as ih =>
    have ha : a ∈ bs := by
      have := h a
      simp only [List.count_cons_self] at this
      exact List.count_pos_iff.mp (by omega)
    have hp := List.perm_cons_erase ha
    have herase : ∀ b, as.count b ≤ (bs.erase a).count b := by
      intro b
      have h₁ := h b
      have h₂ := hp.count_eq b
      simp only [List.count_cons] at h₁ h₂
      omega
    obtain ⟨gone, hg⟩ := ih herase
    exact ⟨gone, hp.trans (hg.cons a)⟩

open Classical in
theorem lighter_of_count {as bs : List α} (old : α) (new : List α) (hlt : ∀ a ∈ new, lt a old)
    (hmem : old ∈ bs) (h : ∀ a, as.count a + [old].count a ≤ new.count a + bs.count a) :
    Lighter lt as bs := by
  have hp := List.perm_cons_erase hmem
  have herase : ∀ a, as.count a ≤ (new ++ bs.erase old).count a := by
    intro a
    have h₁ := h a
    have h₂ := hp.count_eq a
    simp only [List.count_cons, List.count_append, List.count_nil] at h₁ h₂ ⊢
    omega
  obtain ⟨gone, hg⟩ := part_of_count herase
  exact ⟨old, new, bs.erase old, gone, hp, hg, hlt⟩

end Count

end Bag

end InstanceRegistry
