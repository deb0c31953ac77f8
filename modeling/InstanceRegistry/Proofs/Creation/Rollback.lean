import InstanceRegistry.Proofs.Creation.Outcome
import InstanceRegistry.Proofs.Sequence

/-!
This module contains what a creation leaves behind when its factory panics: the same as when its
factory, having done the same things, returns an error (`World.rollback_as_failure`).
-/

namespace InstanceRegistry

variable {C : Client}

namespace Registry

variable {ε δ : Type} (r : Registry ε δ)

theorem unmark_closeWindow (c : Creation) (n : Name) :
    (r.closeWindow c).unmark n = (r.unmark n).closeWindow c := by
  rw [closeWindow_eq, closeWindow_eq]
  rfl

theorem rollback_eq_conclude_error (c : Creation) (e : CreationError) :
    (r.rollback c).2 = (r.conclude c (.error e)).2 := by
  rw [conclude_error, unmark_closeWindow]
  rfl

end Registry

def Program.request (n : Name) (factory : Program C .factory)
    (answered : Except RegistryError Instance → C.Answer) : Program C .block :=
  .getOrCreate n factory fun answer => .done (answered answer)

def Stack.requesting (c : Creation) (answered : Except RegistryError Instance → C.Answer) :
    Stack C .factory :=
  .creating c (fun answer => .done (answered answer)) .bottom

/--
What a request for an instance comes to wherever it is made: the world that it leaves, and its
answer.
-/
def World.Answers (w : World C) (n : Name) (factory : Program C .factory) (w' : World C)
    (answer : Except RegistryError Instance) : Prop :=
  ∀ ⦃r : Role⦄ (next : Except RegistryError Instance → Program C r) (s : Stack C r),
    (w.run (.getOrCreate n factory next) s).Leads (w'.run (next answer) s)

namespace World

def enter (w : World C) (n : Name) (registry : C.Store) : World C :=
  { w with registry }.record (.began (.factory n))

def undo (w : World C) (c : Creation) : World C :=
  { w with registry := (w.registry.rollback c).2 }

variable {w w' : World C} {n : Name} {c : Creation} {registry : C.Store}
  {factory : Program C .factory} {answered : Except RegistryError Instance → C.Answer}

theorem answers_of_ready {i : Instance} (h : w.registry.startCreation n = .ready i) :
    w.Answers n factory w (.ok i) := by
  intro r next s
  apply Machine.leads_of_step
  simp only [run, Machine.step, exec, getOrCreate, h]

theorem answers_of_refused {e : RegistryError} (h : w.registry.startCreation n = .refused e) :
    w.Answers n factory (w.log [.refused e]) (.error e) := by
  intro r next s
  apply Machine.leads_of_step
  simp only [run, Machine.step, exec, getOrCreate, h]

theorem attempts_of_answers {answer : Except RegistryError Instance}
    (h : w.Answers n factory w' answer) :
    w.Attempts (.request n factory answered) w' (.ok (answered answer)) := by
  have hanswered := h (fun answer => .done (r := .block) (answered answer)) .bottom
  exact attempts_of_leads (hanswered.tail ⟨trivial, rfl⟩)

theorem attempts_of_ready {i : Instance} (h : w.registry.startCreation n = .ready i) :
    w.Attempts (.request n factory answered) w (.ok (answered (.ok i))) :=
  attempts_of_answers (answers_of_ready h)

theorem attempts_of_refused {e : RegistryError} (h : w.registry.startCreation n = .refused e) :
    w.Attempts (.request n factory answered) (w.log [.refused e]) (.ok (answered (.error e))) :=
  attempts_of_answers (answers_of_refused h)

theorem leads_enter (h : w.registry.startCreation n = .started c registry) :
    (Machine.start w (.request n factory answered)).Leads
      ((w.enter n registry).run factory (.requesting c answered)) := by
  apply Machine.leads_of_step
  simp only [Machine.start, run, Machine.step, Program.request, exec, getOrCreate, h, enter,
    Stack.requesting]

theorem attempts_of_panic {text : String} (h : w.registry.startCreation n = .started c registry)
    (hpanic : ((w.enter n registry).run factory (.requesting c answered)).Leads
      ⟨w', .unwind text (.requesting c answered)⟩) :
    w.Attempts (.request n factory answered) ((w'.undo c).log (w'.registry.rollback c).1)
      (.error text) := by
  apply attempts_of_leads
  apply (leads_enter h).trans
  apply hpanic.trans
  exact .head ⟨trivial, rfl⟩ (.head ⟨trivial, rfl⟩ .refl)

theorem leads_conclude (w : World C) (c : Creation) (e : CreationError)
    (answered : Except RegistryError Instance → C.Answer) : ∃ reports answer,
    (w.run (.done (r := .factory) (.error e)) (.requesting c answered)).Leads
      ⟨((w.undo c).record (.ended (.factory c.name))).log reports,
        .halted (.ok (answered answer))⟩ := by
  unfold undo
  rw [w.registry.rollback_eq_conclude_error c e]
  exact ⟨_, _, .head ⟨trivial, rfl⟩ (.head ⟨trivial, rfl⟩ .refl)⟩

theorem attempts_of_error {e : CreationError}
    (h : w.registry.startCreation n = .started c registry)
    (herror : ((w.enter n registry).run factory (.requesting c answered)).Leads
      (w'.run (.done (r := .factory) (.error e)) (.requesting c answered))) :
    ∃ reports answer, w.Attempts (.request n factory answered)
      (((w'.undo c).record (.ended (.factory c.name))).log reports) (.ok (answered answer)) := by
  obtain ⟨reports, answer, hconclude⟩ := leads_conclude w' c e answered
  refine ⟨reports, answer, attempts_of_leads ?_⟩
  exact (leads_enter h).trans (herror.trans hconclude)

end World

/--
A creation whose factory panics leaves the same registry as one whose factory does the same things
and then returns an error. All that differs is what the request comes to, and what is reported.
-/
theorem World.rollback_as_failure (w : World C) (n : Name) (body : Program C .block)
    (text : C.Answer → String) (error : C.Answer → CreationError)
    (answered : Except RegistryError Instance → C.Answer) :
    ∃ (w₁ w₂ : World C) (outcome₁ outcome₂ : Except String C.Answer),
      w.Attempts (.request n (body.bind fun x => .panic (text x)) answered) w₁ outcome₁ ∧
      w.Attempts (.request n (body.bind fun x => .done (.error (error x))) answered) w₂ outcome₂ ∧
      w₁.registry = w₂.registry ∧
      (w₁ = w₂ ∧ outcome₁ = outcome₂ ∨
        ∃ (w' : World C) (reports₁ reports₂ : List LogEvent) (x : C.Answer)
          (answer : Except RegistryError Instance),
          w₁ = w'.log reports₁ ∧ w₂ = (w'.record (.ended (.factory n))).log reports₂ ∧
          outcome₁ = .error (text x) ∧ outcome₂ = .ok (answered answer)) := by
  cases hstart : w.registry.startCreation n with
  | ready i =>
    exact ⟨_, _, _, _, attempts_of_ready hstart, attempts_of_ready hstart, rfl, .inl ⟨rfl, rfl⟩⟩
  | refused e =>
    exact ⟨_, _, _, _, attempts_of_refused hstart, attempts_of_refused hstart, rfl,
      .inl ⟨rfl, rfl⟩⟩
  | started c registry =>
    -- the body comes to the same in front of a panic and in front of an error
    obtain ⟨w', outcome, hbody⟩ := Machine.exists_leads_halted (.start (w.enter n registry) body)
    cases outcome with
    | error t =>
      have hpanic (k : C.Answer → Program C .factory) :
          w.Attempts (.request n (body.bind k) answered) _ _ :=
        attempts_of_panic hstart (Machine.leads_bind_of_panic hbody)
      exact ⟨_, _, _, _, hpanic _, hpanic _, rfl, .inl ⟨rfl, rfl⟩⟩
    | ok x =>
      have hpanic : w.Attempts (.request n (body.bind fun x => .panic (text x)) answered) _ _ :=
        attempts_of_panic hstart ((Machine.leads_bind hbody).tail ⟨trivial, rfl⟩)
      obtain ⟨reports, answer, herror⟩ : ∃ reports answer, w.Attempts
          (.request n (body.bind fun x => .done (.error (error x))) answered)
          (((w'.undo c).record (.ended (.factory c.name))).log reports) (.ok (answered answer)) :=
        attempts_of_error hstart (Machine.leads_bind hbody)
      obtain ⟨_, _, hc, _⟩ := Registry.startCreation_eq_started hstart
      have hn : c.name = n := by rw [hc]
      rw [hn] at herror
      exact ⟨_, _, _, _, hpanic, herror, rfl, .inr ⟨_, _, _, _, _, rfl, rfl, rfl, rfl⟩⟩

end InstanceRegistry
