import InstanceRegistry.Proofs.Teardown.Forgiveness
import Mathlib.Data.List.Permutation

/-!
This module contains runs that differ in nothing but the failures of their callbacks. They take the
same steps, give the same answers and come to the same registry; what is left of a failure is one
warning, reported right after the end of the callback (`Machine.failures_change_nothing`).
-/

namespace InstanceRegistry

variable {C : Client} {r : Role}

inductive Reply (C : Client) where
  | performed (operation : Operation) (answer : operation.Answer)
  | lookup (answer : Option Instance)
  | creation (answer : Except RegistryError Instance)
  | attempt (outcome : Except String C.Answer)

namespace World

def replyAtEnd (w : World C) : {r : Role} → C.Result r → Stack C r → Option (Reply C)
  | _, _, .bottom => none
  | _, result, .creating c _ _ => some (.creation (w.registry.conclude c result).1)
  | _, i, .exposing n _ _ _ => some (.lookup (some (w.registry.cache.expose n i).1))
  | _, _, .settling _ _ _ _ _ => none
  | _, result, .attempting _ _ => some (.attempt (.ok result))

def reply? (w : World C) (p : Program C r) (s : Stack C r) : Option (Reply C) :=
  match p with
  | .done result => w.replyAtEnd result s
  | .call o _ => some (.performed o (w.registry.perform o).answer)
  | .lookup n allowEarly _ =>
    match w.registry.lookup n allowEarly with
    | .found i => some (.lookup (some i))
    | .absent => some (.lookup none)
    | .consult _ => none
  | .getOrCreate n _ _ =>
    match w.registry.startCreation n with
    | .ready i => some (.creation (.ok i))
    | .refused e => some (.creation (.error e))
    | .started _ _ => none
  | _ => none

end World

def Machine.reply? (m : Machine C) : Option (Reply C) :=
  match m.control with
  | .run p s => m.world.reply? p s
  | .unwind text (.attempting _ _) => some (.attempt (.error text))
  | _ => none

def Stack.verdict? : {r : Role} → C.Result r → Stack C r → Option (Except Failure Unit)
  | _, result, .settling _ _ _ _ _ => some result
  | _, _, _ => none

def Machine.verdict? (m : Machine C) : Option (Except Failure Unit) :=
  match m.control with
  | .run (.done result) s => s.verdict? result
  | _ => none

namespace Machine

def after (m : Machine C) : Nat → Machine C
  | 0 => m
  | j + 1 => (m.after j).step.getD (m.after j)

def verdicts (m : Machine C) : Nat → List (Except Failure Unit)
  | 0 => []
  | j + 1 => (m.after j).verdict?.toList ++ m.verdicts j

end Machine

namespace Event

def isSettlement : Event C → Bool
  | .ended (.callback _ _) => true
  | _ => false

def warning : Except Failure Unit → List (Event C)
  | .ok _ => []
  | .error f => [.logged (.callbackFailed f)]

/--
Put the warning about each callback right after its end. The events are listed the latest first, and
so is what the callbacks have given.
-/
def weave : List (Except Failure Unit) → List (Event C) → List (Event C)
  | _, [] => []
  | v :: vs, .ended (.callback n ticket) :: events =>
    warning v ++ .ended (.callback n ticket) :: weave vs events
  | vs, e :: events => e :: weave vs events

theorem weave_cons_of_not_settlement {e : Event C} (h : e.isSettlement = false)
    (vs : List (Except Failure Unit)) (events : List (Event C)) :
    weave vs (e :: events) = e :: weave vs events := by
  cases e with
  | ended b =>
    cases b with
    | callback n ticket => cases h
    | _ => cases vs <;> rfl
  | _ => cases vs <;> rfl

theorem weave_append_of_not_settlement {new : List (Event C)}
    (h : ∀ e ∈ new, e.isSettlement = false) (vs : List (Except Failure Unit))
    (events : List (Event C)) : weave vs (new ++ events) = new ++ weave vs events := by
  induction new with
  | nil => rfl
  | cons e new ih =>
    rw [List.forall_mem_cons] at h
    rw [List.cons_append, weave_cons_of_not_settlement h.1, ih h.2, List.cons_append]

theorem filter_warning (v : Except Failure Unit) :
    (warning v : List (Event C)).filter (fun e => !e.isFailure) = [] := by
  cases v with
  | ok x => rfl
  | error f => rfl

theorem filter_weave (vs : List (Except Failure Unit)) {events : List (Event C)}
    (h : ∀ e ∈ events, e.isFailure = false) :
    (weave vs events).filter (fun e => !e.isFailure) = events := by
  fun_induction weave vs events with
  | case1 vs => rfl
  | case2 v vs n ticket events ih =>
    rw [List.forall_mem_cons] at h
    rw [List.filter_append, filter_warning, List.nil_append, List.filter_cons, ih h.2]
    rfl
  | case3 vs e events _ ih =>
    rw [List.forall_mem_cons] at h
    rw [List.filter_cons, h.1, ih h.2]
    rfl

end Event

namespace World

variable {w : World C}

theorem replyAtEnd_forgive (result : C.Result r) (s : Stack C r) :
    w.forgive.replyAtEnd (C.pardon result) s.forgive = w.replyAtEnd result s := by
  cases s with
  | creating c next s =>
    simp only [replyAtEnd, Stack.forgive, Client.pardon, forgive_registry,
      Registry.conclude_forgive]
  | exposing n ticket next s =>
    simp only [replyAtEnd, Stack.forgive, Client.pardon, forgive_registry, Registry.expose_forgive]
  | _ => rfl

theorem reply?_forgive (p : Program C r) (s : Stack C r) :
    w.forgive.reply? p.forgive s.forgive = w.reply? p s := by
  cases p with
  | done result => exact replyAtEnd_forgive result s
  | call o next =>
    simp only [reply?, Program.forgive, forgive_registry, Registry.perform_forgive, Performed.map]
  | lookup n allowEarly next =>
    simp only [reply?, Program.forgive, forgive_registry, Registry.lookup_forgive]
    cases w.registry.lookup n allowEarly with
    | found i => rfl
    | absent => rfl
    | consult e => rfl
  | getOrCreate n factory next =>
    simp only [reply?, Program.forgive, forgive_registry, Registry.startCreation_forgive]
    cases w.registry.startCreation n with
    | ready i => rfl
    | refused e => rfl
    | started c registry => rfl
  | _ => rfl

end World

namespace Machine

theorem forgive_after (m : Machine C) (j : Nat) : (m.after j).forgive = m.forgive.after j := by
  induction j with
  | zero => rfl
  | succ j ih =>
    unfold after
    rw [← ih, step_forgive]
    cases (m.after j).step with
    | none => rfl
    | some m' => rfl

theorem reply?_forgive (m : Machine C) : m.forgive.reply? = m.reply? := by
  obtain ⟨w, control⟩ := m
  cases control with
  | run p s => exact World.reply?_forgive p s
  | tear tasks next s => rfl
  | unwind text s => cases s <;> rfl
  | halted outcome => rfl

inductive Adds : Option (Except Failure Unit) → List (Event C) → List (Event C) → Prop
  | other {new : List (Event C)} (h : ∀ e ∈ new, e.isFailure = false ∧ e.isSettlement = false)
    (old : List (Event C)) : Adds none old (new ++ old)
  | settlement (v : Except Failure Unit) (n : Name) (ticket : Nat) (old : List (Event C)) :
    Adds (some v) old (Event.warning v ++ .ended (.callback n ticket) :: old)

section Adds

variable {old mid new : List (Event C)}

theorem adds_nothing (old : List (Event C)) : Adds none old old := by
  have hempty : Adds none old ([] ++ old) := .other (List.forall_mem_nil _) old
  exact hempty

theorem Adds.trans (h : Adds none old mid) (h' : Adds none mid new) : Adds none old new := by
  cases h with
  | other h =>
    cases h' with
    | other h' =>
      rw [← List.append_assoc]
      apply Adds.other
      rw [List.forall_mem_append]
      exact ⟨h', h⟩

theorem adds_record {e : Event C} (h : e.isFailure = false ∧ e.isSettlement = false)
    (w : World C) : Adds none w.history (w.record e).history := by
  have hone : Adds none w.history ([e] ++ w.history) :=
    .other (List.forall_mem_singleton.mpr h) w.history
  exact hone

theorem adds_log {events : List LogEvent}
    (h : ∀ event ∈ events, Event.isFailure (C := C) (.logged event) = false) (w : World C) :
    Adds none w.history (w.log events).history := by
  apply Adds.other
  intro e he
  rw [List.mem_reverse, List.mem_map] at he
  obtain ⟨event, hevent, rfl⟩ := he
  exact ⟨h event hevent, rfl⟩

end Adds

variable {w : World C}

theorem adds_conclude (c : Creation) (result : Except CreationError Instance)
    (next : Except RegistryError Instance → Program C r) (s : Stack C r) :
    Adds none w.history (w.conclude c result next s).world.history := by
  have hended : Adds none w.history (w.record (.ended (.factory c.name))).history :=
    adds_record ⟨rfl, rfl⟩ w
  apply hended.trans
  unfold World.conclude
  generalize w.registry.conclude c result = concluded
  obtain ⟨answer, registry⟩ := concluded
  apply adds_log
  intro event hevent
  cases answer with
  | ok i => cases hevent
  | error e =>
    rw [List.mem_singleton.mp hevent]
    rfl

theorem adds_settled (n : Name) (ticket : Nat) (result : Except Failure Unit)
    (tasks : List (Task C)) (next : Program C r) (s : Stack C r) :
    Adds (some result) w.history (w.settled n ticket result tasks next s).world.history := by
  cases result with
  | ok x => exact .settlement (.ok x) n ticket w.history
  | error f => exact .settlement (.error f) n ticket w.history

theorem adds_finish (result : C.Result r) (s : Stack C r) :
    Adds (verdict? (w.run (.done result) s)) w.history (w.finish result s).world.history := by
  cases s with
  | bottom => exact adds_nothing _
  | creating c next s => exact adds_conclude c result next s
  | exposing n ticket next s => exact adds_record (e := .ended (.early n ticket)) ⟨rfl, rfl⟩ w
  | settling n ticket tasks next s => exact adds_settled n ticket result tasks next s
  | attempting next s => exact adds_nothing _

theorem adds_lookup (n : Name) (allowEarly : Bool) (next : Option Instance → Program C r)
    (s : Stack C r) :
    Adds none w.history (w.lookup n allowEarly next s).world.history := by
  unfold World.lookup
  split
  · exact adds_nothing _
  · exact adds_nothing _
  · exact adds_record ⟨rfl, rfl⟩ w

theorem adds_getOrCreate (n : Name) (factory : Program C .factory)
    (next : Except RegistryError Instance → Program C r) (s : Stack C r) :
    Adds none w.history (w.getOrCreate n factory next s).world.history := by
  unfold World.getOrCreate
  split
  · exact adds_nothing _
  · exact adds_log (by simp [Event.isFailure]) w
  · exact adds_record ⟨rfl, rfl⟩ w

theorem adds_exec (p : Program C r) (s : Stack C r) :
    Adds (verdict? (w.run p s)) w.history (w.exec p s).world.history := by
  cases p with
  | done result => exact adds_finish result s
  | note n next => exact adds_record (e := .noted n) ⟨rfl, rfl⟩ w
  | call o next =>
    exact adds_log (fun _ => isFailure_perform o)
      { w with registry := (w.registry.perform o).registry }
  | lookup n allowEarly next => exact adds_lookup n allowEarly next s
  | getOrCreate n factory next => exact adds_getOrCreate n factory next s
  | _ => exact adds_nothing _

theorem adds_work (t : Task C) (tasks : List (Task C)) (next : Program C r) (s : Stack C r) :
    Adds none w.history (w.work t tasks next s).world.history := by
  cases t with
  | settle n handle => exact adds_record ⟨rfl, rfl⟩ w
  | _ => exact adds_nothing _

theorem adds_unwind (text : String) (s : Stack C r) :
    Adds none w.history (w.unwind text s).world.history := by
  cases s with
  | creating c next s =>
    exact adds_log (fun _ => isFailure_rollback c)
      { w with registry := (w.registry.rollback c).2 }
  | _ => exact adds_nothing _

theorem adds_step (m : Machine C) :
    Adds m.verdict? m.world.history (m.step.getD m).world.history := by
  obtain ⟨w, control⟩ := m
  cases control with
  | run p s => exact adds_exec p s
  | tear tasks next s =>
    cases tasks with
    | nil => exact adds_nothing _
    | cons t tasks => exact adds_work t tasks next s
  | unwind text s => exact adds_unwind text s
  | halted outcome => exact adds_nothing _

/--
The events that some steps have added, without the warnings about callbacks. There is a result for
each callback that has come to its end, and the warnings about these results, right after the ends,
are all that the history has besides.
-/
structure Traces (m : Machine C) (j : Nat) (trace : List (Event C)) : Prop where
  isFailure : ∀ e ∈ trace, e.isFailure = false
  countP_eq : trace.countP Event.isSettlement = (m.verdicts j).length
  history_eq : (m.after j).world.history = Event.weave (m.verdicts j) trace ++ m.world.history

theorem Traces.step {m : Machine C} {j : Nat} {trace : List (Event C)} (h : m.Traces j trace) :
    ∃ new, m.Traces (j + 1) (new ++ trace) := by
  have hadds := adds_step (m.after j)
  have hverdicts : m.verdicts (j + 1) = (m.after j).verdict?.toList ++ m.verdicts j := rfl
  have hafter : m.after (j + 1) = (m.after j).step.getD (m.after j) := rfl
  rw [← hafter, h.history_eq] at hadds
  generalize (m.after j).verdict? = verdict? at hadds hverdicts
  generalize hnew : (m.after (j + 1)).world.history = history at hadds
  cases hadds with
  | @other new hplain =>
    rw [Option.toList_none, List.nil_append] at hverdicts
    refine ⟨new, ?_, ?_, ?_⟩
    · rw [List.forall_mem_append]
      exact ⟨fun e he => (hplain e he).1, h.isFailure⟩
    · have hcount : new.countP Event.isSettlement = 0 := by
        rw [List.countP_eq_zero]
        intro e he
        simp [(hplain e he).2]
      rw [List.countP_append, hcount, h.countP_eq, hverdicts, Nat.zero_add]
    · rw [hnew, hverdicts, Event.weave_append_of_not_settlement fun e he => (hplain e he).2,
        List.append_assoc]
  | settlement v n ticket =>
    rw [Option.toList_some, List.singleton_append] at hverdicts
    refine ⟨[.ended (.callback n ticket)], ?_, ?_, ?_⟩
    · rw [List.singleton_append, List.forall_mem_cons]
      exact ⟨rfl, h.isFailure⟩
    · rw [List.singleton_append, List.countP_cons_of_pos rfl, h.countP_eq, hverdicts,
        List.length_cons]
    · rw [hnew, hverdicts, List.singleton_append, Event.weave, List.append_assoc,
        List.cons_append]

theorem exists_traces (m : Machine C) (j : Nat) : ∃ trace, m.Traces j trace := by
  induction j with
  | zero => exact ⟨[], nofun, rfl, rfl⟩
  | succ j ih =>
    obtain ⟨trace, htrace⟩ := ih
    obtain ⟨new, hnew⟩ := htrace.step
    exact ⟨_, hnew⟩

theorem Traces.filter_history {m : Machine C} {j : Nat} {trace : List (Event C)}
    (h : m.Traces j trace) :
    (m.forgive.after j).world.history = trace ++ m.forgive.world.history := by
  rw [← forgive_after]
  have hhistory (m : Machine C) :
      m.forgive.world.history = m.world.history.filter fun e => !e.isFailure :=
    rfl
  rw [hhistory, hhistory, h.history_eq, List.filter_append, Event.filter_weave _ h.isFailure]

theorem halted_forgive_iff (m : Machine C) (outcome : Except String C.Answer) :
    m.forgive.control = .halted outcome ↔ m.control = .halted outcome := by
  obtain ⟨w, control⟩ := m
  cases control with
  | halted o => exact Iff.rfl
  | _ => exact ⟨nofun, nofun⟩

/--
Two runs that differ in nothing but what callbacks finally give, those in the registry and those
still to be registered, take their steps together, whether they tear down a name, everything, or do
anything else. At every step clients are told the same, and either both runs have halted, with the
same outcome, or none has; registry and client state are the same. The same has happened in both,
callback by callback, except that each has one warning for every callback that failed in it, right
after the end of that callback.
-/
theorem failures_change_nothing (w w' : World C) (p p' : Program C .block)
    (hw : w.forgive = w'.forgive) (hp : p.forgive = p'.forgive) (j : Nat) :
    ((start w p).after j).reply? = ((start w' p').after j).reply? ∧
    (∀ outcome, ((start w p).after j).control = .halted outcome ↔
      ((start w' p').after j).control = .halted outcome) ∧
    ((start w p).after j).world.registry.forgive = ((start w' p').after j).world.registry.forgive ∧
    ((start w p).after j).world.state = ((start w' p').after j).world.state ∧
    ∃ trace, (start w p).Traces j trace ∧ (start w' p').Traces j trace := by
  have hstart : (start w p).forgive = (start w' p').forgive := by
    simp only [start, World.run, forgive, Control.forgive, hw, hp]
  have hafter : ((start w p).after j).forgive = ((start w' p').after j).forgive := by
    rw [forgive_after, forgive_after, hstart]
  refine ⟨?_, ?_, ?_, ?_, ?_⟩
  · rw [← reply?_forgive, hafter, reply?_forgive]
  · intro outcome
    rw [← halted_forgive_iff, hafter, halted_forgive_iff]
  · exact congrArg (fun m => m.world.registry) hafter
  · exact congrArg (fun m => m.world.state) hafter
  · obtain ⟨trace, htrace⟩ := (start w p).exists_traces j
    obtain ⟨trace', htrace'⟩ := (start w' p').exists_traces j
    have heq : trace = trace' := by
      have hhistory := htrace.filter_history
      rw [hstart, htrace'.filter_history] at hhistory
      exact (List.append_cancel_right hhistory).symm
    rw [← heq] at htrace'
    exact ⟨trace, htrace, htrace'⟩

def nesting (verdict : Except Failure Unit) : World .plain where
  registry := {
    (Registry.empty {} none : Client.plain.Store) with
    handles := (Table.empty.insert "a"
      ⟨0, .call (.register "c" ⟨0, .unit⟩) fun _ => .done verdict⟩).insert
      "b" ⟨1, .destroy "a" (.done verdict)⟩ }
  state := ()
  history := []
  tickets := 2

def destroying (verdict : Except Failure Unit) : Machine .plain :=
  start (nesting verdict) (.destroyAll (.done ()))

theorem verdicts_destroying (verdict : Except Failure Unit) :
    (destroying verdict).verdicts 20 = [verdict, verdict] := by
  cbv

theorem halted_destroying : ((destroying (.ok ())).after 20).control = .halted (.ok ()) := by
  cbv

theorem history_destroying {verdict : Except Failure Unit} {trace : List (Event .plain)}
    (h : (destroying verdict).Traces 20 trace) :
    ((destroying verdict).after 20).world.history = Event.weave [verdict, verdict] trace := by
  rw [h.history_eq, verdicts_destroying]
  exact List.append_nil _

theorem history_destroying_ok : ((destroying (.ok ())).after 20).world.history =
    [.ended (.callback "b" 1), .ended (.callback "a" 0), .began (.callback "a" 0),
      .began (.callback "b" 1)] := by
  cbv

theorem warnings_of_nesting :
    ((destroying (.error (.plain "stuck"))).after 20).control = .halted (.ok ()) ∧
    ((destroying (.ok ())).after 20).world.history =
      [.ended (.callback "b" 1), .ended (.callback "a" 0), .began (.callback "a" 0),
        .began (.callback "b" 1)] ∧
    ((destroying (.error (.plain "stuck"))).after 20).world.history =
      [.logged (.callbackFailed (.plain "stuck")), .ended (.callback "b" 1),
        .logged (.callbackFailed (.plain "stuck")), .ended (.callback "a" 0),
        .began (.callback "a" 0), .began (.callback "b" 1)] := by
  obtain ⟨_, hhalted, _, _, trace, htrace, htrace'⟩ :=
    failures_change_nothing (nesting (.ok ())) (nesting (.error (.plain "stuck")))
      (.destroyAll (.done ())) (.destroyAll (.done ())) rfl rfl 20
  -- no callback fails in the first run, so that its history is the common trace
  have heq := Event.filter_weave [.ok (), .ok ()] htrace.isFailure
  rw [← history_destroying htrace, history_destroying_ok] at heq
  refine ⟨(hhalted _).mp halted_destroying, history_destroying_ok, ?_⟩
  rw [history_destroying htrace', ← heq]
  rfl

end Machine

end InstanceRegistry
