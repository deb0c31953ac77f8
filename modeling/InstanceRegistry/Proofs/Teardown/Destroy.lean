import InstanceRegistry.Proofs.Sequence
import InstanceRegistry.Proofs.Teardown.Closure

/-!
This module contains the teardowns of a machine whose callbacks keep to themselves. The machine does
the tasks of a teardown one by one, and the destruction of a name takes down exactly the names that
can be reached from it (`Machine.destroy_closure`).
-/

namespace InstanceRegistry

variable {C : Client} {role : Role}

namespace Program

/--
What a program gives, or the text that it panics with, and the state that it leaves, provided that
it asks nothing of the registry.
-/
def alone : {r : Role} → Program C r → C.State → Option (Except String (C.Result r) × C.State)
  | _, .done result, s => some (.ok result, s)
  | _, .panic text, s => some (.error text, s)
  | _, .read next, s => (next s).alone s
  | _, .write s next, _ => next.alone s
  | _, .note _ next, s => next.alone s
  | _, .attempt body next, s => (body.alone s).bind fun (answer, s) => (next answer).alone s
  | _, _, _ => none

def Quiet (p : Program C role) : Prop :=
  ∀ s, ∃ result s', p.alone s = some (.ok result, s')

@[simp]
theorem quiet_done (result : C.Result role) : (done result : Program C role).Quiet := by
  intro s
  exact ⟨result, s, rfl⟩

end Program

def Table.Quiet (handles : Table (Entrusted C .callback)) : Prop :=
  ∀ n handle, handles.find? n = some handle → handle.code.Quiet

theorem Table.quiet_empty : (∅ : Table (Entrusted C .callback)).Quiet := by
  intro n handle h
  cases h

theorem Table.quiet_insert {handles : Table (Entrusted C .callback)}
    {handle : Entrusted C .callback} (h : handles.Quiet) (hcode : handle.code.Quiet) (n : Name) :
    (handles.insert n handle).Quiet := by
  intro m handle' hm
  rw [find?_insert] at hm
  split at hm
  · cases hm
    exact hcode
  · exact h m handle' hm

inductive Moment where
  | began (body : Body)
  | ended (body : Body)
  deriving DecidableEq, Repr

def Event.moment? : Event C → Option Moment
  | .began b => some (.began b)
  | .ended b => some (.ended b)
  | _ => none

def Body.moments (b : Body) : List Moment :=
  [.began b, .ended b]

namespace World

def moments (w : World C) : List Moment :=
  (w.history.filterMap Event.moment?).reverse

theorem moments_record (w : World C) (e : Event C) :
    (w.record e).moments = w.moments ++ e.moment?.toList := by
  unfold moments record
  rw [List.filterMap_cons]
  cases e.moment? with
  | none => simp
  | some m => simp

@[simp]
theorem moments_log (w : World C) (events : List LogEvent) :
    (w.log events).moments = w.moments := by
  unfold moments
  rw [filterMap_log]
  intro event
  rfl

end World

def Control.after : {r : Role} → Except String (C.Result r) → Stack C r → Control C
  | _, .ok result, s => .run (.done result) s
  | _, .error text, s => .unwind text s

def Control.resume {q r : Role} (k : C.Result r → Program C q) (s : Stack C q) :
    Except String (C.Result r) → Control C
  | .ok result => .run (k result) s
  | .error text => .unwind text s

namespace Machine

def Tearing (m : Machine C) : Prop :=
  match m.control with
  | .tear _ _ _ => True
  | _ => False

structure Private (m : Machine C) : Prop where
  not_tearing : ¬ m.Tearing
  idle : m.change = .idle
  unanswered : m.lookupAnswer? = none

variable {w : World C} {P : Machine C → Prop}

theorem leadsBy_bind_of_alone (hP : ∀ k : Machine C, k.Private → P k) {p : Program C role}
    {outcome : Except String (C.Result role)} {state : C.State}
    (h : p.alone w.state = some (outcome, state)) :
    ∃ w' : World C, (∀ ⦃q : Role⦄ (k : C.Result role → Program C q) (s : Stack C q),
        (w.run (p.bind k) s).LeadsBy P ⟨w', .resume k s outcome⟩) ∧ w'.state = state ∧
      w'.registry = w.registry ∧ w'.moments = w.moments ∧ w'.tickets = w.tickets := by
  have hprivate {q : Role} {w : World C} {p : Program C q} {s : Stack C q}
      (hidle : w.change p s = .idle) (hunanswered : w.lookupAnswer? p s = none) : P (w.run p s) :=
    hP _ ⟨id, hidle, hunanswered⟩
  induction p generalizing w state with
  | done result =>
    cases h
    exact ⟨w, fun _ _ _ => .refl, rfl, rfl, rfl, rfl⟩
  | panic text =>
    cases h
    exact ⟨w, fun _ _ _ => .single ⟨hprivate rfl rfl, rfl⟩, rfl, rfl, rfl, rfl⟩
  | read next ih =>
    obtain ⟨w', hleads, hw'⟩ := ih w.state (w := w) h
    exact ⟨w', fun _ k s => .head ⟨hprivate rfl rfl, rfl⟩ (hleads k s), hw'⟩
  | write new next ih =>
    obtain ⟨w', hleads, hw'⟩ := ih (w := { w with state := new }) h
    exact ⟨w', fun _ k s => .head ⟨hprivate rfl rfl, rfl⟩ (hleads k s), hw'⟩
  | note n next ih =>
    obtain ⟨w', hleads, hstate, hregistry, hmoments, htickets⟩ := ih (w := w.record (.noted n)) h
    rw [World.moments_record] at hmoments
    refine ⟨w', fun _ k s => .head ⟨hprivate rfl rfl, rfl⟩ (hleads k s), hstate, hregistry, ?_,
      htickets⟩
    rw [hmoments]
    simp [Event.moment?]
  | attempt body next ihb ih =>
    simp only [Program.alone, Option.bind_eq_some_iff] at h
    obtain ⟨⟨answer, state'⟩, hbody, hnext⟩ := h
    obtain ⟨w₁, hleads₁, hstate₁, hregistry₁, hmoments₁, htickets₁⟩ := ihb hbody
    rw [← hstate₁] at hnext
    obtain ⟨w₂, hleads₂, hstate₂, hregistry₂, hmoments₂, htickets₂⟩ := ih answer hnext
    refine ⟨w₂, ?_, hstate₂, ?_, ?_, ?_⟩
    · intro q k s
      have hbody := hleads₁ .done (.attempting (fun outcome => (next outcome).bind k) s)
      rw [Program.bind_done] at hbody
      -- whether the block is done or has panicked, what waits for it goes on
      have hattempt : LeadsBy P
          ⟨w₁, .resume .done (.attempting (fun outcome => (next outcome).bind k) s) answer⟩
          (w₁.run ((next answer).bind k) s) := by
        cases answer with
        | ok a => exact .single ⟨hprivate rfl rfl, rfl⟩
        | error text => exact .single ⟨hP _ ⟨id, rfl, rfl⟩, rfl⟩
      exact .head ⟨hprivate rfl rfl, rfl⟩ (hbody.trans (hattempt.trans (hleads₂ k s)))
    · rw [hregistry₂, hregistry₁]
    · rw [hmoments₂, hmoments₁]
    · rw [htickets₂, htickets₁]
  | _ => cases h

theorem leadsBy_bind_of_quiet (w : World C) {p : Program C role} (h : p.Quiet) :
    ∃ (w' : World C) (result : C.Result role),
      (∀ ⦃q : Role⦄ (k : C.Result role → Program C q) (s : Stack C q),
        (w.run (p.bind k) s).LeadsBy Private (w'.run (k result) s)) ∧
      w'.registry = w.registry ∧ w'.moments = w.moments ∧ w'.tickets = w.tickets := by
  obtain ⟨result, state, halone⟩ := h w.state
  obtain ⟨w', hleads, _, hw'⟩ := leadsBy_bind_of_alone (fun _ => id) halone
  exact ⟨w', result, hleads, hw'⟩

theorem leadsBy_of_alone (hP : ∀ k : Machine C, ¬ k.Tearing → P k) {p : Program C role}
    {outcome : Except String (C.Result role)} {state : C.State}
    (h : p.alone w.state = some (outcome, state)) :
    ∃ w' : World C, (∀ s, (w.run p s).LeadsBy P ⟨w', .after outcome s⟩) ∧ w'.state = state ∧
      w'.registry = w.registry ∧ w'.moments = w.moments := by
  obtain ⟨w', hleads, hstate, hregistry, hmoments, _⟩ :=
    leadsBy_bind_of_alone (fun k hk => hP k hk.not_tearing) h
  refine ⟨w', ?_, hstate, hregistry, hmoments⟩
  intro s
  have hdone := hleads .done s
  rw [Program.bind_done] at hdone
  cases outcome with
  | ok result => exact hdone
  | error text => exact hdone

theorem step_of_call?_eq_none {t : Task C} (h : t.call? = none) (w : World C)
    (left : List (Task C)) (next : Program C role) (s : Stack C role) :
    step ⟨w, .tear (t :: left) next s⟩ = some
      ⟨{ w with registry := w.registry.after t }, .tear (w.registry.next t ++ left) next s⟩ := by
  cases t with
  | visit n =>
    unfold Registry.next
    rw [List.append_assoc, List.append_assoc]
    rfl
  | settle n handle => cases h
  | release n =>
    unfold Registry.next
    rw [List.append_assoc]
    rfl
  | _ => rfl

theorem leadsBy_of_task (hP : ∀ k : Machine C, ¬ k.Tearing → P k) (w : World C) (t : Task C)
    (left : List (Task C)) (next : Program C role) (s : Stack C role)
    (hstart : P ⟨w, .tear (t :: left) next s⟩)
    (hquiet : ∀ n handle, t = .settle n handle → handle.code.Quiet) :
    ∃ w', LeadsBy P ⟨w, .tear (t :: left) next s⟩ ⟨w', .tear (w.registry.next t ++ left) next s⟩ ∧
      w'.registry = w.registry.after t ∧
      w'.moments = w.moments ++ (Task.calls [t]).flatMap Body.moments := by
  cases hcall : t.call? with
  | none =>
    refine ⟨_, .single ⟨hstart, step_of_call?_eq_none hcall w left next s⟩, rfl, ?_⟩
    rw [Task.calls_cons, hcall, Task.calls_nil, Option.toList_none, List.nil_append,
      List.flatMap_nil, List.append_nil]
    rfl
  | some b =>
    cases t with
    | settle n handle =>
      obtain ⟨result, state, halone⟩ := hquiet n handle rfl w.state
      obtain ⟨w', hleads, _, hregistry, hmoments⟩ := leadsBy_of_alone hP
        (w := w.record (.began (.callback n handle.ticket))) halone
      refine ⟨_, .head ⟨hstart, rfl⟩ ((hleads _).tail ⟨hP _ id, rfl⟩), hregistry, ?_⟩
      rw [World.moments_log, World.moments_record, hmoments, World.moments_record]
      simp [Event.moment?, Task.call?, Body.moments]
    | _ => cases hcall

def AtTears (P : Machine C → Prop) (w : World C) (tasks back : List (Task C))
    (next : Program C role) (s : Stack C role) : Prop :=
  ∀ done left w', Tears w.registry tasks done left →
    w'.moments = w.moments ++ (Task.calls done).flatMap Body.moments →
    P ⟨w', .tear (left ++ back) next s⟩

theorem leadsBy_of_tears (hP : ∀ k : Machine C, ¬ k.Tearing → P k) {tasks done left : List (Task C)}
    (h : Tears w.registry tasks done left) (back : List (Task C)) (next : Program C role)
    (s : Stack C role) (htears : AtTears P w tasks back next s)
    (hquiet : ∀ n handle, .settle n handle ∈ done → handle.code.Quiet) :
    ∃ w', LeadsBy P ⟨w, .tear (tasks ++ back) next s⟩ ⟨w', .tear (left ++ back) next s⟩ ∧
      w'.registry = w.registry.afterAll done ∧
      w'.moments = w.moments ++ (Task.calls done).flatMap Body.moments := by
  induction h with
  | refl => exact ⟨w, .refl, rfl, by simp [Task.calls]⟩
  | @step done left t h ih =>
    have hdone : ∀ n handle, .settle n handle ∈ done → handle.code.Quiet := by
      intro n handle hmem
      exact hquiet n handle (List.mem_append_left _ hmem)
    obtain ⟨w₁, hleads₁, hregistry₁, hmoments₁⟩ := ih hdone
    have ht : ∀ n handle, t = .settle n handle → handle.code.Quiet := by
      intro n handle ht
      apply hquiet n handle
      simp [ht]
    obtain ⟨w₂, hleads₂, hregistry₂, hmoments₂⟩ := leadsBy_of_task hP w₁ t (left ++ back) next s
      (htears done (t :: left) w₁ h hmoments₁) ht
    rw [hregistry₁] at hleads₂ hregistry₂
    rw [← List.append_assoc] at hleads₂
    refine ⟨w₂, hleads₁.trans hleads₂, ?_, ?_⟩
    · rw [hregistry₂, Registry.afterAll_append]
      rfl
    · rw [hmoments₂, hmoments₁, Task.calls_append, List.flatMap_append, List.append_assoc]

def QuietFrom (w : World C) (ns : List Name) : Prop :=
  ∀ n ∈ ns, ∀ m handle, w.registry.graph.Closure n m → w.registry.handles.find? m = some handle →
    handle.code.Quiet

theorem quietFrom_of_quiet (hquiet : w.registry.handles.Quiet) (ns : List Name) :
    QuietFrom w ns := by
  intro n _ m handle _ hfind
  exact hquiet m handle hfind

theorem leadsBy_of_visits (hP : ∀ k : Machine C, ¬ k.Tearing → P k) {ns : List Name}
    {done : List (Task C)} (h : Tears w.registry (ns.map .visit) done []) (left : List (Task C))
    (next : Program C role) (s : Stack C role)
    (htears : AtTears P w (ns.map .visit) left next s) (hquiet : QuietFrom w ns) :
    ∃ w', LeadsBy P ⟨w, .tear (ns.map .visit ++ left) next s⟩ ⟨w', .tear left next s⟩ ∧
      w'.registry = w.registry.afterAll done ∧
      w'.moments = w.moments ++ (Task.calls done).flatMap Body.moments := by
  apply leadsBy_of_tears hP h left next s htears
  intro m handle hmem
  have hcovers := Covers.of_tears h
  have hsettle := (hcovers.settle_iff m handle).mp (List.mem_append_left _ hmem)
  obtain ⟨n, hn, hclosure⟩ := hcovers.visit_iff.mp hsettle.1
  exact hquiet n hn m handle hclosure hsettle.2

theorem leads_of_visits {ns : List Name} {done : List (Task C)}
    (h : Tears w.registry (ns.map .visit) done []) (left : List (Task C)) (next : Program C role)
    (s : Stack C role)
    (hquiet : w.registry.handles.Quiet) :
    ∃ w', Leads ⟨w, .tear (ns.map .visit ++ left) next s⟩ ⟨w', .tear left next s⟩ ∧
      w'.registry = w.registry.afterAll done ∧
      w'.moments = w.moments ++ (Task.calls done).flatMap Body.moments :=
  leadsBy_of_visits (fun _ _ => trivial) h left next s (fun _ _ _ _ _ => trivial)
    (quietFrom_of_quiet hquiet ns)

theorem leads_of_destroy (n : Name) (next : Program C role) (s : Stack C role)
    (hquiet : w.registry.handles.Quiet) : ∃ (w' : World C) (done : List (Task C)),
      (w.run (.destroy n next) s).Leads (w'.run next s) ∧
      w'.registry = w.registry.afterAll done ∧
      w'.moments = w.moments ++ (Task.calls done).flatMap Body.moments ∧
      Covers w.registry [n] done [] ∧
      ∀ m, .visit m ∈ done ↔ w.registry.graph.Closure n m := by
  obtain ⟨done, htears⟩ := Tears.exists_done w.registry ([n].map .visit)
  have hcovers := Covers.of_tears htears
  obtain ⟨w', hleads, hregistry, hmoments⟩ := leads_of_visits htears [] next s hquiet
  refine ⟨w', done, .head ⟨trivial, rfl⟩ (hleads.tail ⟨trivial, rfl⟩), hregistry, hmoments, hcovers,
    ?_⟩
  intro m
  rw [hcovers.visit_iff]
  simp

/--
The destruction of a name comes to its end. It runs the callback of each name that can be reached
once and no other callback, leaves nothing of these names, and keeps what there is of the others.
-/
theorem destroy_closure (w : World C) (n : Name) (next : Program C role) (s : Stack C role)
    (hquiet : w.registry.handles.Quiet) :
    ∃ (w' : World C) (calls : List Body),
      (w.run (.destroy n next) s).Leads (w'.run next s) ∧
      w'.moments = w.moments ++ calls.flatMap Body.moments ∧
      calls.Nodup ∧
      (∀ b, b ∈ calls ↔ ∃ m handle, w.registry.graph.Closure n m ∧
        w.registry.handles.find? m = some handle ∧ b = .callback m handle.ticket) ∧
      (∀ m, w.registry.graph.Closure n m → w'.registry.Lacks m) ∧
      ∀ m, ¬ w.registry.graph.Closure n m →
        w.registry.Keeps w'.registry (w.registry.graph.Closure n) m := by
  obtain ⟨done, htears⟩ := Tears.exists_done w.registry ([n].map .visit)
  have hcovers := Covers.of_tears htears
  obtain ⟨w', hleads, hregistry, hmoments⟩ := leads_of_visits htears [] next s hquiet
  have hvisit : ∀ m, .visit m ∈ done ↔ w.registry.graph.Closure n m := by
    intro m
    rw [hcovers.visit_iff]
    simp
  have hnames : (fun m => .visit m ∈ done) = w.registry.graph.Closure n := by
    funext m
    rw [hvisit]
  refine ⟨w', Task.calls done, ?_, hmoments, ?_, ?_, ?_, ?_⟩
  · exact .head ⟨trivial, rfl⟩ (hleads.tail ⟨trivial, rfl⟩)
  · have hnodup := hcovers.calls_nodup
    rwa [List.append_nil] at hnodup
  · intro b
    rw [hcovers.mem_calls_iff]
    simp only [hvisit]
  · intro m hm
    rw [hregistry]
    apply hcovers.lacks_afterAll
    rwa [hvisit]
  · intro m hm
    rw [hregistry, ← hnames]
    apply hcovers.keeps_afterAll
    rwa [hvisit]

def circle : World .plain where
  registry := {
    (Registry.empty {} none : Client.plain.Store) with
    graph := {
      contained := (∅ : Edges).link "b" "c"
      dependents := (((((∅ : Edges).link "a" "a").link "a" "b").link "b" "a").link "c" "b").link
        "d" "a"
      dependencies := (((((∅ : Edges).link "a" "a").link "b" "a").link "a" "b").link "b" "c").link
        "a" "d" }
    handles := ((Table.empty.insert "a" ⟨0, .done (.ok ())⟩).insert
      "b" ⟨1, .done (.error (.plain "stuck"))⟩).insert "d" ⟨2, .done (.ok ())⟩ }
  state := ()
  history := []
  tickets := 3

theorem quiet_circle : circle.registry.handles.Quiet := by
  apply Table.quiet_insert
  · apply Table.quiet_insert
    · apply Table.quiet_insert
      · exact Table.quiet_empty
      · simp
    · simp
  · simp

theorem not_closure_circle : ¬ circle.registry.graph.Closure "a" "d" := by
  unfold Graph.Closure
  rw [Relation.ReflTransGen.cases_tail_iff]
  simp [Graph.Drags, circle]

theorem destroy_circle : ∃ (w' : World .plain) (calls : List Body),
    (circle.run (.destroy "a" (.done ())) .bottom).Leads (w'.run (.done ()) .bottom) ∧
      calls.Nodup ∧ .callback "a" 0 ∈ calls ∧ .callback "b" 1 ∈ calls ∧ ¬ .callback "d" 2 ∈ calls ∧
      w'.registry.Lacks "c" ∧ w'.registry.handles.contains "d" = true := by
  obtain ⟨w', calls, hleads, _, hnodup, hcalls, hlacks, hkeeps⟩ :=
    destroy_closure circle "a" (.done ()) .bottom quiet_circle
  have hb : circle.registry.graph.Closure "a" "b" := by
    apply Relation.ReflTransGen.single
    simp [Graph.Drags, circle]
  have hc : circle.registry.graph.Closure "a" "c" := by
    apply hb.tail
    simp [Graph.Drags, circle]
  refine ⟨w', calls, hleads, hnodup, ?_, ?_, ?_, hlacks "c" hc, ?_⟩
  · rw [hcalls]
    exact ⟨"a", _, .refl, rfl, rfl⟩
  · rw [hcalls]
    exact ⟨"b", _, hb, rfl, rfl⟩
  · intro hd
    rw [hcalls] at hd
    obtain ⟨m, handle, hm, _, hd⟩ := hd
    rw [Body.callback.injEq] at hd
    rw [← hd.1] at hm
    exact not_closure_circle hm
  · unfold Table.contains
    rw [(hkeeps "d" not_closure_circle).handles]
    rfl

end Machine

end InstanceRegistry
