import InstanceRegistry.Error.Message

/-!
This module contains how the reports on nested failures agree. A creation that fails for a nested
request wraps the error of that request, and its root cause, its message and its chain all go
through the same errors, one after the other (`RegistryError.reports_agree`).
-/

namespace InstanceRegistry

/-- What is passed by going from an element to the next one, as long as there is one. -/
inductive Descends {α : Type} (next : α → Option α) : α → List α → Prop
  | stop {a : α} (h : next a = none) : Descends next a []
  | step {a b : α} {bs : List α} (h : next a = some b) (hb : Descends next b bs) :
    Descends next a (b :: bs)

section Descent

variable {α : Type} {next : α → Option α} {a b : α} {as : List α} {size : α → Nat}

theorem Descends.congr (h : Descends next a as) (hab : next a = next b) : Descends next b as := by
  cases h with
  | stop ha => exact .stop (hab.symm.trans ha)
  | step ha has => exact .step (hab.symm.trans ha) has

theorem exists_descends (hsize : ∀ a b, next a = some b → size b < size a) (a : α) :
    ∃ as, Descends next a as := by
  induction a using (measure size).wf.induction with
  | _ a ih =>
    cases ha : next a with
    | none => exact ⟨[], .stop ha⟩
    | some b =>
      obtain ⟨bs, hb⟩ := ih b (hsize a b ha)
      exact ⟨b :: bs, .step ha hb⟩

theorem Descends.pairwise (hsize : ∀ a b, next a = some b → size b < size a)
    (h : Descends next a as) : (a :: as).Pairwise fun x y => size y < size x := by
  induction h with
  | stop => exact List.pairwise_singleton ..
  | @step a b bs hab _ ih =>
    refine List.pairwise_cons.mpr ⟨?_, ih⟩
    intro x hx
    have hlt : size b < size a := hsize a b hab
    cases List.mem_cons.mp hx with
    | inl hxb => rwa [hxb]
    | inr hxs => exact Nat.lt_trans (List.rel_of_pairwise_cons ih hxs) hlt

end Descent

inductive AnyError where
  | registry (error : RegistryError)
  | creation (error : CreationError)
  | failure (failure : Failure)

def RegistryError.source? : RegistryError → Option AnyError
  | .creationFailed _ source _ => some (.creation source)
  | _ => none

def Failure.source? : Failure → Option AnyError
  | .registry e => e.source?
  | .context _ inner => some (.failure inner)
  | _ => none

def CreationError.source? : CreationError → Option AnyError
  | .registry e => e.source?
  | .custom f => f.source?

namespace AnyError

def message : AnyError → String
  | registry e => e.message
  | creation e => e.message
  | failure f => f.message

def chain : AnyError → List String
  | registry e => e.chain
  | creation e => e.chain
  | failure f => f.chain

def source? : AnyError → Option AnyError
  | registry e => e.source?
  | creation e => e.source?
  | failure f => f.source?

def shown? : AnyError → Option RegistryError
  | registry e => some e
  | creation (.registry e) => some e
  | creation (.custom (.registry e)) => some e
  | failure (.registry e) => some e
  | _ => none

def texts (x : AnyError) : List String :=
  x.message :: x.chain

end AnyError

theorem RegistryError.chain_eq (e : RegistryError) :
    e.chain = e.source?.elim [] AnyError.texts := by
  cases e <;> rfl

theorem Failure.chain_eq (f : Failure) : f.chain = f.source?.elim [] AnyError.texts := by
  cases f with
  | registry e => exact e.chain_eq
  | _ => rfl

theorem CreationError.chain_eq (e : CreationError) :
    e.chain = e.source?.elim [] AnyError.texts := by
  cases e with
  | registry e => exact e.chain_eq
  | custom f => exact f.chain_eq

namespace AnyError

variable {x y : AnyError} {below : List AnyError} {e : RegistryError}

theorem chain_eq (x : AnyError) : x.chain = x.source?.elim [] texts := by
  cases x with
  | registry e => exact e.chain_eq
  | creation e => exact e.chain_eq
  | failure f => exact f.chain_eq

theorem length_chain_lt (h : x.source? = some y) : y.chain.length < x.chain.length := by
  rw [chain_eq x, h]
  exact Nat.lt_succ_self _

theorem exists_sources (x : AnyError) : ∃ below, Descends source? x below :=
  exists_descends (fun _ _ => length_chain_lt) x

theorem chain_eq_map_message (h : Descends source? x below) : x.chain = below.map message := by
  induction h with
  | stop h =>
    rw [chain_eq, h]
    rfl
  | step h _ ih =>
    rw [chain_eq, h, List.map_cons, ← ih]
    rfl

theorem chain_of_shown? (h : x.shown? = some e) : e.chain = x.chain := by
  unfold shown? at h
  split at h
  all_goals cases h
  all_goals rfl

theorem nodup_shown (h : Descends source? x below) : ((x :: below).filterMap shown?).Nodup := by
  apply (h.pairwise fun _ _ => length_chain_lt).filterMap
  rintro x y hlt e hx e' hy rfl
  rw [← chain_of_shown? hx, ← chain_of_shown? hy] at hlt
  exact Nat.lt_irrefl _ hlt

end AnyError

namespace RegistryError

def nested? : RegistryError → Option RegistryError
  | creationFailed _ (.registry e) _ => some e
  | _ => none

def preamble : RegistryError → String
  | creationFailed n _ suppressed =>
    s!"Creation of singleton '{n}' failed ({suppressed.length} suppressed): "
  | _ => ""

variable {e c : RegistryError} {inner : List RegistryError} {below : List AnyError}

theorem eq_of_nested?_eq_some (h : e.nested? = some c) :
    ∃ n suppressed, e = creationFailed n (.registry c) suppressed := by
  unfold nested? at h
  split at h
  · next n e suppressed =>
    cases h
    exact ⟨n, suppressed, rfl⟩
  · cases h

theorem rootCause_of_nested?_eq_none (h : e.nested? = none) : e.rootCause = e := by
  unfold nested? at h
  split at h
  · cases h
  · next hne =>
    unfold rootCause
    split
    · exact absurd rfl (hne _ _ _)
    · rfl

theorem rootCause_of_nested?_eq_some (h : e.nested? = some c) : e.rootCause = c.rootCause := by
  obtain ⟨n, suppressed, rfl⟩ := eq_of_nested?_eq_some h
  rfl

theorem message_of_nested?_eq_some (h : e.nested? = some c) :
    e.message = e.preamble ++ c.message := by
  obtain ⟨n, suppressed, rfl⟩ := eq_of_nested?_eq_some h
  rfl

theorem chain_of_nested?_eq_some (h : e.nested? = some c) : e.chain = c.message :: c.chain := by
  obtain ⟨n, suppressed, rfl⟩ := eq_of_nested?_eq_some h
  rfl

theorem exists_nested (e : RegistryError) : ∃ inner, Descends nested? e inner := by
  have hsize : ∀ e c : RegistryError, e.nested? = some c → c.chain.length < e.chain.length := by
    intro e c h
    rw [chain_of_nested?_eq_some h]
    exact Nat.lt_succ_self _
  exact exists_descends hsize e

theorem rootCause_eq_getLast (h : Descends nested? e inner) :
    e.rootCause = (e :: inner).getLast (List.cons_ne_nil e inner) := by
  induction h with
  | stop h => exact rootCause_of_nested?_eq_none h
  | step h _ ih => rw [rootCause_of_nested?_eq_some h, ih, List.getLast_cons_cons]

theorem rootCause_rootCause (e : RegistryError) : e.rootCause.rootCause = e.rootCause := by
  obtain ⟨inner, h⟩ := exists_nested e
  induction h with
  | stop h => rw [rootCause_of_nested?_eq_none h, rootCause_of_nested?_eq_none h]
  | step h _ ih => rw [rootCause_of_nested?_eq_some h, ih]

theorem message_eq_join (h : Descends nested? e inner) :
    e.message = String.join ((e :: inner).dropLast.map preamble) ++ e.rootCause.message := by
  induction h with
  | stop h =>
    rw [rootCause_of_nested?_eq_none h]
    exact String.empty_append.symm
  | step h _ ih =>
    rw [message_of_nested?_eq_some h, rootCause_of_nested?_eq_some h, ih, List.dropLast_cons_cons,
      List.map_cons, String.join_cons, String.append_assoc]

theorem chain_eq_append (h : Descends nested? e inner) :
    e.chain = inner.map message ++ e.rootCause.chain := by
  induction h with
  | stop h => rw [rootCause_of_nested?_eq_none h, List.map_nil, List.nil_append]
  | step h _ ih =>
    rw [chain_of_nested?_eq_some h, rootCause_of_nested?_eq_some h, ih, List.map_cons,
      List.cons_append]

theorem exists_sources_rootCause (h : Descends nested? e inner)
    (hbelow : Descends AnyError.source? (.registry e) below) :
    ∃ rest, Descends AnyError.source? (.registry e.rootCause) rest ∧
      below = inner.map (fun c => .creation (.registry c)) ++ rest := by
  induction h generalizing below with
  | stop h =>
    rw [rootCause_of_nested?_eq_none h]
    exact ⟨below, hbelow, rfl⟩
  | step h _ ih =>
    obtain ⟨n, suppressed, rfl⟩ := eq_of_nested?_eq_some h
    cases hbelow with
    | stop hnone => cases hnone
    | step hx hbelow =>
      cases hx
      -- The wrapper and the error in it have the same source.
      obtain ⟨rest, hrest, rfl⟩ := ih (hbelow.congr rfl)
      exact ⟨rest, hrest, rfl⟩

/--
Let `inner` be the errors that are passed by going from a failed creation to the error of the nested
request that it failed for, as long as there is one, and let `root` be the last error of all, with
`outer` above it. The root cause is `root`. The message is that of `root` with one preamble for each
of `outer`, and the chain holds the messages of `inner` before it goes on with the chain of `root`,
also where `root` is a creation that failed for a failure of client code. Asked for one source after
the other, the error shows each of `inner` once, in its wrapper.
-/
theorem reports_agree (e : RegistryError) :
    (∃ inner outer root below, Descends nested? e inner ∧ e :: inner = outer ++ [root] ∧
      Descends AnyError.source? (.registry e) below) ∧
    ∀ inner outer root, Descends nested? e inner → e :: inner = outer ++ [root] →
      (e.rootCause = root ∧ root.rootCause = root) ∧
      e.message = String.join (outer.map preamble) ++ root.message ∧
      e.chain = inner.map message ++ root.chain ∧
      (∀ n f suppressed, root = creationFailed n (.custom f) suppressed →
        root.chain = f.message :: f.chain ∧
        ∀ below, Descends AnyError.source? (.failure f) below →
          f.chain = below.map AnyError.message) ∧
      ∀ below, Descends AnyError.source? (.registry e) below →
        e.chain = below.map AnyError.message ∧ (e :: below.filterMap AnyError.shown?).Nodup ∧
        ∃ rest, Descends AnyError.source? (.registry root) rest ∧
          below = inner.map (fun c => .creation (.registry c)) ++ rest := by
  constructor
  · obtain ⟨inner, h⟩ := exists_nested e
    obtain ⟨below, hbelow⟩ := AnyError.exists_sources (.registry e)
    have hsplit := List.dropLast_concat_getLast (List.cons_ne_nil e inner)
    exact ⟨inner, _, _, below, h, hsplit.symm, hbelow⟩
  · intro inner outer root h hsplit
    have hroot : root = e.rootCause := by
      rw [rootCause_eq_getLast h]
      simp [hsplit]
    have houter : outer = (e :: inner).dropLast := by
      rw [hsplit, List.dropLast_concat]
    subst hroot houter
    refine ⟨⟨rfl, rootCause_rootCause e⟩, message_eq_join h, chain_eq_append h, ?_, ?_⟩
    · intro n f suppressed hcustom
      rw [hcustom]
      exact ⟨rfl, fun _ hbelow => AnyError.chain_eq_map_message hbelow⟩
    · intro below hbelow
      refine ⟨AnyError.chain_eq_map_message hbelow, AnyError.nodup_shown hbelow, ?_⟩
      exact exists_sources_rootCause h hbelow

def unopened : RegistryError :=
  creationFailed "c" (.registry (.currentlyInCreation "a")) []

def unstarted : RegistryError :=
  creationFailed "b" (.custom (.context "no settings" (.registry unopened))) [.plain "slow"]

def delayed : RegistryError :=
  creationFailed "a" (.registry unstarted) []

theorem reports_of_delayed :
    delayed.rootCause = unstarted ∧
    delayed.message = "Creation of singleton 'a' failed (0 suppressed): " ++
      "Creation of singleton 'b' failed (1 suppressed): no settings" ∧
    delayed.chain = [unstarted.message, "no settings", unopened.message,
      message (.currentlyInCreation "a")] ∧
    ∃ below, Descends AnyError.source? (.registry delayed) below ∧
      below.filterMap AnyError.shown? = [unstarted, unopened, .currentlyInCreation "a"] ∧
      (delayed :: below.filterMap AnyError.shown?).Nodup := by
  have hnested : Descends nested? delayed [unstarted] := .step rfl (.stop rfl)
  have hbelow : Descends AnyError.source? (.registry delayed) [.creation (.registry unstarted),
      .creation (.custom (.context "no settings" (.registry unopened))),
      .failure (.registry unopened), .creation (.registry (.currentlyInCreation "a"))] :=
    .step rfl (.step rfl (.step rfl (.step rfl (.stop rfl))))
  obtain ⟨_, hreports⟩ := reports_agree delayed
  obtain ⟨hroot, hmessage, hchain, hcustom, hsources⟩ :=
    hreports [unstarted] [delayed] unstarted hnested rfl
  refine ⟨hroot.1, ?_, ?_, _, hbelow, rfl, (hsources _ hbelow).2.1⟩
  · rw [hmessage]
    rfl
  · rw [hchain, (hcustom _ _ _ rfl).1]
    rfl

end RegistryError

end InstanceRegistry
