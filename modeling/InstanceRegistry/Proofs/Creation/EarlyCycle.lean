import InstanceRegistry.Proofs.Creation.Gains

/-!
This module contains cycles of names whose factories request one another, the first of which hands
out an early reference. The others look the first name up, are all given the same reference, and
come to their ends one after the other (`World.cycle_resolves`).
-/

namespace InstanceRegistry

variable {C : Client}

namespace Program

inductive Concludes (root : Name) : Program C .factory → Prop
  | give (i : Instance) : Concludes root (.done (.ok i))
  | look {next : Option Instance → Program C .factory}
    (hnext : ∀ i, Concludes root (next (some i))) : Concludes root (.lookup root true next)
  | aside {r : Role} {body : Program C r} {k : C.Result r → Program C .factory}
    (hbody : body.Quiet) (hk : ∀ x, Concludes root (k x)) : Concludes root (body.bind k)

inductive Reaches (root : Name) : List Name → Program C .factory → Prop
  | last {next : Option Instance → Program C .factory}
    (hnext : ∀ i, Concludes root (next (some i))) : Reaches root [] (.lookup root true next)
  | nest {n : Name} {ns : List Name} {factory : Program C .factory}
    {next : Except RegistryError Instance → Program C .factory} (hfactory : Reaches root ns factory)
    (hnext : ∀ i, Concludes root (next (.ok i))) :
    Reaches root (n :: ns) (.getOrCreate n factory next)
  | look {ns : List Name} {next : Option Instance → Program C .factory}
    (hnext : ∀ i, Reaches root ns (next (some i))) : Reaches root ns (.lookup root true next)
  | aside {ns : List Name} {r : Role} {body : Program C r} {k : C.Result r → Program C .factory}
    (hbody : body.Quiet) (hk : ∀ x, Reaches root ns (k x)) : Reaches root ns (body.bind k)

inductive Exposes (root : Name) (ns : List Name) : Program C .factory → Prop
  | expose {code : Program C .early} {next : Program C .factory} (hcode : code.Quiet)
    (hnext : Reaches root ns next) : Exposes root ns (.addEarlyFactory root code next)
  | aside {r : Role} {body : Program C r} {k : C.Result r → Program C .factory}
    (hbody : body.Quiet) (hk : ∀ x, Exposes root ns (k x)) : Exposes root ns (body.bind k)

end Program

theorem Cache.expose_of_not_ready {ε : Type} {c : Cache ε} {n : Name}
    (h : c.ready.find? n = none) (i : Instance) :
    c.expose n i = (i, { c with slots := c.slots.insert n (.early i) }) := by
  unfold expose
  rw [h]

namespace Moment

def isEarly : Moment → Bool
  | began (.early _ _) => true
  | ended (.early _ _) => true
  | _ => false

@[simp]
theorem isEarly_began_factory (n : Name) : (began (.factory n)).isEarly = false :=
  rfl

@[simp]
theorem isEarly_ended_factory (n : Name) : (ended (.factory n)).isEarly = false :=
  rfl

end Moment

structure Machine.Agrees (root : Name) (i : Instance) (made : List (Name × Instance))
    (m : Machine C) : Prop where
  lookups : ∀ x, m.lookupAnswer? = some (root, x) → x = some i
  results : ∀ c result, m.change = .conclude c result → ∃ j, result = .ok j ∧ (c.name, j) ∈ made

namespace Machine

variable {m : Machine C} {root : Name} {i : Instance} {made made' : List (Name × Instance)}

theorem Agrees.mono (h : m.Agrees root i made) (hmade : made ⊆ made') : m.Agrees root i made' := by
  refine ⟨h.lookups, ?_⟩
  intro c result hchange
  obtain ⟨j, hj, hmem⟩ := h.results c result hchange
  exact ⟨j, hj, hmade hmem⟩

theorem Private.agrees (h : m.Private) (root : Name) (i : Instance)
    (made : List (Name × Instance)) : m.Agrees root i made := by
  constructor
  · intro x hx
    rw [h.unanswered] at hx
    cases hx
  · intro c result hchange
    rw [h.idle] at hchange
    cases hchange

variable {w : World C} {r : Role} {n : Name} {c : Creation} {factory : Program C .factory}
  {next : Except RegistryError Instance → Program C r} {s : Stack C r}

theorem agrees_getOrCreate {r' : C.Store} (hstart : w.registry.startCreation n = .started c r')
    (root : Name) (i : Instance) (made : List (Name × Instance)) :
    (w.run (.getOrCreate n factory next) s).Agrees root i made := by
  constructor
  · intro x hx
    cases hx
  · intro c result hchange
    simp only [change, World.run, World.change, hstart] at hchange
    cases hchange

theorem agrees_lookup {e : Entrusted C .early} (hconsult : w.registry.lookup n true = .consult e)
    (next : Option Instance → Program C r) (root : Name) (i : Instance)
    (made : List (Name × Instance)) :
    (w.run (.lookup n true next) s).Agrees root i made := by
  constructor
  · intro x hx
    simp only [lookupAnswer?, World.run, World.lookupAnswer?, hconsult] at hx
    cases hx
  · intro c result hchange
    simp only [change, World.run, World.change, hconsult] at hchange
    cases hchange

theorem agrees_expose (hready : w.registry.cache.ready.find? root = none) (ticket : Nat)
    (next : Option Instance → Program C r) (made : List (Name × Instance)) :
    (w.run (.done (r := .early) i) (.exposing root ticket next s)).Agrees root i made := by
  constructor
  · intro x hx
    simp only [lookupAnswer?, World.run, World.lookupAnswer?, World.lookupAnswerAtEnd?,
      Cache.expose_of_not_ready hready] at hx
    cases hx
    rfl
  · intro c result hchange
    cases hchange

theorem agrees_conclude {j : Instance} (hmade : (c.name, j) ∈ made) (root : Name) (i : Instance) :
    (w.run (.done (r := .factory) (.ok j)) (.creating c next s)).Agrees root i made := by
  constructor
  · intro x hx
    cases hx
  · intro c result hchange
    cases hchange
    exact ⟨j, rfl, hmade⟩

end Machine

namespace World

/--
A program goes on until another one is left, while the root lends its early reference to all that
look it up, and some creations come to their ends.
-/
structure Goes {r : Role} (w : World C) (p : Program C r) (root : Name) (i : Instance)
    (made : List (Name × Instance)) (moments : List Moment) (w' : World C) (p' : Program C r) :
    Prop where
  leads : ∀ s, (w.run p s).LeadsBy (Machine.Agrees root i made) (w'.run p' s)
  shows : w'.registry.ShowsEarly root i
  kept : ∀ j, w.registry.ShowsEarly root j → j = i
  gains : w.registry.Gains root made w'.registry
  moments_eq : ∃ new, w'.moments = w.moments ++ new ∧
    new.filter (·.isEarly) = w.registry.owed root ∧ new.filter (!·.isEarly) = moments

def Delivers (w : World C) (p : Program C .factory) (root : Name) (ns : List Name) : Prop :=
  ∃ (w' : World C) (i j : Instance) (made : List (Name × Instance)),
    w.Goes p root i made (Moment.nested ns) w' (.done (.ok j)) ∧ made.map (·.1) = ns.reverse

variable {w w₁ w' : World C} {r : Role} {p p₁ p' : Program C r} {root n : Name} {ns : List Name}
  {i i₁ j : Instance} {made₁ made : List (Name × Instance)} {moments₁ moments : List Moment}
  {factory q : Program C .factory}

theorem Goes.refl (p : Program C r) (h : w.registry.ShowsEarly root i) :
    w.Goes p root i [] [] w p where
  leads := fun _ => .refl
  shows := h
  kept := by
    intro j hj
    have hslot := hj.slot
    rw [h.slot] at hslot
    cases hslot
    rfl
  gains := Registry.gains_refl _ root
  moments_eq := ⟨[], by simp, h.owed.symm, rfl⟩

theorem Goes.trans (h₁ : w.Goes p root i₁ made₁ moments₁ w₁ p₁)
    (h : w₁.Goes p₁ root i made moments w' p')
    (hdisjoint : ∀ n ∈ made₁.map (·.1), ¬ n ∈ made.map (·.1)) :
    w.Goes p root i (made₁ ++ made) (moments₁ ++ moments) w' p' := by
  -- the reference that is lent before is the one that is lent after
  obtain rfl := h.kept i₁ h₁.shows
  obtain ⟨new₁, hmoments₁, hearly₁, hother₁⟩ := h₁.moments_eq
  obtain ⟨new, hmoments, hearly, hother⟩ := h.moments_eq
  refine ⟨?_, h.shows, h₁.kept, h₁.gains.trans h.gains hdisjoint, new₁ ++ new, ?_, ?_, ?_⟩
  · intro s
    have hleads₁ := Machine.leadsBy_mono (h₁.leads s)
      fun k hk => hk.mono (List.subset_append_left made₁ made)
    have hleads := Machine.leadsBy_mono (h.leads s)
      fun k hk => hk.mono (List.subset_append_right made₁ made)
    exact hleads₁.trans hleads
  · rw [hmoments, hmoments₁, List.append_assoc]
  · rw [List.filter_append, hearly₁, hearly, h₁.shows.owed, List.append_nil]
  · rw [List.filter_append, hother₁, hother]

theorem Goes.of_aside {q : Role} {body : Program C q} {k : C.Result q → Program C r}
    {x : C.Result q} (hregistry : w₁.registry = w.registry) (hmoments : w₁.moments = w.moments)
    (haside : ∀ s, (w.run (body.bind k) s).LeadsBy Machine.Private (w₁.run (k x) s))
    (h : w₁.Goes (k x) root i made moments w' p') :
    w.Goes (body.bind k) root i made moments w' p' := by
  obtain ⟨hleads, hshows, hkept, hgains, hnew⟩ := h
  rw [hregistry] at hkept hgains hnew
  rw [hmoments] at hnew
  refine ⟨?_, hshows, hkept, hgains, hnew⟩
  intro s
  exact (Machine.leadsBy_mono (haside s) fun m hm => hm.agrees root i made).trans (hleads s)

theorem goes_found (h : w.registry.ShowsEarly root i) (next : Option Instance → Program C r) :
    w.Goes (.lookup root true next) root i [] [] w (next (some i)) := by
  have hfound := (Registry.lookup_eq_found_iff h.not_ready true).mpr h
  refine { Goes.refl (next (some i)) h with leads := ?_ }
  intro s
  have hstep : (w.run (.lookup root true next) s).step = some (w.run (next (some i)) s) := by
    simp only [run, Machine.step, exec, lookup, hfound]
  have hagrees : (w.run (.lookup root true next) s).Agrees root i [] := by
    constructor
    · intro x hx
      simp only [Machine.lookupAnswer?, run, lookupAnswer?, hfound] at hx
      cases hx
      rfl
    · intro c result hchange
      simp only [Machine.change, run, change, hfound] at hchange
      cases hchange
  exact .single ⟨hagrees, hstep⟩

def consulting (w : World C) (n : Name) (ticket : Nat) : World C :=
  World.record { w with registry := { w.registry with cache := w.registry.cache.takeSlot n } }
    (.began (.early n ticket))

def exposed (w : World C) (n : Name) (ticket : Nat) (i : Instance) : World C :=
  { w.record (.ended (.early n ticket)) with
    registry := { w.registry with cache := (w.registry.cache.expose n i).2 } }

theorem moments_consulting (w : World C) (n : Name) (ticket : Nat) :
    (w.consulting n ticket).moments = w.moments ++ [.began (.early n ticket)] :=
  moments_record { w with registry := { w.registry with cache := w.registry.cache.takeSlot n } } _

theorem moments_exposed (w : World C) (n : Name) (ticket : Nat) (i : Instance) :
    (w.exposed n ticket i).moments = w.moments ++ [.ended (.early n ticket)] :=
  w.moments_record _

theorem registry_exposed {ticket : Nat}
    (hregistry : w₁.registry = (w.consulting n ticket).registry)
    (hready : w.registry.cache.ready.find? n = none) (i : Instance) :
    (w₁.exposed n ticket i).registry = w.registry.lend n i := by
  have hunready : (w.consulting n ticket).registry.cache.ready.find? n = none := hready
  unfold exposed
  rw [hregistry, Cache.expose_of_not_ready hunready]
  rfl

theorem step_consult {e : Entrusted C .early} (h : w.registry.lookup n true = .consult e)
    (next : Option Instance → Program C r) (s : Stack C r) :
    (w.run (.lookup n true next) s).step =
      some ((w.consulting n e.ticket).run e.code (.exposing n e.ticket next s)) := by
  simp only [run, Machine.step, exec, lookup, h, consulting]

theorem step_expose (h : w.registry.cache.ready.find? n = none) (ticket : Nat) (i : Instance)
    (next : Option Instance → Program C r) (s : Stack C r) :
    (w.run (.done (r := .early) i) (.exposing n ticket next s)).step =
      some ((w.exposed n ticket i).run (next (some i)) s) := by
  simp only [run, Machine.step, exec, finish, expose, Cache.expose_of_not_ready h, exposed]
  rfl

theorem goes_consult {e : Entrusted C .early} (hready : w.registry.cache.ready.find? root = none)
    (hmarked : w.registry.marks.isMarked root = true)
    (hslot : w.registry.cache.slots.find? root = some (.pending e)) (hquiet : e.code.Quiet)
    (next : Option Instance → Program C r) :
    ∃ w' i, w.Goes (.lookup root true next) root i [] [] w' (next (some i)) := by
  have hconsult : w.registry.lookup root true = .consult e := by
    simp [Registry.lookup, hready, hmarked, hslot]
  obtain ⟨w₁, i, hcode, hregistry, hmoments, _⟩ :=
    Machine.leadsBy_bind_of_quiet (w.consulting root e.ticket) hquiet
  have hunready : w₁.registry.cache.ready.find? root = none := by
    rw [hregistry]
    exact hready
  have hlent := registry_exposed hregistry hready i
  refine ⟨w₁.exposed root e.ticket i, i, ?_, ?_, ?_, ?_, (Body.early root e.ticket).moments, ?_, ?_,
    ?_⟩
  · intro s
    have hrun := hcode .done (.exposing root e.ticket next s)
    rw [Program.bind_done] at hrun
    have hruns := Machine.leadsBy_mono hrun fun k hk => hk.agrees root i []
    exact .head ⟨Machine.agrees_lookup hconsult next root i [], step_consult hconsult next s⟩
      (hruns.tail ⟨Machine.agrees_expose hunready e.ticket next [],
        step_expose hunready e.ticket i next s⟩)
  · rw [hlent]
    exact Registry.showsEarly_lend hready hmarked i
  · intro j hj
    have hearly := hj.slot
    rw [hslot] at hearly
    cases hearly
  · rw [hlent]
    exact w.registry.gains_lend root i
  · rw [moments_exposed, hmoments, moments_consulting, List.append_assoc]
    rfl
  · simp [Registry.owed, hslot, Body.moments, Moment.isEarly]
  · simp [Body.moments, Moment.isEarly]

theorem goes_look (h : w.registry.Lends root) (next : Option Instance → Program C r) :
    ∃ w' i, w.Goes (.lookup root true next) root i [] [] w' (next (some i)) := by
  cases h.slot with
  | inl hpending =>
    obtain ⟨e, hslot, hquiet⟩ := hpending
    exact goes_consult h.not_ready h.marked hslot hquiet next
  | inr hearly =>
    obtain ⟨i, hslot⟩ := hearly
    exact ⟨w, i, goes_found ⟨h.not_ready, h.marked, hslot⟩ next⟩

theorem goes_of_concludes (h : q.Concludes root) (hshows : w.registry.ShowsEarly root i) :
    ∃ w' j, w.Goes q root i [] [] w' (.done (.ok j)) := by
  induction h generalizing w with
  | give j => exact ⟨w, j, .refl _ hshows⟩
  | look _ ih =>
    obtain ⟨w', j, hgoes⟩ := ih i hshows
    exact ⟨w', j, (goes_found hshows _).trans hgoes nofun⟩
  | aside hbody _ ih =>
    obtain ⟨w₁, x, haside, hregistry, hmoments, _⟩ := Machine.leadsBy_bind_of_quiet w hbody
    obtain ⟨w', j, hgoes⟩ := ih x (w := w₁) (hregistry ▸ hshows)
    exact ⟨w', j, hgoes.of_aside hregistry hmoments (haside _)⟩

theorem goes_create (hn : w.registry.Unknown n) (hdestroying : w.registry.cache.destroying = false)
    (hroot : w.registry.Lends root) (hns : ¬ n ∈ ns)
    (h : ∀ c r', w.registry.startCreation n = .started c r' →
      (w.enter n r').Delivers factory root ns)
    (next : Except RegistryError Instance → Program C r) :
    ∃ w' i j made, w.Goes (.getOrCreate n factory next) root i made (Moment.nested (n :: ns)) w'
        (next (.ok j)) ∧ made.map (·.1) = (n :: ns).reverse := by
  obtain ⟨c, r', hstart⟩ := Registry.exists_started hn.not_ready hdestroying hn.not_marked
  obtain ⟨w₁, i, j, made, hgoes, hnames⟩ := h c r' hstart
  have hne := hroot.ne hn
  have hname : c.name = n := by
    rw [(Registry.startCreation_eq_started hstart).2.2.1]
  have hmade : ¬ n ∈ made.map (·.1) := by
    rw [hnames, List.mem_reverse]
    exact hns
  have hgains : r'.Gains root made w₁.registry := hgoes.gains
  have hgained := hgains.publish hstart hn hne hmade j
  obtain ⟨new, hmoments, hearly, hother⟩ := hgoes.moments_eq
  have howed : (w.enter n r').registry.owed root = w.registry.owed root :=
    Registry.owed_of_started hstart
  refine ⟨w₁.leave n ((w₁.registry.restore w.registry).created n (.ok j)), i, j, made ++ [(n, j)],
    ⟨?_, ?_, ?_, hgained, .began (.factory n) :: new ++ [.ended (.factory n)], ?_, ?_, ?_⟩, ?_⟩
  · intro s
    have hready : w₁.registry.cache.ready.find? n = none := by
      rw [hgains.ready_of_not_mem n hmade, (Registry.startCreation_eq_started hstart).2.2.2.2.1]
      exact hn.not_ready
    apply leadsBy_of_factory hstart hn.not_marked hgains.marks hgains.window hready
    · exact Machine.agrees_getOrCreate hstart root i _
    · exact Machine.leadsBy_mono (hgoes.leads _)
        fun k hk => hk.mono (List.subset_append_left made [(n, j)])
    · exact Machine.agrees_conclude (by simp [hname]) root i
  · exact hgoes.shows.created hroot.marked hne j
  · intro k hk
    exact hgoes.kept k (hk.of_started hn hstart)
  · rw [moments_leave, hmoments, moments_enter]
    simp
  · simp [List.filter_append, hearly, howed]
  · simp [List.filter_append, hother, Moment.nested]
  · simp [hnames]

theorem delivers_of_reaches (h : q.Reaches root ns) (hroot : w.registry.Lends root)
    (hdestroying : w.registry.cache.destroying = false) (hns : ∀ n ∈ ns, w.registry.Unknown n)
    (hnodup : ns.Nodup) : w.Delivers q root ns := by
  induction h generalizing w with
  | last hnext =>
    obtain ⟨w₁, i, hlook⟩ := goes_look hroot _
    obtain ⟨w', j, hgoes⟩ := goes_of_concludes (hnext i) hlook.shows
    exact ⟨w', i, j, [], hlook.trans hgoes nofun, rfl⟩
  | @nest n ns factory next _ hnext ih =>
    have hn := hns n List.mem_cons_self
    have hdelivers : ∀ c r', w.registry.startCreation n = .started c r' →
        (w.enter n r').Delivers factory root ns := by
      intro c r' hstart
      apply ih
      · exact hroot.of_started hn hstart
      · exact Registry.destroying_of_started hstart
      · exact Registry.unknown_of_started hns hnodup hstart
      · exact hnodup.of_cons
    obtain ⟨w₁, i, j, made, hcreate, hnames⟩ :=
      goes_create hn hdestroying hroot (List.nodup_cons.mp hnodup).1 hdelivers next
    obtain ⟨w', x, hgoes⟩ := goes_of_concludes (hnext j) hcreate.shows
    have hgoes' := hcreate.trans hgoes (by simp)
    rw [List.append_nil, List.append_nil] at hgoes'
    exact ⟨w', i, x, made, hgoes', hnames⟩
  | @look ns next _ ih =>
    obtain ⟨w₁, i, hlook⟩ := goes_look hroot next
    have hunknown : ∀ n ∈ ns, w₁.registry.Unknown n := by
      intro n hn
      exact hlook.gains.unknown (hns n hn) (hroot.ne (hns n hn)) List.not_mem_nil
    obtain ⟨w', i', j, made, hgoes, hnames⟩ := ih i hlook.shows.lends
      (hlook.gains.destroying.trans hdestroying) hunknown hnodup
    exact ⟨w', i', j, made, hlook.trans hgoes nofun, hnames⟩
  | aside hbody _ ih =>
    obtain ⟨w₁, x, haside, hregistry, hmoments, _⟩ := Machine.leadsBy_bind_of_quiet w hbody
    obtain ⟨w', i, j, made, hgoes, hnames⟩ := ih x (w := w₁) (hregistry ▸ hroot)
      (hregistry ▸ hdestroying) (hregistry ▸ hns) hnodup
    exact ⟨w', i, j, made, hgoes.of_aside hregistry hmoments (haside _), hnames⟩

theorem leadsBy_of_exposes (h : q.Exposes root ns) (w : World C) :
    ∃ (w' : World C) (code : Program C .early) (p : Program C .factory),
      code.Quiet ∧ p.Reaches root ns ∧
      (∀ i made s, (w.run q s).LeadsBy (Machine.Agrees root i made) (w'.run p s)) ∧
      w'.registry = w.registry.offer root ⟨w.tickets, code⟩ ∧ w'.moments = w.moments := by
  induction h generalizing w with
  | @expose code next hcode hnext =>
    refine ⟨{ w with
      registry := w.registry.offer root ⟨w.tickets, code⟩
      tickets := w.tickets + 1 }, code, next, hcode, hnext, ?_, rfl, rfl⟩
    intro i made s
    exact .single ⟨⟨nofun, nofun⟩, rfl⟩
  | @aside r body k hbody _ ih =>
    obtain ⟨w₁, x, haside, hregistry, hmoments, htickets⟩ := Machine.leadsBy_bind_of_quiet w hbody
    obtain ⟨w', code, p, hcode, hp, hleads, hregistry', hmoments'⟩ := ih x w₁
    rw [hregistry, htickets] at hregistry'
    rw [hmoments] at hmoments'
    refine ⟨w', code, p, hcode, hp, ?_, hregistry', hmoments'⟩
    intro i made s
    have hruns := Machine.leadsBy_mono (haside k s) fun m hm => hm.agrees root i made
    exact hruns.trans (hleads i made s)

theorem goes_of_exposes {c : Creation} {r' : C.Store} (h : q.Exposes root ns)
    (hstart : w.registry.startCreation root = .started c r')
    (hunknown : ∀ n ∈ root :: ns, w.registry.Unknown n) (hnodup : (root :: ns).Nodup) :
    ∃ (w₁ w' : World C) (code : Program C .early) (p : Program C .factory) (i j : Instance)
      (made : List (Name × Instance)),
      (∀ i made s, ((w.enter root r').run q s).LeadsBy (Machine.Agrees root i made)
        (w₁.run p s)) ∧
      w₁.registry = r'.offer root ⟨w.tickets, code⟩ ∧
      w₁.moments = w.moments ++ [.began (.factory root)] ∧
      w₁.Goes p root i made (Moment.nested ns) w' (.done (.ok j)) ∧
      made.map (·.1) = ns.reverse := by
  have hbusy := (hunknown root List.mem_cons_self).busy_of_started hstart
  obtain ⟨w₁, code, p, hcode, hp, hexposes, hregistry, hmoments⟩ :=
    leadsBy_of_exposes h (w.enter root r')
  have hoffer : w₁.registry = r'.offer root ⟨w.tickets, code⟩ := hregistry
  rw [moments_enter] at hmoments
  have hlends : w₁.registry.Lends root := by
    rw [hoffer]
    exact hbusy.lends_offer hcode
  have hrest : ∀ n ∈ ns, w₁.registry.Unknown n := by
    intro n hn
    have hne : n ≠ root := by
      rintro rfl
      exact (List.nodup_cons.mp hnodup).1 hn
    rw [hoffer]
    exact (Registry.unknown_of_started hunknown hnodup hstart n hn).offer hne hbusy.not_ready _
  have hundestroyed : w₁.registry.cache.destroying = false := by
    have hstarted := Registry.destroying_of_started hstart
    rw [hoffer, Registry.offer_eq hbusy.not_ready]
    exact hstarted
  obtain ⟨w', i, j, made, hgoes, hnames⟩ :=
    delivers_of_reaches hp hlends hundestroyed hrest hnodup.of_cons
  exact ⟨w₁, w', code, p, i, j, made, hexposes, hoffer, hmoments, hgoes, hnames⟩

/--
A cycle of unknown names is resolved, whatever its length, if the first one hands out an early
reference. The early factory runs once, while the factories of all names run, each once and within
the run of the one before. All lookups of the first name give the same instance. What the factories
have made is ready in the end, and nothing else is left of the creations. In the list of names the
first one comes first, and the others follow it from the last one on.
-/
theorem cycle_resolves (w : World C) (root : Name) (ns : List Name) (factory : Program C .factory)
    (hdestroying : w.registry.cache.destroying = false) (hnodup : (root :: ns).Nodup)
    (hunknown : ∀ n ∈ root :: ns, w.registry.Unknown n) (h : factory.Exposes root ns) :
    ∃ (w' : World C) (i j : Instance) (made : List (Name × Instance)) (new : List Moment),
      (∀ ⦃r : Role⦄ (next : Except RegistryError Instance → Program C r) (s : Stack C r),
        (w.run (.getOrCreate root factory next) s).LeadsBy (Machine.Agrees root i made)
          (w'.run (next (.ok j)) s)) ∧
      w'.moments = w.moments ++ new ∧
      new.filter (·.isEarly) = (Body.early root w.tickets).moments ∧
      new.filter (!·.isEarly) = Moment.nested (root :: ns) ∧
      made.map (·.1) = (root :: ns).reverse ∧ (root, j) ∈ made ∧
      w.registry.Completes made w'.registry ∧
      (w'.registry.perform .names).answer =
        (w.registry.perform .names).answer ++ root :: ns.reverse := by
  have hroot := hunknown root List.mem_cons_self
  obtain ⟨c, r', hstart⟩ := Registry.exists_started hroot.not_ready hdestroying hroot.not_marked
  have hbusy := hroot.busy_of_started hstart
  have hname : c.name = root := by
    rw [(Registry.startCreation_eq_started hstart).2.2.1]
  -- `w₁` has the early factory of the root, and in `w₂` the root's factory gives its instance
  obtain ⟨w₁, w₂, code, p, i, j, made, hexposes, hoffer, hmoments₁, hgoes, hnames⟩ :=
    goes_of_exposes h hstart hunknown hnodup
  obtain ⟨new, hmoments₂, hearly, hother⟩ := hgoes.moments_eq
  have hgains := hgoes.gains
  rw [hoffer] at hgains hearly
  rw [Registry.owed_offer hbusy.not_ready] at hearly
  have hmarks : w₂.registry.marks = r'.marks := hgains.marks
  have hwindow : w₂.registry.cache.window = r'.cache.window := by
    rw [hgains.window, Registry.offer_eq hbusy.not_ready]
  have hmade : ∀ n ∈ made.map (·.1), n ≠ root ∧ w.registry.Unknown n := by
    intro n hn
    rw [hnames, List.mem_reverse] at hn
    refine ⟨?_, hunknown n (List.mem_cons_of_mem root hn)⟩
    rintro rfl
    exact (List.nodup_cons.mp hnodup).1 hn
  refine ⟨w₂.leave root ((w₂.registry.restore w.registry).created root (.ok j)), i, j,
    made ++ [(root, j)], .began (.factory root) :: new ++ [.ended (.factory root)], ?_, ?_, ?_, ?_,
    ?_, ?_, ?_, ?_⟩
  · intro r next s
    apply leadsBy_of_factory hstart hroot.not_marked hmarks hwindow hgoes.shows.not_ready
    · exact Machine.agrees_getOrCreate hstart root i _
    · have hruns := Machine.leadsBy_mono (hgoes.leads (.creating c next s))
        fun k hk => hk.mono (List.subset_append_left made [(root, j)])
      exact (hexposes i _ _).trans hruns
    · exact Machine.agrees_conclude (by simp [hname]) root i
  · rw [moments_leave, hmoments₂, hmoments₁]
    simp
  · simp [List.filter_append, hearly]
  · simp [List.filter_append, hother, Moment.nested]
  · simp [hnames]
  · simp
  · exact hgains.completes hstart hroot hmade j
  · rw [← hnames]
    exact hgains.listed_created hstart hroot j

def following (p : Program .plain .factory) :
    Except RegistryError Instance → Program .plain .factory
  | .ok _ => p
  | .error e => .done (.error (.registry e))

def lending : Program .plain .factory :=
  .addEarlyFactory "a" (.done ⟨0, .unit⟩)
    (.getOrCreate "b"
      (.lookup "a" true fun _ => .getOrCreate "c"
        (.lookup "a" true fun _ => .done (.ok ⟨1, .unit⟩))
        (following (.lookup "a" true fun _ => .done (.ok ⟨2, .unit⟩))))
      (following (.done (.ok ⟨3, .unit⟩))))

theorem exposes_lending : lending.Exposes "a" ["b", "c"] :=
  .expose (Program.quiet_done _) (.nest
    (.look fun _ => .nest (.last fun _ => .give _) fun _ => .look fun _ => .give _)
    fun _ => .give _)

theorem lending_resolves : ∃ (w' : World .plain) (i j : Instance) (made : List (Name × Instance)),
    ((World.fresh {} none ()).run (.getOrCreate "a" lending fun _ => .done ()) .bottom).LeadsBy
      (Machine.Agrees "a" i made) (w'.run (.done ()) .bottom) ∧
    made.map (·.1) = ["c", "b", "a"] ∧ w'.registry.Provides "a" j ∧
    (w'.registry.perform .names).answer = ["a", "c", "b"] := by
  obtain ⟨w', i, j, made, _, hleads, _, _, _, hnames, hmem, hcompletes, hlisted⟩ :=
    cycle_resolves (.fresh {} none ()) "a" ["b", "c"] lending rfl (by decide)
      (fun n _ => Registry.unknown_empty {} none n) exposes_lending
  exact ⟨w', i, j, made, hleads _ _, hnames, hcompletes.provides "a" j hmem, hlisted⟩

end World

end InstanceRegistry
