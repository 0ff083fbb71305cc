import Sisyphus.Ring.Frontier

/-!
# Execution references

A frontier holds a domain from `prepare` on, as its pending target or as the active domain, until
`abort` or `enter_kernel`.  Over all interleavings of the CPUs' calls, a domain is held by one
frontier at most, and its reference counter says whether it is.  That is why a domain that is held
cannot be revoked, and why `commit` and `enter_kernel` find it again.
-/

set_option autoImplicit false

namespace Sisyphus.Ring

open DomainRegistry Fallible Function Run Slots

/-! ## Counted references

Holders, each with one thing at most, and a counter for each thing that exists. -/

section Agree

variable {ι κ : Type} [DecidableEq ι] [DecidableEq κ]

/-- A counter is one if somebody has the thing and zero if nobody has, and nobody shares. -/
structure Agree (who : ι → Option κ) (count : κ → Option UInt32) : Prop where
  held : ∀ i h, who i = some h → count h = some 1
  free : ∀ h c, count h = some c → (∀ i, who i ≠ some h) → c = 0
  exclusive : ∀ i j h, who i = some h → who j = some h → i = j

variable {who : ι → Option κ} {count : κ → Option UInt32} {i : ι} {h : κ}

omit [DecidableEq ι] [DecidableEq κ] in
theorem Agree.nobody (ha : Agree who count) (hcount : count h ≠ some 1) : ∀ i, who i ≠ some h :=
  fun i hi => hcount (ha.held i h hi)

/-- One holder takes a thing or gives it back, and the counter follows. -/
theorem Agree.assign (ha : Agree who count) {o : Option κ} {c : UInt32}
    (hi : ∀ k, who i = some k → k = h) (hothers : ∀ j, j ≠ i → who j ≠ some h)
    (ho : ∀ k, o = some k → k = h ∧ c = 1) (hc : o ≠ some h → c = 0) :
    Agree (update who i o) (update count h (some c)) := by
  -- the others have other things than `h`, and have them as before
  have hwho : ∀ j k, update who i o j = some k →
      (j = i ∧ k = h ∧ c = 1) ∨ (j ≠ i ∧ who j = some k ∧ k ≠ h) := by
    intro j k hk
    rcases eq_or_ne j i with rfl | hj
    · rw [update_self] at hk
      exact .inl ⟨rfl, ho k hk⟩
    · rw [update_of_ne hj] at hk
      exact .inr ⟨hj, hk, fun hkh => hothers j hj (hkh ▸ hk)⟩
  refine ⟨fun j k hk => ?_, fun k x hk hnone => ?_, fun j j' k hk hk' => ?_⟩
  · rcases hwho j k hk with ⟨-, rfl, rfl⟩ | ⟨-, hold, hne⟩
    · exact update_self ..
    · rw [update_of_ne hne]
      exact ha.held j k hold
  · rcases eq_or_ne k h with rfl | hne
    · rw [update_self, Option.some.injEq] at hk
      exact hk ▸ hc (by simpa using hnone i)
    · rw [update_of_ne hne] at hk
      refine ha.free k x hk fun j hj => ?_
      rcases eq_or_ne j i with rfl | hji
      · exact hne (hi k hj)
      · exact hnone j (by rw [update_of_ne hji, hj])
  · rcases hwho j k hk, hwho j' k hk' with
      ⟨⟨rfl, rfl, -⟩ | ⟨-, hold, hne⟩, ⟨rfl, h', -⟩ | ⟨-, hold', hne'⟩⟩
    · rfl
    · exact absurd rfl hne'
    · exact absurd h' hne
    · exact ha.exclusive j j' k hold hold'

theorem Agree.take (ha : Agree who count) (hfree : who i = none) (hzero : count h = some 0) :
    Agree (update who i (some h)) (update count h (some 1)) := by
  have hnobody := ha.nobody (h := h) (by rw [hzero]; decide)
  refine ha.assign (by simp [hfree]) (fun j _ => hnobody j) ?_ (absurd rfl)
  rintro k ⟨⟩
  exact ⟨rfl, rfl⟩

theorem Agree.drop (ha : Agree who count) (hi : who i = some h) :
    Agree (update who i none) (update count h (some 0)) :=
  ha.assign (by simp [hi, eq_comm]) (fun j hj hjh => hj (ha.exclusive j i h hjh hi)) (by simp)
    fun _ => rfl

omit [DecidableEq ι] in
/-- What nobody has may come and go, with a counter of zero while it is there. -/
theorem Agree.unheld (ha : Agree who count) (hcount : count h ≠ some 1) {c : Option UInt32}
    (hc : ∀ x, c = some x → x = 0) : Agree who (update count h c) := by
  have hnobody := ha.nobody hcount
  refine ⟨fun j k hk => ?_, fun k x hk hnone => ?_, ha.exclusive⟩
  · rw [update_of_ne (by rintro rfl; exact hnobody j hk)]
    exact ha.held j k hk
  · rcases eq_or_ne k h with rfl | hne
    · rw [update_self] at hk
      exact hc x hk
    · rw [update_of_ne hne] at hk
      exact ha.free k x hk hnone

end Agree

/-- The counters of the domains that are live. -/
def DomainRegistry.references (registry : DomainRegistry) (h : Handle) : Option UInt32 :=
  (lookup registry.slots h).map DomainEntry.executionReferences

namespace DomainRegistry

variable {registry : DomainRegistry} {h : Handle}

variable {entry : DomainEntry}

theorem references_of_lookup (hl : lookup registry.slots h = some entry) :
    registry.references h = some entry.executionReferences := by
  rw [references, hl, Option.map_some]

theorem references_fill {live : Nat} (hf : Fillable registry.slots h) :
    ({ registry with slots := fill registry.slots h entry, live } : DomainRegistry).references =
      update registry.references h (some entry.executionReferences) := by
  funext k
  rw [references, lookup_fill hf]
  rcases eq_or_ne k h with rfl | hk
  · rw [if_pos rfl, update_self, Option.map_some]
  · rw [if_neg hk, update_of_ne hk, references]

theorem references_vacate {live : Nat} (hl : lookup registry.slots h = some entry) :
    ({ registry with slots := vacate registry.slots h, live } : DomainRegistry).references =
      update registry.references h none := by
  funext k
  rw [references, lookup_vacate hl]
  rcases eq_or_ne k h with rfl | hk
  · rw [if_pos rfl, update_self, Option.map_none]
  · rw [if_neg hk, update_of_ne hk, references]

end DomainRegistry

variable {E : AuthorityError → TransitionFrontier × DomainRegistry → Prop}

namespace TransitionFrontier

/-- The domain that a frontier has a reference on. -/
def holder (frontier : TransitionFrontier) : Option Handle :=
  match frontier.pending, frontier.active with
  | some pending, _ => some pending.target
  | none, .domain handle => some handle
  | none, .kernel => none

/-- A domain is pending or active on a frontier. -/
def Holds (frontier : TransitionFrontier) (h : Handle) : Prop :=
  (∃ pending, frontier.pending = some pending ∧ pending.target = h) ∨ frontier.active = .domain h

/-- What holds of a frontier by itself, and of its pending transition in the registry. -/
structure Sound (frontier : TransitionFrontier) (registry : DomainRegistry) : Prop where
  idle : ∀ pending, frontier.pending = some pending → frontier.active = .kernel
  target : ∀ pending, frontier.pending = some pending → ∃ d,
    registry.descriptor pending.target = .ok d ∧ d.addressSpaceRoot = pending.addressSpaceRoot ∧
      d.role.ring = pending.targetRing

/-! ## Methods -/

section Methods

variable {frontier : TransitionFrontier} {registry : DomainRegistry} {h : Handle}

theorem Sound.holds_iff (hsound : frontier.Sound registry) :
    frontier.Holds h ↔ frontier.holder = some h := by
  cases hp : frontier.pending with
  | some pending =>
    rw [Holds, holder, hp, hsound.idle pending hp]
    simp
  | none =>
    rw [Holds, holder, hp]
    cases frontier.active <;> simp

variable {next : DomainRegistry}

/-- A transition stays sound when its target keeps its descriptor. -/
theorem Sound.of_descriptor (hsound : frontier.Sound registry)
    (hkeep : ∀ h d, frontier.holder = some h → registry.descriptor h = .ok d →
      next.descriptor h = .ok d) : frontier.Sound next := by
  refine ⟨hsound.idle, fun pending hp => ?_⟩
  obtain ⟨d, hd, hrest⟩ := hsound.target pending hp
  exact ⟨d, hkeep _ d (by rw [holder, hp]) hd, hrest⟩

theorem ensures_onRegistry {α : Type} {x : EStateM AuthorityError DomainRegistry α}
    {s : TransitionFrontier × DomainRegistry} {Q : α → TransitionFrontier × DomainRegistry → Prop} :
    Ensures (onRegistry x) s Q E ↔
      Ensures x s.2 (fun a r => Q a (s.1, r)) (fun e r => E e (s.1, r)) := by
  simp [onRegistry]

/-- What happens to the registry when a reference is taken. -/
def Retained (registry : DomainRegistry) (h : Handle) (next : DomainRegistry) : Prop :=
  ∃ entry, lookup registry.slots h = some entry ∧ entry.executionReferences = 0 ∧
    next = { registry with slots := fill registry.slots h { entry with executionReferences := 1 } }

/-- What happens to it when a reference is given back. -/
def Released (registry : DomainRegistry) (h : Handle) (next : DomainRegistry) : Prop :=
  ∃ entry, lookup registry.slots h = some entry ∧ entry.executionReferences ≠ 0 ∧
    next = { registry with
      slots := fill registry.slots h
        { entry with executionReferences := entry.executionReferences - 1 } }

theorem Retained.descriptor (hr : Retained registry h next) (k : Handle) :
    next.descriptor k = registry.descriptor k := by
  obtain ⟨entry, hl, -, rfl⟩ := hr
  exact descriptor_recount hl 1 k

theorem Released.descriptor (hr : Released registry h next) (k : Handle) :
    next.descriptor k = registry.descriptor k := by
  obtain ⟨entry, hl, -, rfl⟩ := hr
  exact descriptor_recount hl _ k

theorem Retained.references (hr : Retained registry h next) : registry.references h = some 0 ∧
      next.references = update registry.references h (some 1) := by
  obtain ⟨entry, hl, hzero, rfl⟩ := hr
  exact ⟨by rw [references_of_lookup hl, hzero], references_fill (.inr ⟨entry, hl⟩)⟩

theorem Released.references (hr : Released registry h next)
    (hone : registry.references h = some 1) :
    next.references = update registry.references h (some 0) := by
  obtain ⟨entry, hl, -, rfl⟩ := hr
  rw [references_of_lookup hl] at hone
  rw [references_fill (.inr ⟨entry, hl⟩), Option.some.inj hone]
  rfl

theorem ensures_prepare (frontier : TransitionFrontier) (registry : DomainRegistry)
    (target : Handle) (gate : TransitionGate) :
    Ensures (prepare target gate) (frontier, registry)
      (fun _ s => frontier.holder = none ∧ Retained registry target s.2 ∧
        s.1.holder = some target ∧ s.1.Sound s.2)
      (fun _ s => s = (frontier, registry)) := by
  simp only [prepare, ensures_rules, ensures_onRegistry]
  intro _ hactive hpending d hd _ _ sequence _
  have hkernel : frontier.active = .kernel := by simpa using hactive
  have hnone : frontier.pending = none := by simpa using hpending
  refine (ensures_retainExecution registry target).mono ?_ fun _ r h => by rw [h]
  intro _ r hr
  refine ⟨by rw [holder, hnone, hkernel], hr, rfl, fun _ _ => hkernel, ?_⟩
  rintro pending ⟨⟩
  exact ⟨d, (Retained.descriptor hr target).trans hd, rfl, rfl⟩

theorem ensures_commit (hsound : frontier.Sound registry) (lease : TransitionLease)
    (observed : UInt64) :
    Ensures (commit lease observed) (frontier, registry)
      (fun _ s => s.2 = registry ∧ s.1.holder = frontier.holder ∧ s.1.Sound registry)
      (fun e s => s = (frontier, registry) ∧ e ≠ .staleDomain) := by
  simp only [commit, ensures_rules]
  refine ⟨fun _ => by decide, fun _ => ⟨fun _ => by decide, fun hpending => ?_⟩⟩
  have hpending : frontier.pending = some lease.pending := by simpa using hpending
  obtain ⟨d, hd, hroot, hring⟩ := hsound.target _ hpending
  refine ⟨fun e he => ?_, fun d' hd' => ?_⟩
  · rw [hd] at he
    cases he
  · obtain rfl : d' = d := Except.ok.inj (hd'.symm.trans hd)
    refine ⟨fun hstale => ?_, fun _ =>
      ⟨fun _ => by decide, fun _ => ⟨fun _ => by decide, fun _ => ?_⟩⟩⟩
    · simp [hroot, hring] at hstale
    · refine ⟨by rw [holder, holder, hpending], ?_, ?_⟩
      · rintro pending ⟨⟩
      · rintro pending ⟨⟩

theorem ensures_abort (frontier : TransitionFrontier) (registry : DomainRegistry)
    (lease : TransitionLease) (hsound : frontier.Sound registry) :
    Ensures (abort lease) (frontier, registry)
      (fun _ s => ∃ h, frontier.holder = some h ∧ Released registry h s.2 ∧ s.1.holder = none ∧
        s.1.Sound s.2)
      (fun _ s => s = (frontier, registry)) := by
  simp only [abort, ensures_rules, ensures_onRegistry]
  intro _ hpending
  have hpending : frontier.pending = some lease.pending := by simpa using hpending
  refine (ensures_releaseExecution registry lease.pending.target).mono ?_
    fun _ r h => by rw [h.1]
  intro _ r hr
  refine ⟨lease.pending.target, by rw [holder, hpending], hr, ?_, ?_, ?_⟩
  · rw [holder, hsound.idle _ hpending]
  · rintro pending ⟨⟩
  · rintro pending ⟨⟩

theorem ensures_enterKernel (frontier : TransitionFrontier) (registry : DomainRegistry)
    (caller : Handle) (source installed : UInt64)
    (hlive : ∀ h, frontier.holder = some h → ∃ entry, lookup registry.slots h = some entry) :
    Ensures (enterKernel caller source installed) (frontier, registry)
      (fun _ s => ∃ h, frontier.holder = some h ∧ Released registry h s.2 ∧ s.1.holder = none ∧
        s.1.Sound s.2)
      (fun e s => s = (frontier, registry) ∧ e ≠ .staleDomain) := by
  simp only [enterKernel, ensures_rules, ensures_onRegistry]
  refine ⟨fun _ => by decide, fun hpending => ⟨fun _ => by decide, fun hactive => ?_⟩⟩
  have hnone : frontier.pending = none := by simpa using hpending
  have hactive : frontier.active = .domain caller := by simpa using hactive
  have hholder : frontier.holder = some caller := by rw [holder, hnone, hactive]
  obtain ⟨entry, hl⟩ := hlive caller hholder
  refine ⟨fun e he => ?_, fun d _ => ⟨fun _ => by decide, fun _ => ⟨fun _ => by decide, fun _ =>
    ⟨fun _ => by decide, fun sequence _ => ?_⟩⟩⟩⟩
  · rw [descriptor_eq_ok.mpr ⟨entry, hl, rfl⟩] at he
    cases he
  · refine (ensures_releaseExecution registry caller).mono ?_ fun e r h => ?_
    · intro _ r hr
      refine ⟨caller, hholder, hr, ?_, fun _ _ => rfl, ?_⟩
      · rw [holder, hnone]
      · intro pending hp
        rw [hnone] at hp
        cases hp
    · refine ⟨by rw [h.1], fun he => ?_⟩
      rw [hl] at h
      cases h.2 he

end Methods

end TransitionFrontier

/-! ## All CPUs -/

namespace System

open TransitionFrontier

variable {n : Nat} {s : System n} {i : Fin n} {h : Handle} {frontier : TransitionFrontier}
  {registry : DomainRegistry}

/-- The domain that each CPU has a reference on. -/
def holders (s : System n) (i : Fin n) : Option Handle := (s.frontiers i).holder

theorem holders_update : ({ registry, frontiers := update s.frontiers i frontier } :
    System n).holders = update s.holders i frontier.holder :=
  comp_update TransitionFrontier.holder s.frontiers i frontier

/-- How the frontiers' references and the registry's counters agree. -/
structure Inv (s : System n) : Prop where
  sound : ∀ i, (s.frontiers i).Sound s.registry
  agree : Agree s.holders s.registry.references

section

variable (hinv : Inv s)
include hinv

theorem Inv.live (hi : s.holders i = some h) : ∃ entry, lookup s.registry.slots h = some entry := by
  obtain ⟨entry, hl, -⟩ := Option.map_eq_some_iff.mp (hinv.agree.held i h hi)
  exact ⟨entry, hl⟩

/-! A CPU moves, and no descriptor changes. -/

theorem Inv.cpu (hdesc : ∀ k, registry.descriptor k = s.registry.descriptor k)
    (hsound : frontier.Sound registry)
    (hagree : Agree (update s.holders i frontier.holder) registry.references) :
    Inv { registry, frontiers := update s.frontiers i frontier } := by
  refine ⟨fun j => ?_, by rw [holders_update]; exact hagree⟩
  rcases eq_or_ne j i with rfl | hj
  · simpa using hsound
  · simp only [update_of_ne hj]
    exact (hinv.sound j).of_descriptor fun k d _ hd => (hdesc k).trans hd

theorem Inv.take (hfree : (s.frontiers i).holder = none)
    (hr : Retained s.registry h registry) (hholder : frontier.holder = some h)
    (hsound : frontier.Sound registry) :
    Inv { registry, frontiers := update s.frontiers i frontier } := by
  obtain ⟨hzero, hrefs⟩ := hr.references
  refine hinv.cpu hr.descriptor hsound ?_
  rw [hholder, hrefs]
  exact hinv.agree.take hfree hzero

theorem Inv.drop (hheld : (s.frontiers i).holder = some h)
    (hr : Released s.registry h registry) (hholder : frontier.holder = none)
    (hsound : frontier.Sound registry) :
    Inv { registry, frontiers := update s.frontiers i frontier } := by
  refine hinv.cpu hr.descriptor hsound ?_
  rw [hholder, hr.references (hinv.agree.held i h hheld)]
  exact hinv.agree.drop hheld

theorem Inv.keep (hholder : frontier.holder = (s.frontiers i).holder)
    (hsound : frontier.Sound s.registry) :
    Inv { s with frontiers := update s.frontiers i frontier } := by
  refine hinv.cpu (fun _ => rfl) hsound ?_
  rw [hholder, show (s.frontiers i).holder = s.holders i from rfl, update_eq_self]
  exact hinv.agree

/-! The registry gets a domain that no CPU has heard of, or loses one that none has. -/

theorem Inv.register {d : DomainDescriptor} {live : Nat} (hv : vacancy s.registry.slots = some h) :
    Inv { s with
      registry := { s.registry with slots := fill s.registry.slots h ⟨0, d⟩, live } } := by
  have habsent : s.registry.references h = none := by
    rw [references, lookup_vacancy hv, Option.map_none]
  have hcount : s.registry.references h ≠ some 1 := by
    rw [habsent]
    decide
  refine ⟨fun i => (hinv.sound i).of_descriptor fun k x hk hx => ?_, ?_⟩
  · rw [descriptor_fill (.inl hv), if_neg, hx]
    rintro rfl
    exact hinv.agree.nobody hcount i hk
  · rw [references_fill (.inl hv)]
    exact hinv.agree.unheld hcount fun x hx => (Option.some.inj hx).symm

theorem Inv.revoke {entry : DomainEntry} {live : Nat}
    (hl : lookup s.registry.slots h = some entry) (hidle : entry.executionReferences = 0) :
    Inv { s with registry := { s.registry with slots := vacate s.registry.slots h, live } } := by
  have hcount : s.registry.references h ≠ some 1 := by
    rw [references_of_lookup hl, hidle]
    decide
  refine ⟨fun i => (hinv.sound i).of_descriptor fun k x hk hx => ?_, ?_⟩
  · obtain ⟨e, he, rfl⟩ := descriptor_eq_ok.mp hx
    refine descriptor_eq_ok.mpr ⟨e, ?_, rfl⟩
    refine (lookup_vacate_eq_some hl).mpr ⟨?_, he⟩
    rintro rfl
    exact hinv.agree.nobody hcount i hk
  · rw [references_vacate hl]
    exact hinv.agree.unheld hcount fun x hx => by cases hx

end

/-! ## Steps and runs -/

theorem onCpu_cases {α : Type} {x : Method α} {Q : α → TransitionFrontier × DomainRegistry → Prop}
    (hx : Ensures x (s.frontiers i, s.registry) Q E)
    (hE : ∀ e t, E e t → t = (s.frontiers i, s.registry)) (answer : α → Answer) :
    (∃ a f r, Q a (f, r) ∧ s.onCpu i x answer =
      (.ok (answer a), { registry := r, frontiers := update s.frontiers i f })) ∨
      ∃ e, E e (s.frontiers i, s.registry) ∧ s.onCpu i x answer = (.error e, s) := by
  rcases hx.cases with ⟨a, t, heq, hQ⟩ | ⟨e, t, heq, hfailed⟩
  · exact .inl ⟨a, t.1, t.2, hQ, by rw [onCpu, heq]⟩
  · obtain rfl := hE e t hfailed
    refine .inr ⟨e, hfailed, ?_⟩
    rw [onCpu, heq]
    simp only [update_eq_self]

section Keeps

variable {α : Type} {P : System n → Prop}

theorem onRegistry_keeps {x : EStateM AuthorityError DomainRegistry α}
    (hx : Ensures x s.registry (fun _ r => P { s with registry := r }) fun _ r => r = s.registry)
    (hs : P s) (answer : α → Answer) : P (s.onRegistry x answer).2 := by
  rcases hx.cases with ⟨a, r, heq, hr⟩ | ⟨e, r, heq, rfl⟩
  · rw [onRegistry, heq]
    exact hr
  · rw [onRegistry, heq]
    exact hs

theorem onCpu_keeps {x : Method α} (hx : Ensures x (s.frontiers i, s.registry)
      (fun _ t => P { registry := t.2, frontiers := update s.frontiers i t.1 }) E)
    (hE : ∀ e t, E e t → t = (s.frontiers i, s.registry)) (hs : P s) (answer : α → Answer) :
    P (s.onCpu i x answer).2 := by
  rcases onCpu_cases hx hE answer with ⟨a, f, r, hP, heq⟩ | ⟨e, -, heq⟩
  · rw [heq]
    exact hP
  · rw [heq]
    exact hs

theorem onCpu_not_stale {x : Method α} {answer : α → Answer}
    (hx : Ensures x (s.frontiers i, s.registry) (fun _ _ => True)
      fun e t => t = (s.frontiers i, s.registry) ∧ e ≠ .staleDomain) :
    (s.onCpu i x answer).1 ≠ .error .staleDomain := by
  rcases onCpu_cases hx (fun _ _ h => h.1) answer with ⟨a, f, r, -, heq⟩ | ⟨e, ⟨-, hne⟩, heq⟩
  · rw [heq]
    simp
  · rw [heq]
    simpa using hne

end Keeps

theorem Inv.perform (hinv : Inv s) (action : Action n) : Inv (s.perform action).2 := by
  cases action with
  | register d =>
    refine onRegistry_keeps ((ensures_register s.registry d).imp_ok ?_) hinv _
    rintro _ _ ⟨h, hv, -, -, rfl⟩
    exact hinv.register hv
  | revoke h =>
    refine onRegistry_keeps ((ensures_revoke s.registry h).imp_ok ?_) hinv _
    rintro _ _ ⟨entry, hl, hidle, rfl⟩
    exact hinv.revoke hl hidle
  | prepare i target gate =>
    refine onCpu_keeps ((ensures_prepare _ _ target gate).imp_ok ?_) (fun _ _ h => h) hinv _
    rintro _ _ ⟨hfree, hr, hholder, hsound⟩
    exact hinv.take hfree hr hholder hsound
  | commit i lease observed =>
    refine onCpu_keeps ((ensures_commit (hinv.sound i) lease observed).imp_ok ?_)
      (fun _ _ h => h.1) hinv _
    rintro _ ⟨f, r⟩ ⟨rfl, hholder, hsound⟩
    exact hinv.keep hholder hsound
  | abort i lease =>
    refine onCpu_keeps ((ensures_abort _ _ lease (hinv.sound i)).imp_ok ?_) (fun _ _ h => h) hinv _
    rintro _ _ ⟨h, hheld, hr, hholder, hsound⟩
    exact hinv.drop hheld hr hholder hsound
  | enterKernel i caller source installed =>
    refine onCpu_keeps ((ensures_enterKernel _ _ caller source installed fun _ => hinv.live).imp_ok
      ?_) (fun _ _ h => h.1) hinv _
    rintro _ _ ⟨h, hheld, hr, hholder, hsound⟩
    exact hinv.drop hheld hr hholder hsound

/-- A registry and frontiers as they are opened. -/
structure Opened (s : System n) : Prop where
  registry : ∃ capacity root, DomainRegistry.new capacity root = .ok s.registry
  frontiers : ∀ i, ∃ cpuId cpuGeneration root,
    TransitionFrontier.new cpuId cpuGeneration root = .ok (s.frontiers i)

theorem Opened.inv (hopen : Opened s) : Inv s := by
  have hidle : ∀ i, (s.frontiers i).pending = none ∧ (s.frontiers i).active = .kernel := by
    intro i
    obtain ⟨cpuId, cpuGeneration, root, hnew⟩ := hopen.frontiers i
    rw [TransitionFrontier.new] at hnew
    split at hnew
    · cases hnew
    split at hnew
    · cases hnew
    · rw [← Except.ok.inj hnew]
      exact ⟨rfl, rfl⟩
  have hnobody : ∀ i h, s.holders i ≠ some h := by
    intro i h hi
    rw [holders, holder, (hidle i).1, (hidle i).2] at hi
    cases hi
  obtain ⟨capacity, root, hnew⟩ := hopen.registry
  refine ⟨fun i => ⟨fun pending hp => (hidle i).2, fun pending hp => ?_⟩,
    fun i h hi => absurd hi (hnobody i h), fun h c hc => ?_, fun i j h hi => absurd hi
      (hnobody i h)⟩
  · rw [(hidle i).1] at hp
    cases hp
  · rw [references, new_eq_ok hnew, lookup_empty] at hc
    cases hc

theorem Inv.run (hinv : Inv s) (actions : List (Action n)) :
    Inv (final System.perform s actions) :=
  invariant_final (fun _ action hinv => hinv.perform action) hinv

/-- A domain that a frontier has a reference on is busy. -/
theorem Inv.revoke_busy (hinv : Inv s) (hi : s.holders i = some h) :
    s.perform (.revoke h) = (.error .domainBusy, s) := by
  obtain ⟨entry, hl, hone⟩ := Option.map_eq_some_iff.mp (hinv.agree.held i h hi)
  have hrun : DomainRegistry.revoke h s.registry = .error .domainBusy s.registry := by
    simp [DomainRegistry.revoke, bind_apply, orThrow, hl, refuse, hone]
  rw [System.perform, onRegistry, hrun]

/-- **Execution references are kept.**  For every interleaving of calls, on any number of CPUs: a
domain is pending or active on one frontier at most, its counter is one exactly then and zero
otherwise, such a domain is busy for `revoke`, and neither `commit` nor `enter_kernel` finds that
the domain has become stale. -/
theorem references_disciplined {start : System n} (hopen : Opened start)
    (actions : List (Action n)) (s : System n)
    (hs : s = final System.perform start actions) :
    (∀ h i j, (s.frontiers i).Holds h → (s.frontiers j).Holds h → i = j) ∧
    (∀ h entry, lookup s.registry.slots h = some entry →
      ((∃ i, (s.frontiers i).Holds h) ∧ entry.executionReferences = 1) ∨
        ((¬∃ i, (s.frontiers i).Holds h) ∧ entry.executionReferences = 0)) ∧
    (∀ h i, (s.frontiers i).Holds h → (∃ entry, lookup s.registry.slots h = some entry) ∧
        s.perform (.revoke h) = (.error .domainBusy, s)) ∧
    (∀ i lease observed, (s.perform (.commit i lease observed)).1 ≠ .error .staleDomain) ∧
    ∀ i caller source installed,
      (s.perform (.enterKernel i caller source installed)).1 ≠ .error .staleDomain := by
  have hinv : Inv s := hs ▸ hopen.inv.run actions
  have hholds : ∀ i h, (s.frontiers i).Holds h ↔ s.holders i = some h :=
    fun i h => (hinv.sound i).holds_iff
  simp only [hholds]
  refine ⟨fun h i j => hinv.agree.exclusive i j h, fun h entry hl => ?_,
    fun h i hi => ⟨hinv.live hi, hinv.revoke_busy hi⟩, fun i lease observed => ?_,
    fun i caller source installed => ?_⟩
  · have hrefs := DomainRegistry.references_of_lookup hl
    by_cases hheld : ∃ i, s.holders i = some h
    · obtain ⟨i, hi⟩ := hheld
      exact .inl ⟨⟨i, hi⟩, Option.some.inj (hrefs.symm.trans (hinv.agree.held i h hi))⟩
    · exact .inr ⟨hheld, hinv.agree.free h _ hrefs fun i hi => hheld ⟨i, hi⟩⟩
  · exact onCpu_not_stale
      ((ensures_commit (hinv.sound i) lease observed).imp_ok fun _ _ _ => trivial)
  · exact onCpu_not_stale ((ensures_enterKernel _ _ caller source installed fun _ =>
      hinv.live).imp_ok fun _ _ _ => trivial)

/-! Two CPUs, of which the first runs the serial cell. -/

def idleFrontier (cpuId : UInt32) : TransitionFrontier where
  cpuId
  cpuGeneration := 1
  kernelAddressSpaceRoot := 0x1000
  sequence := 0
  active := .kernel
  pending := none
  invocation := none

def twoCpus : System 2 where
  registry := DomainRegistry.vacantRegistry
  frontiers i := idleFrontier (UInt32.ofNat i.val)

theorem opened_twoCpus : Opened twoCpus :=
  ⟨⟨4, 0x1000, new_vacantRegistry⟩, fun i => ⟨UInt32.ofNat i.val, 1, 0x1000, rfl⟩⟩

/-- The second CPU tries the same cell, and then the first one commits. -/
def contended : List (Action 2) :=
  [.register DomainRegistry.serial, .prepare 0 ⟨0, 1⟩ .iretq, .prepare 1 ⟨0, 1⟩ .iretq,
    .commit 0 ⟨0, 1, ⟨1, ⟨0, 1⟩, .hardwareCell, 0x2000, .iretq⟩⟩ 0x1000]

theorem contended_busy : ((final System.perform twoCpus contended).frontiers 0).Holds ⟨0, 1⟩ ∧
    ((final System.perform twoCpus contended).perform (.revoke ⟨0, 1⟩)).1 =
      .error .domainBusy := by
  have hholds : ((final System.perform twoCpus contended).frontiers 0).Holds ⟨0, 1⟩ :=
    .inr (by decide +kernel)
  have hall := references_disciplined opened_twoCpus contended _ rfl
  exact ⟨hholds, congrArg Prod.fst (hall.2.2.1 ⟨0, 1⟩ 0 hholds).2⟩

end System

end Sisyphus.Ring
