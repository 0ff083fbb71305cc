import Sisyphus.HermesGsp.Transport
import Sisyphus.Foundation.Tickets
import Sisyphus.Slope.Honesty

/-!
# Requests are settled once

Every request of a Hermes transport has an identity that no other request has, is in the pending
table from its submission until it is settled, and is never put there again.  That is an instance of
`Sisyphus.Foundation.Tickets`: a submission issues a new identity (`ensures_allocateCorrelation`),
and everything else only takes entries out of the table (`Shrinks`).

The wire is the other half.  Sending a command and reading an event leave the books alone (`Kept`),
and a command that is not sent is either unknown to the device (`Unseen`) or the transport is
poisoned, which nothing undoes.
-/

set_option autoImplicit false

namespace Sisyphus.HermesGsp

open Fallible Finset Function List Option Slope Words

/-! ## The table -/

namespace PendingTable

variable {n : Nat} {table : PendingTable n} {request : PendingRequest}

/-- No two entries have the same identity. -/
def Keyed (table : PendingTable n) : Prop :=
  ∀ i j r q, table i = some r → table j = some q → r.identity = q.identity → i = j

/-- The identities of the live requests. -/
def identities (table : PendingTable n) : List Identity :=
  (List.finRange n).filterMap fun i => (table i).map PendingRequest.identity

/-- Entries are only taken out. -/
def Shrinks (table table' : PendingTable n) : Prop := ∀ i, table' i = table i ∨ table' i = none

theorem Shrinks.refl (table : PendingTable n) : Shrinks table table := fun _ => .inl rfl

theorem shrinks_update (table : PendingTable n) (slot : Fin n) :
    Shrinks table (update table slot none) := by
  intro i
  by_cases hi : i = slot
  · exact .inr (by rw [hi, update_self])
  · exact .inl (update_of_ne hi _ _)

variable {table' : PendingTable n}

theorem Shrinks.eq_some (h : Shrinks table table') {i : Fin n} (hi : table' i = some request) :
    table i = some request := by
  rcases h i with hsame | hnone
  · rw [← hsame, hi]
  · rw [hnone] at hi
    cases hi

theorem Shrinks.keyed (h : Shrinks table table') (hkeyed : table.Keyed) :
    table'.Keyed :=
  fun i j r q hr hq => hkeyed i j r q (h.eq_some hr) (h.eq_some hq)

theorem mem_identities {identity : Identity} :
    identity ∈ table.identities ↔ ∃ i r, table i = some r ∧ r.identity = identity := by
  simp [identities]

theorem Keyed.nodup (h : table.Keyed) : table.identities.Nodup := by
  refine (nodup_finRange n).filterMap fun i j identity hi hj => ?_
  obtain ⟨r, hr, hri⟩ := map_eq_some_iff.mp hi
  obtain ⟨q, hq, hqi⟩ := map_eq_some_iff.mp hj
  exact h i j r q hr hq (hri.trans hqi.symm)

theorem length_identities (table : PendingTable n) : table.identities.length = table.liveCount := by
  rw [identities, liveCount]
  induction finRange n with
  | nil => rfl
  | cons i rest ih =>
    cases hi : table i with
    | none | some r => simpa [hi] using ih

theorem Shrinks.liveCount_le (h : Shrinks table table') : table'.liveCount ≤ table.liveCount := by
  refine (monotone_filter_right _ fun i hi => ?_).length_le
  obtain ⟨r, hr⟩ := isSome_iff_exists.mp hi
  rw [h.eq_some hr]
  rfl

variable {slot : Fin n} {test : Option PendingRequest → Bool}

theorem find_eq_some (h : table.find test = some slot) : test (table slot) = true := by
  have hfound := find?_some h
  exact hfound

theorem find_eq_none (h : table.find test = none) (i : Fin n) : test (table i) = false := by
  simpa using find?_eq_none.mp h i (mem_finRange i)

theorem liveCount_eq_card (table : PendingTable n) :
    table.liveCount = (univ.filter fun i => (table i).isSome).card := by
  rw [liveCount, ← toFinset_card_of_nodup ((nodup_finRange n).filter _)]
  congr 1
  simp

/-- A request in a free entry. -/
theorem liveCount_update (hfree : table slot = none) :
    liveCount (update table slot (some request)) = table.liveCount + 1 := by
  have hset : (univ.filter fun i => (update table slot (some request) i).isSome) =
      Insert.insert slot (univ.filter fun i => (table i).isSome) := by
    ext i
    by_cases hi : i = slot
    · simp [hi]
    · simp [hi]
  rw [liveCount_eq_card, liveCount_eq_card, hset, card_insert_of_notMem]
  simp [hfree]

theorem insert_eq_ok (h : table.insert request = .ok table') :
    (∀ i r, table i = some r → r.identity ≠ request.identity) ∧
      ∃ slot, table slot = none ∧ table' = update table slot (some request) := by
  obtain ⟨_, hfresh, h⟩ := except_bind_eq_ok.mp h
  obtain ⟨slot, hslot, h⟩ := except_bind_eq_ok.mp h
  refine ⟨fun i r hi heq => ?_, slot, ?_, (Except.ok.inj h).symm⟩
  · have hnone := isSome_eq_false_iff.mp (reject_eq_ok.mp hfresh)
    have hfalse := find_eq_none (isNone_iff_eq_none.mp hnone) i
    simp [hi, heq] at hfalse
  · exact isNone_iff_eq_none.mp (find_eq_some (okOr_eq_ok.mp hslot))

/-- A table with a free entry takes a request. -/
theorem insert_ne_capacity (h : table.liveCount < n) :
    table.insert request ≠ .error .pendingCapacity := by
  have hfree : ∃ slot, table.find (fun entry => entry.isNone) = some slot := by
    rw [← isSome_iff_exists, isSome_iff_ne_none]
    intro hnone
    have hall : (univ.filter fun i => (table i).isSome) = univ := by
      ext i
      simpa using find_eq_none hnone i
    rw [liveCount_eq_card, hall, card_univ, Fintype.card_fin] at h
    exact Nat.lt_irrefl n h
  obtain ⟨slot, hslot⟩ := hfree
  rw [insert, hslot, reject]
  split
  · exact fun h => by cases h
  · exact fun h => by cases h

/-- What was put in can be taken out again. -/
theorem cancel_update (hfree : table slot = none)
    (hfresh : ∀ i r, table i = some r → r.identity ≠ request.identity) :
    cancel (update table slot (some request)) request.identity = table := by
  have hone : ∀ i, ((update table slot (some request) i).any fun live =>
      live.identity == request.identity) = true ↔ i = slot := by
    intro i
    by_cases hi : i = slot
    · simp [hi]
    · cases hentry : table i with
      | none => simp [hi, hentry]
      | some r => simp [hi, hentry, hfresh i r hentry]
  rw [cancel]
  split
  · next found hfound =>
    rw [(hone found).mp (find_eq_some hfound), update_idem, ← hfree, update_eq_self]
  · next hnone =>
    have hfalse := find_eq_none hnone slot
    rw [(hone slot).mpr rfl] at hfalse
    cases hfalse

theorem takeFirst_eq_some {test : PendingRequest → Bool}
    (h : table.takeFirst test = some (request, table')) :
    ∃ slot, table slot = some request ∧ test request = true ∧ table' = update table slot none := by
  obtain ⟨slot, hslot, h⟩ := bind_eq_some_iff.mp h
  obtain ⟨found, hfound, h⟩ := bind_eq_some_iff.mp h
  cases h
  refine ⟨slot, hfound, ?_, rfl⟩
  have htest := find_eq_some hslot
  rwa [hfound] at htest

end PendingTable

/-! ## The wire -/

/-- The device gets to see something: a register is written, memory is published, or bytes have been
put where it can read them. -/
def visible : Access × Bool → Bool
  | (.write32 .., _) => true
  | (.ioFence, _) => true
  | (.dmaPublish .., _) => true
  | (.dmaWrite .., succeeded) => succeeded
  | _ => false

namespace Hermes

variable {n : Nat} {t t' u : Hermes n}

/-- The books are as they were. -/
structure Kept (t t' : Hermes n) : Prop where
  pending : t'.runtime.pending = t.runtime.pending
  service : t'.runtime.service = t.runtime.service
  epoch : t'.runtime.epoch = t.runtime.epoch
  sequence : t'.runtime.nextSequence = t.runtime.nextSequence

theorem Kept.refl (t : Hermes n) : Kept t t := ⟨rfl, rfl, rfl, rfl⟩

theorem Kept.trans (h : Kept t t') (h' : Kept t' u) : Kept t u :=
  ⟨h'.pending.trans h.pending, h'.service.trans h.service, h'.epoch.trans h.epoch,
    h'.sequence.trans h.sequence⟩

/-- The device has seen nothing. -/
def Unseen (t t' : Hermes n) : Prop :=
  ∃ calls, t'.platform.log = calls ++ t.platform.log ∧ ∀ call ∈ calls, visible call = false

theorem Unseen.refl (t : Hermes n) : Unseen t t := ⟨[], rfl, by simp⟩

theorem Unseen.trans (h : Unseen t t') (h' : Unseen t' u) : Unseen t u := by
  obtain ⟨calls, hlog, hcalls⟩ := h
  obtain ⟨more, hlog', hmore⟩ := h'
  refine ⟨more ++ calls, by rw [hlog', hlog, append_assoc], fun call hcall => ?_⟩
  exact (mem_append.mp hcall).elim (hmore call) (hcalls call)

/-- Nothing has happened but calls of the platform. -/
structure Calls (t t' : Hermes n) : Prop where
  kept : Kept t t'
  poisoned : t'.runtime.poisoned = t.runtime.poisoned

theorem Calls.refl (t : Hermes n) : Calls t t := ⟨.refl t, rfl⟩

theorem Calls.trans (h : Calls t t') (h' : Calls t' u) : Calls t u :=
  ⟨h.kept.trans h'.kept, h'.poisoned.trans h.poisoned⟩

variable {α : Type} {E : HermesFault → Hermes n → Prop} {Q : α → Hermes n → Prop}

@[simp] theorem ensures_onPlatform {x : EStateM HermesFault Platform α} :
    Ensures (onPlatform x) t Q E ↔ Ensures x t.platform (fun a p => Q a { t with platform := p })
      fun e p => E e { t with platform := p } := by
  rw [onPlatform, ensures_bind, ensures_within]
  rfl

theorem ensures_ask {access : Access} {value : Answer → α} {p : Platform} {Q : α → Platform → Prop}
    {E : HermesFault → Platform → Prop} (hQ : ∀ a q, q.log = (access, true) :: p.log → Q a q)
    (hE : ∀ e q, q.log = (access, false) :: p.log → E e q) :
    Ensures (Platform.ask access value) p Q E := by
  rw [Ensures, Platform.ask]
  cases hfault : (p.answers 0).fault with
  | none => exact hQ _ _ rfl
  | some e => exact hE _ _ rfl

/-- A call of the platform. -/
theorem ensures_access (access : Access) (value : Answer → α) (t : Hermes n) :
    Ensures (onPlatform (Platform.ask access value)) t
      (fun _ t' => Calls t t' ∧ t'.platform.log = (access, true) :: t.platform.log)
      fun _ t' => Calls t t' ∧ t'.platform.log = (access, false) :: t.platform.log := by
  rw [ensures_onPlatform]
  exact ensures_ask (fun _ _ h => ⟨⟨⟨rfl, rfl, rfl, rfl⟩, rfl⟩, h⟩)
    fun _ _ h => ⟨⟨⟨rfl, rfl, rfl, rfl⟩, rfl⟩, h⟩

theorem ensures_read32 (bar : UInt8) (offset : UInt32) (t : Hermes n) :
    Ensures (read32 bar offset) t (fun _ t' => Calls t t' ∧ Unseen t t')
      fun _ t' => Calls t t' ∧ Unseen t t' := by
  simp only [read32, ensures_rules, Calls.refl, Unseen.refl]
  intro window _ address _
  exact (ensures_access _ _ t).mono (fun _ t' h => ⟨h.1, [_], h.2, by simp [visible]⟩)
    fun _ t' h => ⟨h.1, [_], h.2, by simp [visible]⟩

theorem ensures_write32 (bar : UInt8) (offset value : UInt32) (t : Hermes n) :
    Ensures (write32 bar offset value) t (fun _ t' => Calls t t') fun _ t' => Calls t t' := by
  simp only [write32, ensures_rules, Calls.refl]
  intro window _ address _
  exact (ensures_access _ _ t).mono (fun _ t' h => h.1) fun _ t' h => h.1

/-- Poisoned, with the books as they were. -/
structure Poisons (t t' : Hermes n) : Prop where
  kept : Kept t t'
  poisoned : t'.runtime.poisoned = true

@[simp] theorem ensures_poison {error : HermesFault} :
    Ensures (poison error) t Q E ↔
      E error { t with runtime := { t.runtime with poisoned := true } } := Iff.rfl

theorem Kept.poisons (h : Kept t t') :
    Poisons t { t' with runtime := { t'.runtime with poisoned := true } } :=
  ⟨⟨h.pending, h.service, h.epoch, h.sequence⟩, rfl⟩

/-- A step of which a failure is fatal. -/
theorem ensures_orPoison_step {x : Act n α}
    (hx : Ensures x u (fun _ t' => Calls u t') fun _ t' => Calls u t') (hu : Calls t u)
    (hE : ∀ e t', Poisons t t' → E e t') (hQ : ∀ a t', Calls t t' → Q a t') :
    Ensures (orPoison x) u Q E := by
  rw [orPoison, ensures_bind, ensures_attempt]
  exact hx.mono (fun a t' h => hQ a t' (hu.trans h))
    fun e _ h => hE e _ (hu.kept.trans h.kept).poisons

theorem ensures_call (access : Access) (value : Answer → α) (t : Hermes n) :
    Ensures (onPlatform (Platform.ask access value)) t (fun _ t' => Calls t t')
      fun _ t' => Calls t t' :=
  (ensures_access access value t).mono (fun _ _ h => h.1) fun _ _ h => h.1

/-- **Sending a command.**  When it fails, the device has seen nothing or the transport is
poisoned. -/
theorem ensures_sendWire (command : HermesNormalizedCommand) (t : Hermes n) :
    Ensures (sendWire command) t (fun _ t' => Calls t t')
      fun _ t' => Poisons t t' ∨ Calls t t' ∧ Unseen t t' := by
  simp only [sendWire, ensures_rules]
  refine (ensures_read32 _ _ t).mono (fun consumer t₁ h₁ => ?_) fun _ t' h => .inr h
  split
  · exact .inl h₁.1.kept.poisons
  · simp only [ensures_rules, h₁, or_true]
    intro _ encoding _ _ ring _ offset _
    -- the last step that can fail without consequences
    refine (ensures_access _ _ t₁).mono (fun _ t₂ h₂ => ?_) fun _ t₂ h₂ =>
      .inr ⟨h₁.1.trans h₂.1, h₁.2.trans ⟨[_], h₂.2, by simp [visible]⟩⟩
    refine ensures_orPoison_step (ensures_call _ _ t₂) (h₁.1.trans h₂.1) (fun _ _ => .inl)
      fun _ t₃ h₃ => ?_
    refine ensures_orPoison_step (ensures_call _ _ t₃) h₃ (fun _ _ => .inl) fun _ t₄ h₄ => ?_
    refine ensures_orPoison_step (ensures_write32 _ _ _ t₄) h₄ (fun _ _ => .inl) fun _ t₅ h₅ => ?_
    refine ensures_orPoison_step (ensures_write32 _ _ _ t₅) h₅ (fun _ _ => .inl) fun _ t₆ h₆ => ?_
    refine ensures_orPoison_step (ensures_call _ _ t₆) h₆ (fun _ _ => .inl) fun _ t₇ h₇ => ?_
    exact ⟨⟨h₇.kept.pending, h₇.kept.service, h₇.kept.epoch, h₇.kept.sequence⟩, h₇.poisoned⟩

/-- **Reading an event.** -/
theorem ensures_readWireEvent (t : Hermes n) :
    Ensures readWireEvent t (fun _ t' => Calls t t') fun _ t' => Poisons t t' ∨ Calls t t' := by
  simp only [readWireEvent, ensures_rules]
  refine (ensures_read32 _ _ t).mono (fun producer t₁ h₁ => ?_) fun _ t' h => .inr h.1
  split
  · exact .inl h₁.1.kept.poisons
  · split
    · exact h₁.1
    · simp only [ensures_rules, h₁.1, or_true]
      intro offset _ ring _
      refine (ensures_call _ _ t₁).mono (fun _ t₂ h₂ => ?_) fun _ t₂ h₂ => .inr (h₁.1.trans h₂)
      refine (ensures_call _ _ t₂).mono (fun wire t₃ h₃ => ?_) fun _ t₃ h₃ =>
        .inr ((h₁.1.trans h₂).trans h₃)
      have hkept := (h₁.1.trans h₂).trans h₃
      refine ensures_orPoison_step
        (ensures_propagate.mpr ⟨fun _ _ => .refl t₃, fun _ _ => .refl t₃⟩) hkept
        (fun _ _ => .inl) fun event t₄ h₄ => ?_
      split
      · exact .inl h₄.kept.poisons
      · simp only [ensures_rules]
        refine ensures_orPoison_step (ensures_write32 _ _ _ t₄) h₄ (fun _ _ => .inl)
          fun _ t₅ h₅ => ?_
        refine ensures_orPoison_step (ensures_write32 _ _ _ t₅) h₅ (fun _ _ => .inl)
          fun _ t₆ h₆ => ?_
        refine ensures_orPoison_step (ensures_call _ _ t₆) h₆ (fun _ _ => .inl) fun _ t₇ h₇ => ?_
        exact ⟨⟨h₇.kept.pending, h₇.kept.service, h₇.kept.epoch, h₇.kept.sequence⟩, h₇.poisoned⟩

/-! ## The calls -/

@[simp] theorem ensures_onService {translate : AdmissionFault → HermesFault}
    {x : EStateM AdmissionFault (ServiceController 32) α} :
    Ensures (onService translate x) t Q E ↔ Ensures x t.runtime.service
      (fun a service => Q a { t with runtime := { t.runtime with service } })
      fun fault service =>
        E (translate fault) { t with runtime := { t.runtime with service } } := by
  rw [onService, ensures_bind, ensures_within]
  rfl

/-- The place of an identity in the order in which they are handed out. -/
def rank (identity : Identity) : Nat := identity.1.toNat * 2 ^ 32 + identity.2.toNat

/-- The identity that is next. -/
def next (t : Hermes n) : Identity := (t.runtime.epoch, t.runtime.nextSequence)

/-- The counters have gone on after an identity, or there is none left. -/
def Beyond (identity : Identity) (t : Hermes n) : Prop :=
  t.next.2 = 0 ∨ rank identity < rank t.next

/-- **A new identity.**  It is the next one, and the counters go on. -/
theorem ensures_allocateCorrelation (t : Hermes n) : Ensures allocateCorrelation t
      (fun identity t' => identity = t.next ∧ t.next.2 ≠ 0 ∧ Beyond identity t' ∧
        ∃ epoch nextSequence, t' = { t with runtime := { t.runtime with epoch, nextSequence } })
      fun _ t' => t' = t := by
  simp only [allocateCorrelation, ensures_rules, Bool.or_eq_true, Bool.or_eq_false_iff, beq_iff_eq,
    beq_eq_false_iff_ne]
  rintro ⟨-, hsequence⟩
  have hlt := t.runtime.epoch.toNat_lt
  have hlt' := t.runtime.nextSequence.toNat_lt
  split
  · next hlast =>
    split
    · exact ⟨rfl, hsequence, .inl rfl, _, _, rfl⟩
    · next hepoch =>
      refine ⟨rfl, hsequence, .inr ?_, _, _, rfl⟩
      have hne : t.runtime.epoch.toNat ≠ 2 ^ 32 - 1 := fun h => hepoch (UInt32.toNat_inj.mp h)
      have hsucc : (t.runtime.epoch + 1).toNat = t.runtime.epoch.toNat + 1 := by
        exact Nat.mod_eq_of_lt (by simp; omega)
      simp only [rank, next, hsucc, UInt32.toNat_one]
      omega
  · next hmore =>
    refine ⟨rfl, hsequence, .inr ?_, _, _, rfl⟩
    have hne : t.runtime.nextSequence.toNat ≠ 2 ^ 32 - 1 :=
      fun h => hmore (UInt32.toNat_inj.mp h)
    have hsucc : (t.runtime.nextSequence + 1).toNat = t.runtime.nextSequence.toNat + 1 := by
      exact Nat.mod_eq_of_lt (by simp; omega)
    simp only [rank, next, hsucc]
    omega

/-- What an unsuccessful submission leaves. -/
structure Refused (t t' : Hermes n) : Prop where
  pending : t'.runtime.pending = t.runtime.pending
  curve : t'.runtime.service.curve = t.runtime.service.curve
  next : t'.next = t.next ∨ t.next.2 ≠ 0 ∧ Beyond t.next t'
  seen : t'.runtime.poisoned = true ∨
    t'.runtime.poisoned = t.runtime.poisoned ∧ Unseen t t'

/-- What a successful submission leaves. -/
structure Submitted (s : Submission) (t : Hermes n) (identity : Identity) (t' : Hermes n) : Prop
    where
  healthy : t.runtime.poisoned = false
  stays : t'.runtime.poisoned = false
  curve : t'.runtime.service.curve = t.runtime.service.curve
  room : (UInt64.ofNat t.runtime.pending.liveCount).toNat <
    t.runtime.service.curve.maximumBacklog.toNat
  next : identity = t.next ∧ t.next.2 ≠ 0 ∧ Beyond identity t'
  entry : ∃ slot admission, t.runtime.pending slot = none ∧
    t'.runtime.pending = update t.runtime.pending slot
      (some ⟨identity.1, identity.2, s.opcode, s.deadlineTick, admission⟩)

theorem ensures_rollBack {admission : AdmissionCertificate} {error : HermesFault}
    (hE : ∀ e service, service.curve = u.runtime.service.curve →
      E e { u with runtime := { u.runtime with service } }) :
    Ensures (rollBack admission error) u Q E := by
  rw [rollBack, ensures_bind, ensures_onService]
  exact (ServiceController.ensures_rollback_curve admission).mono (fun _ service h => hE _ service
    h) fun _ service h => hE _ service h

@[simp] theorem ensures_nowTick {p : Platform} {Q : UInt64 → Platform → Prop}
    {E : HermesFault → Platform → Prop} :
    Ensures Platform.nowTick p Q E ↔ Q (p.answers 0).tick
      { p with answers := fun k => p.answers (k + 1), clock := (p.answers 0).tick } := Iff.rfl

@[simp] theorem ensures_setPending {pending : PendingTable n} {Q : Unit → Hermes n → Prop} :
    Ensures (setPending pending) t Q E ↔
      Q () { t with runtime := { t.runtime with pending } } := Iff.rfl

theorem Kept.beyond (h : Kept t t') {identity : Identity} (hbeyond : Beyond identity t) :
    Beyond identity t' := by
  rw [Beyond, next] at hbeyond ⊢
  rwa [h.epoch, h.sequence]

/-- **Submitting.** -/
theorem ensures_submit (s : Submission) (t : Hermes n) :
    Ensures (submit s) t (fun identity t' => Submitted s t identity t')
      fun _ t' => Refused t t' := by
  have hsame : Refused t t := ⟨rfl, rfl, .inl rfl, .inr ⟨rfl, .refl t⟩⟩
  simp only [submit, ensures_rules, ensures_onPlatform, ensures_nowTick, ensures_onService,
    ensures_attempt, hsame]
  refine fun hhealthy _ => ⟨fun _ => ⟨rfl, rfl, .inl rfl, .inr ⟨rfl, .refl t⟩⟩, fun _ => ?_⟩
  refine (ServiceController.ensures_admitRequest_curve _ _ _).mono (fun admission service hadmit =>
    ?_) fun _ service hcurve => ⟨rfl, hcurve, .inl rfl, .inr ⟨rfl, .refl t⟩⟩
  obtain ⟨hcurve, hroom⟩ := hadmit
  refine (ensures_allocateCorrelation _).mono (fun identity t₁ h₁ => ?_) fun error t₁ h₁ => ?_
  · obtain ⟨hidentity, hleft, hbeyond, epoch, nextSequence, rfl⟩ := h₁
    split
    · refine ensures_rollBack fun _ service' hservice => ?_
      exact ⟨rfl, hservice.trans hcurve, .inr ⟨hleft, hidentity ▸ hbeyond⟩, .inr ⟨rfl, .refl t⟩⟩
    · next table htable =>
      obtain ⟨hfresh, slot, hfree, rfl⟩ := PendingTable.insert_eq_ok htable
      simp only [ensures_rules, ensures_setPending, ensures_attempt]
      refine (ensures_sendWire _ _).mono (fun _ t₂ h₂ => ?_) fun error t₂ h₂ => ?_
      · refine ⟨hhealthy, h₂.poisoned.trans hhealthy, ?_, hroom, ⟨hidentity, hleft, ?_⟩, slot,
          admission, hfree, h₂.kept.pending⟩
        · exact (congrArg _ h₂.kept.service).trans hcurve
        · exact h₂.kept.beyond hbeyond
      · have hkept : Kept _ t₂ := h₂.elim Poisons.kept fun h => h.1.kept
        refine ensures_rollBack fun _ service' hservice => ⟨?_, ?_, .inr ⟨hleft, ?_⟩, ?_⟩
        · change PendingTable.cancel t₂.runtime.pending identity = t.runtime.pending
          rw [hkept.pending]
          exact PendingTable.cancel_update hfree hfresh
        · exact hservice.trans ((congrArg _ hkept.service).trans hcurve)
        · exact hidentity ▸ hkept.beyond hbeyond
        · rcases h₂ with hpoisons | ⟨hcalls, hunseen⟩
          · exact .inl hpoisons.poisoned
          · exact .inr ⟨hcalls.poisoned, hunseen⟩
  · subst h₁
    refine ensures_rollBack fun _ service' hservice => ?_
    exact ⟨rfl, hservice.trans hcurve, .inl rfl, .inr ⟨rfl, .refl t⟩⟩

/-- What reading and expiring leave. -/
structure Settles (t t' : Hermes n) : Prop where
  pending : t'.runtime.pending = t.runtime.pending ∨
    ∃ slot, t'.runtime.pending = update t.runtime.pending slot none
  curve : t'.runtime.service.curve = t.runtime.service.curve
  next : t'.next = t.next
  healthy : t.runtime.poisoned = true → t' = t

/-- A request is taken out of its entry. -/
structure Takes (t t' : Hermes n) (request : PendingRequest) : Prop where
  settles : Settles t t'
  entry : ∃ slot, t.runtime.pending slot = some request ∧
    t'.runtime.pending = update t.runtime.pending slot none

/-- Nothing is settled as long as the books are kept. -/
theorem Kept.settles (h : Kept t t') (hhealthy : t.runtime.poisoned = false) : Settles t t' where
  pending := .inl h.pending
  curve := congrArg _ h.service
  next := Prod.ext h.epoch h.sequence
  healthy hyes := absurd (hhealthy.symm.trans hyes) Bool.false_ne_true

/-- A request that was found in the table, from the books as they were. -/
theorem Kept.takes (h : Kept t u) (hhealthy : t.runtime.poisoned = false)
    {request : PendingRequest} {slot : Fin n} (hentry : u.runtime.pending slot = some request)
    (hpending : t'.runtime.pending = update u.runtime.pending slot none)
    (hcurve : t'.runtime.service.curve = u.runtime.service.curve) (hnext : t'.next = u.next) :
    Takes t t' request := by
  rw [h.pending] at hentry hpending
  refine ⟨⟨.inr ⟨slot, hpending⟩, hcurve.trans (congrArg _ h.service), ?_, fun hyes => ?_⟩, slot,
    hentry, hpending⟩
  · exact hnext.trans (Prod.ext h.epoch h.sequence)
  · exact absurd (hhealthy.symm.trans hyes) Bool.false_ne_true

/-- A look at the clock. -/
theorem ensures_clock (t : Hermes n) : Ensures (onPlatform Platform.nowTick) t
      (fun nowTick t' => Calls t t' ∧ t'.platform.clock = nowTick) fun _ _ => False := by
  exact ⟨⟨⟨rfl, rfl, rfl, rfl⟩, rfl⟩, rfl⟩

/-- **Polling.** -/
theorem ensures_pollEvent (t : Hermes n) : Ensures pollEvent t
      (fun received t' => Settles t t' ∧ t.runtime.poisoned = false ∧ t'.runtime.poisoned = false ∧
        ∀ event epoch sequence, received = some ⟨event, .reply epoch sequence⟩ →
          ∃ request, Takes t t' request ∧ request.identity = (epoch, sequence) ∧
            request.opcode = event.opcode ∧
            tickReached t'.platform.clock request.deadlineTick = false)
      fun _ t' => Settles t t' := by
  have hsame : Settles t t := ⟨.inl rfl, rfl, rfl, fun _ => rfl⟩
  simp only [pollEvent, ensures_rules, hsame]
  intro hhealthy
  refine (ensures_readWireEvent t).mono (fun read t₁ h₁ => ?_) fun _ t₁ h₁ =>
    (h₁.elim Poisons.kept Calls.kept).settles hhealthy
  have hstill := h₁.poisoned.trans hhealthy
  cases read with
  | none => exact ⟨h₁.kept.settles hhealthy, hhealthy, hstill, fun _ _ _ h => by cases h⟩
  | some event =>
    simp only [ensures_rules]
    refine (ensures_clock t₁).mono (fun nowTick t₂ h₂ => ?_) fun _ _ h => absurd h not_false
    obtain ⟨hcalls, hclock⟩ := h₂
    have hkept := h₁.kept.trans hcalls.kept
    have hstill := hcalls.poisoned.trans hstill
    split
    · simp only [ensures_rules]
      split
      · simp only [ensures_rules]
        split
        · next pending table htaken =>
          obtain ⟨slot, hentry, -, rfl⟩ :=
            PendingTable.takeFirst_eq_some (okOr_eq_ok.mp htaken)
          simp only [ensures_rules, ensures_setPending, ensures_discard, ensures_onService]
          exact (ServiceController.ensures_observeCompletion_curve _ _).mono
            (fun _ _ hcurve => Takes.settles (hkept.takes hhealthy hentry rfl hcurve rfl))
            fun _ _ hcurve => Takes.settles (hkept.takes hhealthy hentry rfl hcurve rfl)
        · exact hkept.poisons.kept.settles hhealthy
      · exact hkept.poisons.kept.settles hhealthy
    · split
      · simp only [ensures_rules]
        split
        · exact hkept.poisons.kept.settles hhealthy
        · next pending table htaken =>
          obtain ⟨slot, hentry, hidentity, rfl⟩ :=
            PendingTable.takeFirst_eq_some (okOr_eq_ok.mp htaken)
          simp only [ensures_rules, ensures_setPending, ensures_discard, orPoison, ensures_attempt,
            ensures_onService, ensures_poison]
          refine (ServiceController.ensures_observeCompletion_curve _ _).mono
            (fun _ service hcurve => ?_) fun _ _ hcurve =>
              Takes.settles (hkept.takes hhealthy hentry rfl hcurve rfl)
          refine ⟨fun _ => Takes.settles (hkept.takes hhealthy hentry rfl hcurve rfl),
            fun hunexpired => ?_⟩
          split
          · exact ensures_poison.mpr (Takes.settles (hkept.takes hhealthy hentry rfl hcurve rfl))
          · next hopcode =>
            refine ensures_pure.mpr ⟨Takes.settles (hkept.takes hhealthy hentry rfl hcurve rfl),
              hhealthy, hstill, fun event' epoch sequence hreply => ?_⟩
            cases hreply
            refine ⟨pending, hkept.takes hhealthy hentry rfl hcurve rfl, rfl, not_not.mp hopcode,
              ?_⟩
            rw [← hclock] at hunexpired
            exact hunexpired
      · split <;> exact ⟨hkept.settles hhealthy, hhealthy, hstill, fun _ _ _ h => by cases h⟩

/-- **Expiring.** -/
theorem ensures_expireOne (t : Hermes n) : Ensures expireOne t
      (fun expired t' => Settles t t' ∧ t.runtime.poisoned = false ∧ t'.runtime.poisoned = false ∧
        ∀ identity, expired = some identity →
          ∃ request, Takes t t' request ∧ request.identity = identity ∧
            tickReached t'.platform.clock request.deadlineTick = true)
      fun _ t' => Settles t t' := by
  have hsame : Settles t t := ⟨.inl rfl, rfl, rfl, fun _ => rfl⟩
  simp only [expireOne, ensures_rules, hsame]
  intro hhealthy
  refine (ensures_clock t).mono (fun nowTick t₁ h₁ => ?_) fun _ _ h => absurd h not_false
  obtain ⟨hcalls, hclock⟩ := h₁
  have hkept := hcalls.kept
  have hstill := hcalls.poisoned.trans hhealthy
  split
  · exact ⟨hkept.settles hhealthy, hhealthy, hstill, fun _ h => by cases h⟩
  · next expired table htaken =>
    obtain ⟨slot, hentry, hreached, rfl⟩ := PendingTable.takeFirst_eq_some htaken
    simp only [ensures_rules, ensures_setPending, ensures_discard, ensures_onService]
    refine (ServiceController.ensures_observeCompletion_curve _ _).mono (fun _ service hcurve => ?_)
      fun _ service hcurve => Takes.settles (hkept.takes hhealthy hentry rfl hcurve rfl)
    refine ⟨Takes.settles (hkept.takes hhealthy hentry rfl hcurve rfl), hhealthy, hstill,
      fun identity hidentity => ?_⟩
    refine ⟨expired, hkept.takes hhealthy hentry rfl hcurve rfl, some.inj hidentity, ?_⟩
    rw [← hclock] at hreached
    exact hreached

end Hermes

end Sisyphus.HermesGsp
