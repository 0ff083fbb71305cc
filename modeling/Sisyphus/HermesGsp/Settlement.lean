import Sisyphus.HermesGsp.Correlation

/-!
# Runs of a Hermes transport

A run is a list of calls on a transport that `ignite` has brought online, and what is observed of a
call is its answer and the requests it settles: those that were in the pending table before it and
are not after it.  `Ledger` is what holds of the observations so far and the transport then, and
`requests_are_settled_once` what follows for every run.
-/

set_option autoImplicit false

namespace Sisyphus.HermesGsp

open Fallible Function List PendingTable Run Slope Tickets Words

inductive Call
  | submit (submission : Hermes.Submission)
  | pollEvent
  | expireOne

inductive Reply
  | submitted (identity : Identity)
  | received (event : Option Hermes.ReceivedEvent)
  | expired (identity : Option Identity)
  | failed (fault : HermesFault)

/-- What is observed of a call: its answer and the requests it settles. -/
structure Observation where
  reply : Reply
  settled : List Identity

/-- The identity that an answer hands out. -/
def Reply.issued : Reply → Option Identity
  | .submitted identity => some identity
  | _ => none

namespace Hermes

variable {n : Nat}

/-- A result, as the answer to a call. -/
def answered {α : Type} (reply : α → Reply) :
    EStateM.Result HermesFault (Hermes n) α → Reply × Hermes n
  | .ok a t => (reply a, t)
  | .error fault t => (.failed fault, t)

def perform (t : Hermes n) : Call → Reply × Hermes n
  | .submit submission => answered .submitted (submit submission t)
  | .pollEvent => answered .received (pollEvent t)
  | .expireOne => answered .expired (expireOne t)

def step (t : Hermes n) (call : Call) : Observation × Hermes n :=
  (⟨(t.perform call).1, settledBetween t.runtime.pending.identities
    (t.perform call).2.runtime.pending.identities⟩, (t.perform call).2)

/-- A transport that `bind` and `ignite` have brought online. -/
def Online (t : Hermes n) : Prop :=
  ∃ codec profile identity proofRoot nowTick lease platform bound turns deadlineTick,
    bind n codec profile identity proofRoot nowTick lease platform = .ok bound ∧
      ignite turns deadlineTick bound = .ok () t

/-- The identities handed out in a run. -/
def submittedIn (past : List (Call × Observation)) : List Identity :=
  past.filterMap fun entry => entry.2.reply.issued

/-- The requests settled in a run. -/
def settledIn (past : List (Call × Observation)) : List Identity :=
  past.flatMap fun entry => entry.2.settled

/-- This submission got this identity. -/
def WasSubmitted (past : List (Call × Observation)) (s : Submission) (identity : Identity) : Prop :=
  ∃ observation, (Call.submit s, observation) ∈ past ∧ observation.reply = .submitted identity

/-! ## The invariant -/

/-- What holds of the past and of the transport it has led to. -/
structure Ledger (past : List (Call × Observation)) (t : Hermes n) : Prop where
  tickets : Sound (submittedIn past) (settledIn past) t.runtime.pending.identities
  keyed : t.runtime.pending.Keyed
  beyond : ∀ identity ∈ submittedIn past, Beyond identity t
  requests : ∀ i r, t.runtime.pending i = some r →
    ∃ s, WasSubmitted past s r.identity ∧ s.opcode = r.opcode ∧ s.deadlineTick = r.deadlineTick
  backlog : t.runtime.pending.liveCount ≤ t.runtime.service.curve.maximumBacklog.toNat
  capacity : t.runtime.service.curve.maximumBacklog.toNat ≤ n

variable {past : List (Call × Observation)} {t t' : Hermes n} {observation : Observation}

theorem WasSubmitted.append {s : Submission} {identity : Identity}
    (h : WasSubmitted past s identity) (more : List (Call × Observation)) :
    WasSubmitted (past ++ more) s identity := by
  obtain ⟨observation, hmem, hreply⟩ := h
  exact ⟨observation, mem_append_left _ hmem, hreply⟩

variable {request : PendingRequest}

/-- **What is taken out is settled**, and nothing else. -/
theorem settledBetween_take {table : PendingTable n} (hkeyed : table.Keyed) {slot : Fin n}
    (hentry : table slot = some request) :
    settledBetween table.identities (identities (update table slot none)) = [request.identity] := by
  refine perm_singleton.mp ((perm_ext_iff_of_nodup (hkeyed.nodup.filter _)
    (nodup_singleton _)).mpr fun identity => ?_)
  rw [mem_singleton, ← settledBetween, mem_settledBetween, mem_identities, mem_identities]
  constructor
  · rintro ⟨⟨i, r, hr, rfl⟩, hgone⟩
    by_contra hne
    refine hgone ⟨i, r, ?_, rfl⟩
    have hi : i ≠ slot := by
      rintro rfl
      rw [hentry] at hr
      cases hr
      exact hne rfl
    rw [update_of_ne hi, hr]
  · rintro rfl
    refine ⟨⟨slot, request, hentry, rfl⟩, ?_⟩
    rintro ⟨i, r, hr, hsame⟩
    have hold := (shrinks_update table slot).eq_some hr
    obtain rfl := hkeyed i slot r request hold hentry hsame
    rw [update_self] at hr
    cases hr

theorem Settles.shrinks (h : Settles t t') : Shrinks t.runtime.pending t'.runtime.pending := by
  rcases h.pending with hsame | ⟨slot, hslot⟩
  · rw [hsame]
    exact .refl _
  · rw [hslot]
    exact shrinks_update _ slot

/-- Reading and expiring settle at most one request. -/
theorem Settles.settled (h : Settles t t') (hkeyed : t.runtime.pending.Keyed) :
    settledBetween t.runtime.pending.identities t'.runtime.pending.identities = [] ∨
      ∃ identity, settledBetween t.runtime.pending.identities t'.runtime.pending.identities =
        [identity] := by
  rcases h.pending with hsame | ⟨slot, hslot⟩
  · exact .inl (settledBetween_eq_nil fun _ h => hsame ▸ h)
  · rw [hslot]
    cases hentry : t.runtime.pending slot with
    | none =>
      rw [← hentry, update_eq_self]
      exact .inl (settledBetween_eq_nil fun _ h => h)
    | some request => exact .inr ⟨_, settledBetween_take hkeyed hentry⟩

/-- The entry that a call adds to the past. -/
theorem submittedIn_append (entry : Call × Observation) :
    submittedIn (past ++ [entry]) = submittedIn past ++ entry.2.reply.issued.toList := by
  cases hreply : entry.2.reply.issued with
  | none | some identity => simp [submittedIn, hreply]

theorem settledIn_append (entry : Call × Observation) :
    settledIn (past ++ [entry]) = settledIn past ++ entry.2.settled := by
  simp [settledIn]

variable {call : Call}

theorem Ledger.of_settles (h : Ledger past t) (hsettles : Settles t t') {reply : Reply}
    (hreply : reply.issued = none) :
    Ledger (past ++ [(call,
      ⟨reply, settledBetween t.runtime.pending.identities t'.runtime.pending.identities⟩)]) t' := by
  have hshrinks := hsettles.shrinks
  refine ⟨?_, hshrinks.keyed h.keyed, ?_, ?_, ?_, ?_⟩
  · rw [submittedIn_append, settledIn_append, hreply]
    refine h.tickets.step (by simpa using h.tickets.issued_nodup) (hshrinks.keyed h.keyed).nodup
      fun identity hlive => .inl ?_
    obtain ⟨i, r, hr, hi⟩ := mem_identities.mp hlive
    exact mem_identities.mpr ⟨i, r, hshrinks.eq_some hr, hi⟩
  · rw [submittedIn_append, hreply]
    intro identity hmem
    rw [Beyond, hsettles.next]
    exact h.beyond identity (by simpa using hmem)
  · intro i r hr
    obtain ⟨s, hs, hdata⟩ := h.requests i r (hshrinks.eq_some hr)
    exact ⟨s, hs.append _, hdata⟩
  · rw [hsettles.curve]
    exact hshrinks.liveCount_le.trans h.backlog
  · rw [hsettles.curve]
    exact h.capacity

theorem Ledger.of_refused (h : Ledger past t) (hrefused : Refused t t') {fault : HermesFault} :
    Ledger (past ++ [(call, ⟨.failed fault,
      settledBetween t.runtime.pending.identities t'.runtime.pending.identities⟩)]) t' := by
  have hpending := hrefused.pending
  refine ⟨?_, hpending ▸ h.keyed, ?_, ?_, ?_, ?_⟩
  · rw [submittedIn_append, settledIn_append, hpending]
    exact h.tickets.step (by simpa [Reply.issued] using h.tickets.issued_nodup) h.keyed.nodup
      fun identity hlive => .inl hlive
  · rw [submittedIn_append]
    intro identity hmem
    have hold := h.beyond identity (by simpa [Reply.issued] using hmem)
    rcases hrefused.next with hsame | ⟨hleft, hbeyond⟩
    · rwa [Beyond, hsame]
    · exact hbeyond.imp_right fun hlt => (hold.resolve_left hleft).trans hlt
  · intro i r hr
    rw [hpending] at hr
    obtain ⟨s, hs, hdata⟩ := h.requests i r hr
    exact ⟨s, hs.append _, hdata⟩
  · rw [hpending, hrefused.curve]
    exact h.backlog
  · rw [hrefused.curve]
    exact h.capacity

/-- The new identity is none of the old ones. -/
theorem Ledger.fresh (h : Ledger past t) (hleft : t.next.2 ≠ 0) : t.next ∉ submittedIn past := by
  intro hmem
  exact Nat.lt_irrefl _ ((h.beyond t.next hmem).resolve_left hleft)

theorem Ledger.of_submitted (h : Ledger past t) {s : Submission} {identity : Identity}
    (hsubmitted : Submitted s t identity t') :
    Ledger (past ++ [(.submit s, ⟨.submitted identity,
      settledBetween t.runtime.pending.identities t'.runtime.pending.identities⟩)]) t' := by
  obtain ⟨-, -, hcurve, hroom, ⟨hidentity, hleft, hbeyond⟩, slot, admission, hfree, htable⟩ :=
    hsubmitted
  have hfresh : identity ∉ submittedIn past := hidentity ▸ h.fresh hleft
  -- an entry of the new table is the new request or an old one
  have hentries : ∀ i r, t'.runtime.pending i = some r →
      i = slot ∧ r = ⟨identity.1, identity.2, s.opcode, s.deadlineTick, admission⟩ ∨
        i ≠ slot ∧ t.runtime.pending i = some r := by
    intro i r hr
    rw [htable] at hr
    by_cases hi : i = slot
    · rw [hi, update_self] at hr
      exact .inl ⟨hi, (Option.some.inj hr).symm⟩
    · rw [update_of_ne hi] at hr
      exact .inr ⟨hi, hr⟩
  have hold : ∀ i r, t.runtime.pending i = some r → r.identity ≠ identity := by
    intro i r hr hsame
    exact hfresh (h.tickets.live_issued _ (mem_identities.mpr ⟨i, r, hr, hsame⟩))
  have hkeyed : t'.runtime.pending.Keyed := by
    intro i j r q hr hq hsame
    rcases hentries i r hr with ⟨hi, rfl⟩ | ⟨-, hr⟩
    · rcases hentries j q hq with ⟨hj, -⟩ | ⟨-, hq⟩
      · rw [hi, hj]
      · exact absurd hsame.symm (hold j q hq)
    · rcases hentries j q hq with ⟨-, rfl⟩ | ⟨-, hq⟩
      · exact absurd hsame (hold i r hr)
      · exact h.keyed i j r q hr hq hsame
  refine ⟨?_, hkeyed, ?_, ?_, ?_, ?_⟩
  · rw [submittedIn_append, settledIn_append]
    refine h.tickets.step (nodup_append'.mpr ⟨h.tickets.issued_nodup, nodup_singleton _,
      disjoint_singleton.mpr hfresh⟩) hkeyed.nodup fun id hlive => ?_
    obtain ⟨i, r, hr, rfl⟩ := mem_identities.mp hlive
    rcases hentries i r hr with ⟨-, rfl⟩ | ⟨-, hr⟩
    · exact .inr (mem_singleton.mpr rfl)
    · exact .inl (mem_identities.mpr ⟨i, r, hr, rfl⟩)
  · rw [submittedIn_append]
    refine forall_mem_concat.mpr ⟨fun id hmem => ?_, hbeyond⟩
    have hlt := (h.beyond id hmem).resolve_left hleft
    rw [← hidentity] at hlt
    exact hbeyond.imp_right hlt.trans
  · intro i r hr
    rcases hentries i r hr with ⟨-, rfl⟩ | ⟨-, hr⟩
    · exact ⟨s, ⟨_, mem_append_right _ (mem_singleton.mpr rfl), rfl⟩, rfl, rfl⟩
    · obtain ⟨s', hs', hdata⟩ := h.requests i r hr
      exact ⟨s', hs'.append _, hdata⟩
  · rw [htable, liveCount_update hfree, hcurve]
    have hbacklog := h.backlog
    have hsmall := t.runtime.service.curve.maximumBacklog.toNat_lt
    rw [UInt64.toNat_ofNat', Nat.mod_eq_of_lt (by omega)] at hroom
    omega
  · rw [hcurve]
    exact h.capacity

/-- The calls that submit nothing settle at most one request. -/
theorem settles_perform (h : call = .pollEvent ∨ call = .expireOne) :
    Settles t (t.perform call).2 ∧ (t.perform call).1.issued = none := by
  rcases h with rfl | rfl
  · rcases (ensures_pollEvent t).cases with ⟨_, _, hcall, ht', -⟩ | ⟨_, _, hcall, ht'⟩
    all_goals
      rw [perform, hcall]
      exact ⟨ht', rfl⟩
  · rcases (ensures_expireOne t).cases with ⟨_, _, hcall, ht', -⟩ | ⟨_, _, hcall, ht'⟩
    all_goals
      rw [perform, hcall]
      exact ⟨ht', rfl⟩

/-- **One call.** -/
theorem Ledger.step (h : Ledger past t) (call : Call) :
    Ledger (past ++ [(call, (step t call).1)]) (step t call).2 := by
  cases call with
  | submit s =>
    rcases (ensures_submit s t).cases with ⟨identity, t', hcall, ht'⟩ | ⟨fault, t', hcall, ht'⟩
    · simp only [Hermes.step, perform, hcall, answered]
      exact h.of_submitted ht'
    · simp only [Hermes.step, perform, hcall, answered]
      exact h.of_refused ht'
  | pollEvent => exact h.of_settles (settles_perform (.inl rfl)).1 (settles_perform (.inl rfl)).2
  | expireOne => exact h.of_settles (settles_perform (.inr rfl)).1 (settles_perform (.inr rfl)).2

theorem Ledger.run (h : Ledger past t) (calls : List Call) :
    Ledger (past ++ trace Hermes.step t calls) (final Hermes.step t calls) :=
  (EveryStep.of_forall (P := fun _ _ => True) fun _ _ => trivial).history past
    (fun _ _ call _ h => h.step call) h

/-! ## Coming online -/

theorem ensures_awaitEvent (deadlineTick : UInt64) (turns : Nat) (t : Hermes n) :
    Ensures (awaitEvent deadlineTick turns) t (fun _ t' => Kept t t') fun _ _ => True := by
  induction turns generalizing t with
  | zero => trivial
  | succ turns ih =>
    rw [awaitEvent, ensures_bind]
    refine (ensures_clock t).mono (fun _ t₁ h₁ => ?_) fun _ _ h => absurd h not_false
    rw [ensures_bind, ensures_refuse]
    refine ⟨fun _ => trivial, fun _ => ?_⟩
    rw [ensures_bind]
    refine (ensures_readWireEvent t₁).mono (fun read t₂ h₂ => ?_) fun _ _ _ => trivial
    have hkept := h₁.1.kept.trans h₂.kept
    cases read with
    | none => exact (ih t₂).mono (fun _ _ h => hkept.trans h) fun _ _ _ => trivial
    | some event => exact hkept

/-- Negotiation leaves the table and the controller alone. -/
theorem ensures_ignite (turns : Nat) (deadlineTick : UInt64) (t : Hermes n) :
    Ensures (ignite turns deadlineTick) t
      (fun _ t' => t'.runtime.pending = t.runtime.pending ∧ t'.runtime.service = t.runtime.service)
      fun _ _ => True := by
  rw [ignite, ensures_bind, ensures_get, ensures_bind]
  refine (ensures_allocateCorrelation t).mono (fun correlation t₁ h₁ => ?_) fun _ _ _ => trivial
  obtain ⟨-, -, -, epoch, nextSequence, rfl⟩ := h₁
  rw [ensures_bind]
  refine (ensures_sendWire _ _).mono (fun _ t₂ h₂ => ?_) fun _ _ _ => trivial
  rw [ensures_bind]
  refine (ensures_awaitEvent _ _ t₂).mono (fun event t₃ h₃ => ?_) fun _ _ _ => trivial
  have hkept := h₂.kept.trans h₃
  simp only [ensures_rules]
  exact fun _ _ _ _ => ⟨hkept.pending, hkept.service⟩

theorem Online.ledger (h : Online t) : Ledger [] t := by
  obtain ⟨codec, profile, identity, proofRoot, nowTick, lease, platform, bound, turns, deadlineTick,
    hbind, hignite⟩ := h
  obtain ⟨hpending, hservice⟩ := (ensures_ignite turns deadlineTick bound).of_ok hignite
  obtain ⟨_, hroom, hbind⟩ := except_bind_eq_ok.mp hbind
  obtain ⟨runtime, hruntime, hbound⟩ := except_bind_eq_ok.mp hbind
  obtain ⟨service, hnew, hruntime⟩ := except_bind_eq_ok.mp hruntime
  cases hbound
  cases hruntime
  have hcurve : service.curve.maximumBacklog = profile.maximumAdmissionBacklog := by
    cases hcontroller : ServiceController.new 32 _ nowTick proofRoot with
    | error fault =>
      rw [hcontroller] at hnew
      cases hnew
    | ok made =>
      rw [hcontroller] at hnew
      cases hnew
      rw [(ServiceController.new_eq_ok hcontroller).1]
  have hempty : t.runtime.pending.identities = [] := by
    rw [hpending]
    simp [identities]
  have hnone : ∀ i r, t.runtime.pending i ≠ some r := by
    intro i r hr
    rw [hpending] at hr
    cases hr
  refine ⟨?_, fun i j r q hr => absurd hr (hnone i r), forall_mem_nil _,
    fun i r hr => absurd hr (hnone i r), ?_, ?_⟩
  · rw [hempty]
    exact ⟨nodup_nil, nodup_nil, nodup_nil, forall_mem_nil _, forall_mem_nil _, forall_mem_nil _⟩
  · rw [← length_identities, hempty]
    exact Nat.zero_le _
  · rw [hservice, hcurve]
    have hroom := reject_eq_ok.mp hroom
    simp only [Bool.or_eq_false_iff, decide_eq_false_iff_not, not_lt] at hroom
    exact hroom.2

/-! ## Whole runs -/

/-- What a run of calls from `t` looks like. -/
structure Orderly (t : Hermes n) (calls : List Call) : Prop where
  /-- No identity is handed out twice. -/
  distinct : (submittedIn (trace step t calls)).Nodup
  /-- No request is settled twice. -/
  settled_once : (settledIn (trace step t calls)).Nodup
  /-- What is settled was submitted. -/
  settled_submitted : ∀ identity ∈ settledIn (trace step t calls),
    identity ∈ submittedIn (trace step t calls)
  /-- Requests are settled one by one, and not by submissions. -/
  settled_by : ∀ call observation, (call, observation) ∈ trace step t calls →
    observation.settled = [] ∨ (∃ identity, observation.settled = [identity]) ∧
      (call = .pollEvent ∨ call = .expireOne)
  /-- A reply is for a request that was submitted, is not settled and not expired, and has the same
  opcode; it settles the request. -/
  reply : ∀ before, before ++ [.pollEvent] <+: calls → ∀ event epoch sequence,
    (step (final step t before) .pollEvent).1.reply =
      .received (some ⟨event, .reply epoch sequence⟩) →
    ∃ s, WasSubmitted (trace step t before) s (epoch, sequence) ∧ s.opcode = event.opcode ∧
      (epoch, sequence) ∉ settledIn (trace step t before) ∧
      tickReached (step (final step t before) .pollEvent).2.platform.clock s.deadlineTick =
        false ∧
      (step (final step t before) .pollEvent).1.settled = [(epoch, sequence)]
  /-- What expires was submitted, is not settled, and its deadline is reached; that settles it. -/
  expiry : ∀ before, before ++ [.expireOne] <+: calls → ∀ identity,
    (step (final step t before) .expireOne).1.reply = .expired (some identity) →
    ∃ s, WasSubmitted (trace step t before) s identity ∧
      identity ∉ settledIn (trace step t before) ∧
      tickReached (step (final step t before) .expireOne).2.platform.clock s.deadlineTick =
        true ∧
      (step (final step t before) .expireOne).1.settled = [identity]
  /-- The live requests stay within the admission backlog, which fits into the table. -/
  backlog : ∀ before, before <+: calls →
    (final step t before).runtime.pending.liveCount ≤
        (final step t before).runtime.service.curve.maximumBacklog.toNat ∧
      (final step t before).runtime.service.curve.maximumBacklog.toNat ≤ n
  /-- What is admitted finds a place in the table. -/
  room : ∀ before, before <+: calls → ∀ nowTick deadlineTick admission service,
    ServiceController.admitRequest nowTick deadlineTick
        (UInt64.ofNat (final step t before).runtime.pending.liveCount)
        (final step t before).runtime.service = .ok admission service →
    ∀ request, (final step t before).runtime.pending.insert request ≠ .error .pendingCapacity
  /-- A submission that fails and does not poison the transport is not seen by the device. -/
  unseen : ∀ before s, before ++ [.submit s] <+: calls → ∀ fault,
    (step (final step t before) (.submit s)).1.reply = .failed fault →
    (step (final step t before) (.submit s)).2.runtime.poisoned =
      (final step t before).runtime.poisoned →
    Unseen (final step t before) (step (final step t before) (.submit s)).2
  /-- Nothing succeeds on a poisoned transport. -/
  poisoned : ∀ before after, before ++ after <+: calls →
    (final step t before).runtime.poisoned = true →
    ∀ call observation, (call, observation) ∈ trace step (final step t before) after →
      observation.reply = .failed .recoveryRequired

theorem Online.ledger_run (h : Online t) (calls : List Call) :
    Ledger (trace step t calls) (final step t calls) := h.ledger.run calls

/-- A request that is taken out of the table, as the past knows it. -/
theorem Ledger.of_takes (h : Ledger past t) (htakes : Takes t t' request) :
    (∃ s, WasSubmitted past s request.identity ∧ s.opcode = request.opcode ∧
        s.deadlineTick = request.deadlineTick) ∧
      request.identity ∉ settledIn past ∧
      settledBetween t.runtime.pending.identities t'.runtime.pending.identities =
        [request.identity] := by
  obtain ⟨slot, hentry, htable⟩ := htakes.entry
  refine ⟨h.requests slot request hentry, fun hsettled => ?_, ?_⟩
  · exact h.tickets.settled_gone _ hsettled (mem_identities.mpr ⟨slot, request, hentry, rfl⟩)
  · rw [htable]
    exact settledBetween_take h.keyed hentry

theorem Ledger.settled_by (h : Ledger past t) (call : Call) :
    (Hermes.step t call).1.settled = [] ∨
      (∃ identity, (Hermes.step t call).1.settled = [identity]) ∧
        (call = .pollEvent ∨ call = .expireOne) := by
  cases call with
  | submit s =>
    left
    rcases (ensures_submit s t).cases with ⟨identity, t', hcall, ht'⟩ | ⟨fault, t', hcall, ht'⟩
    · simp only [Hermes.step, perform, hcall, answered]
      obtain ⟨slot, admission, hfree, htable⟩ := ht'.entry
      refine settledBetween_eq_nil fun id hid => ?_
      obtain ⟨i, r, hr, hi⟩ := mem_identities.mp hid
      have hne : i ≠ slot := by
        rintro rfl
        rw [hfree] at hr
        cases hr
      exact mem_identities.mpr ⟨i, r, by rw [htable, update_of_ne hne, hr], hi⟩
    · simp only [Hermes.step, perform, hcall, answered]
      rw [ht'.pending]
      exact settledBetween_eq_nil fun _ h => h
  | pollEvent =>
    exact ((settles_perform (.inl rfl)).1.settled h.keyed).imp_right fun h => ⟨h, .inl rfl⟩
  | expireOne =>
    exact ((settles_perform (.inr rfl)).1.settled h.keyed).imp_right fun h => ⟨h, .inr rfl⟩

/-- Every entry of a trace is a step from where the calls before it have led. -/
theorem mem_trace {calls : List Call} (h : (call, observation) ∈ trace step t calls) :
    ∃ before, before ++ [call] <+: calls ∧ observation = (step (final step t before) call).1 := by
  induction calls generalizing t with
  | nil => cases h
  | cons first rest ih =>
    rcases mem_cons.mp h with heq | hrest
    · cases heq
      exact ⟨[], by simp, rfl⟩
    · obtain ⟨before, hpre, hobservation⟩ := ih hrest
      exact ⟨first :: before, cons_prefix_cons.mpr ⟨rfl, hpre⟩, hobservation⟩

/-- The check that every call begins with. -/
theorem ensures_poisoned {α : Type} {rest : Unit → Act n α} (h : t.runtime.poisoned = true) :
    Ensures (do
      let a ← get
      refuse a.runtime.poisoned .recoveryRequired >>= rest) t (fun _ _ => False)
      fun fault t' => fault = .recoveryRequired ∧ t' = t := by
  rw [ensures_bind, ensures_get, ensures_bind, ensures_refuse]
  exact ⟨fun _ => ⟨rfl, rfl⟩, fun hno => absurd (h.symm.trans hno) Bool.noConfusion⟩

theorem answered_poisoned {α : Type} {x : EStateM HermesFault (Hermes n) α} (reply : α → Reply)
    (hx : Ensures x t (fun _ _ => False) fun fault t' => fault = .recoveryRequired ∧ t' = t) :
    answered reply (x t) = (.failed .recoveryRequired, t) := by
  rcases hx.cases with ⟨_, _, _, hfalse⟩ | ⟨_, _, hcall, rfl, rfl⟩
  · exact hfalse.elim
  · rw [hcall, answered]

/-- **A poisoned transport** answers every call with an error and stays as it is. -/
theorem perform_poisoned (h : t.runtime.poisoned = true) (call : Call) :
    t.perform call = (.failed .recoveryRequired, t) := by
  cases call with
  | submit s => exact answered_poisoned _ (ensures_poisoned h)
  | pollEvent => exact answered_poisoned _ (ensures_poisoned h)
  | expireOne => exact answered_poisoned _ (ensures_poisoned h)

theorem trace_poisoned (h : t.runtime.poisoned = true) {calls : List Call}
    (hmem : (call, observation) ∈ trace step t calls) :
    observation.reply = .failed .recoveryRequired := by
  obtain ⟨before, -, rfl⟩ := mem_trace hmem
  have hstays : (final step t before).runtime.poisoned = true :=
    invariant_final (I := fun t : Hermes n => t.runtime.poisoned = true)
      (fun t call h => by rw [step, perform_poisoned h]; exact h) h
  rw [step, perform_poisoned hstays]

/-- **Requests are settled at most once and never confused**, in every run on an online
transport. -/
theorem requests_are_settled_once (t : Hermes n) (calls : List Call) (h : Online t) :
    Orderly t calls where
  distinct := (h.ledger_run calls).tickets.issued_nodup
  settled_once := (h.ledger_run calls).tickets.settled_nodup
  settled_submitted := (h.ledger_run calls).tickets.settled_issued
  settled_by call observation hmem := by
    obtain ⟨before, -, rfl⟩ := mem_trace hmem
    exact (h.ledger_run before).settled_by call
  reply before _ event epoch sequence hreply := by
    have hledger := h.ledger_run before
    rcases (ensures_pollEvent (final step t before)).cases with
      ⟨received, t', hcall, -, -, -, hrequest⟩ | ⟨fault, t', hcall, -⟩
    · simp only [step, perform, hcall, answered] at hreply ⊢
      cases hreply
      obtain ⟨request, htakes, hidentity, hopcode, hunexpired⟩ := hrequest event epoch sequence rfl
      obtain ⟨⟨s, hs, hsame, hdeadline⟩, hunsettled, hsettled⟩ := hledger.of_takes htakes
      rw [hidentity] at hs hunsettled hsettled
      exact ⟨s, hs, hsame.trans hopcode, hunsettled, hdeadline ▸ hunexpired, hsettled⟩
    · simp only [step, perform, hcall, answered] at hreply
      cases hreply
  expiry before _ identity hreply := by
    have hledger := h.ledger_run before
    rcases (ensures_expireOne (final step t before)).cases with
      ⟨expired, t', hcall, -, -, -, hrequest⟩ | ⟨fault, t', hcall, -⟩
    · simp only [step, perform, hcall, answered] at hreply ⊢
      cases hreply
      obtain ⟨request, htakes, rfl, hreached⟩ := hrequest identity rfl
      obtain ⟨⟨s, hs, -, hdeadline⟩, hunsettled, hsettled⟩ := hledger.of_takes htakes
      exact ⟨s, hs, hunsettled, hdeadline ▸ hreached, hsettled⟩
    · simp only [step, perform, hcall, answered] at hreply
      cases hreply
  backlog before _ := ⟨(h.ledger_run before).backlog, (h.ledger_run before).capacity⟩
  room before _ nowTick deadlineTick admission service hadmit request := by
    have hledger := h.ledger_run before
    have hbacklog := hledger.backlog
    have hcapacity := hledger.capacity
    have hsmall := (final step t before).runtime.service.curve.maximumBacklog.toNat_lt
    have hroom := ((ServiceController.ensures_admitRequest_curve nowTick deadlineTick _).of_ok
      hadmit).2
    rw [UInt64.toNat_ofNat', Nat.mod_eq_of_lt (by omega)] at hroom
    exact insert_ne_capacity (by omega)
  unseen before s _ fault hreply hpoisoned := by
    rcases (ensures_submit s (final step t before)).cases with
      ⟨identity, t', hcall, -⟩ | ⟨fault', t', hcall, ht'⟩
    · simp only [step, perform, hcall, answered] at hreply
      cases hreply
    · cases hbefore : (final step t before).runtime.poisoned with
      | true =>
        rw [step, perform_poisoned hbefore]
        exact .refl _
      | false =>
        simp only [step, perform, hcall, answered, hbefore] at hpoisoned ⊢
        rcases ht'.seen with hyes | ⟨-, hunseen⟩
        · exact absurd (hpoisoned.symm.trans hyes) Bool.false_ne_true
        · exact hunseen
  poisoned before after _ hpoisoned _ _ hmem := trace_poisoned hpoisoned hmem

/-! ### A sample run -/

/-- A codec whose events say in two bytes what they reply to. -/
def sampleCodec : HermesCodec where
  encodeCommand _ _ _ := .ok (1, [0])
  decodeEvent _ bytes := .ok
    { eventVersion := 1
      structSize := 312
      epoch := 1
      sequence := 0
      correlationEpoch := 1
      correlationSequence := (bytes.getD 0 0).toUInt32
      eventKind := hermesEventReply
      opcode := (bytes.getD 1 0).toUInt32
      status := 0
      flags := 0
      object := 0
      arguments := #v[0, 0x100000000, 0, 0, 0, 0, 0, 0]
      payloadLength := 0
      payload := [] }

def sampleProfile : HermesTransportProfile where
  wireMajor := 1
  wireMinorMinimum := 0
  wireMinorMaximum := 0
  commandSlotBytes := 4
  eventSlotBytes := 4
  commandDepth := 2
  eventDepth := 2
  controlBar := 0
  doorbellBar := 0
  commandProducerOffset := 0
  commandConsumerOffset := 4
  eventProducerOffset := 8
  eventConsumerOffset := 12
  commandDoorbellOffset := 16
  eventDoorbellOffset := 20
  requiredFeatures := 0
  optionalFeatures := 0
  maximumWireBytes := 4096
  minimumCompletionsPerWindow := 1
  maximumAdmissionsPerWindow := 1
  maximumAdmissionBacklog := 1
  serviceWindowTicks := 10
  serviceLatencyTicks := 0

/-- A tick for which the first epoch is 1. -/
def sampleTick : UInt64 := 0x4845524c

/-- A device that takes every command and answers the negotiation and the first request. -/
def samplePlatform : Platform where
  answers k :=
    { fault := none
      word := (List.lookup k [(8, 1), (15, 1), (22, 2)]).getD 0
      bytes := (List.lookup k [(10, [1, 1]), (24, [2, 7])]).getD []
      tick := sampleTick }
  log := []
  clock := 0

def sampleLease : HermesLease :=
  ⟨(Vector.replicate maximumBars none).set 0 (some ⟨0, 0, 64⟩), some ⟨1, 0x1000, 8⟩,
    some ⟨2, 0x2000, 8⟩⟩

/-- What a successful action leaves. -/
def succeeded {α : Type} : EStateM.Result HermesFault (Hermes n) α → Option (Hermes n)
  | .ok _ t => some t
  | .error _ _ => none

def sampleTransport : Option (Hermes 1) :=
  (bind 1 sampleCodec sampleProfile ⟨0, 0, 0, 0⟩ 7 sampleTick sampleLease
    samplePlatform).toOption.bind fun bound => succeeded (ignite 1 (sampleTick + 1) bound)

def sampleSubmission : Submission := ⟨7, 0, 0, Vector.replicate 8 0, [], sampleTick + 1000⟩

theorem online_of_sample {t : Hermes 1} (h : sampleTransport = some t) : Online t := by
  obtain ⟨bound, hbound, h⟩ := Option.bind_eq_some_iff.mp h
  refine ⟨sampleCodec, sampleProfile, ⟨0, 0, 0, 0⟩, 7, sampleTick, sampleLease, samplePlatform,
    bound, 1, sampleTick + 1, ?_, ?_⟩
  · cases hbind : bind 1 sampleCodec sampleProfile ⟨0, 0, 0, 0⟩ 7 sampleTick sampleLease
        samplePlatform with
    | error fault =>
      rw [hbind] at hbound
      cases hbound
    | ok made =>
      rw [hbind] at hbound
      cases hbound
      rfl
  · cases hignite : ignite 1 (sampleTick + 1) bound with
    | ok u t =>
      rw [hignite] at h
      cases h
      rfl
    | error fault t =>
      rw [hignite] at h
      cases h

/-- One request is submitted, answered and settled. -/
theorem sampleTransport_orderly : ∃ t : Hermes 1, Online t ∧
    settledIn (trace step t [.submit sampleSubmission, .pollEvent]) = [(1, 2)] ∧
    Orderly t [.submit sampleSubmission, .pollEvent] := by
  have hsettled : sampleTransport.any (fun t =>
      settledIn (trace step t [.submit sampleSubmission, .pollEvent]) == [(1, 2)]) = true := by
    decide +kernel
  cases hsample : sampleTransport with
  | none =>
    rw [hsample] at hsettled
    cases hsettled
  | some t =>
    rw [hsample] at hsettled
    exact ⟨t, online_of_sample hsample, eq_of_beq hsettled,
      requests_are_settled_once t _ (online_of_sample hsample)⟩

end Hermes

end Sisyphus.HermesGsp
