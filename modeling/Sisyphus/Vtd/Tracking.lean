import Sisyphus.Vtd.Backend
import Sisyphus.Vtd.Frame
import Sisyphus.Vtd.Ownership

/-!
# Page records and the ledger

The backend and the page-table core keep books of their own.  A page record of the backend holds a
handle or a receipt, and the core has a ledger with one record for each page that is not gone.
`Tracks` says that the two agree: every page record that is in use names a record of the ledger in
the phase it thinks it is in, every record of the ledger is named by a page record, and no two page
records name the same.

`Backend.Inv` is what holds between two requests, and inside of them between two page calls.  Its
first part is unconditional: a page record that is in use belongs to a batch.  The second part, that
the books agree and that the core is operational, holds as long as every page call was `Gentle`: it
met at most one failure, and it gave no table back that another page on its way out retains.
-/

set_option autoImplicit false

namespace Sisyphus.Vtd

open Fallible Function Slpt SlptInvalidator SlptPageMemory

/-! ## Names -/

section Names

variable {n : Nat} {core core' : Core n} {record : PageRecord} {j k : Fin n} {r s : MappingRecord}

def PageRecord.handle : PageRecord → Option MappingHandle
  | .empty => none
  | .active handle => some handle
  | .mapPending receipt => some receipt.handle
  | .unmapPending receipt => some receipt.handle

/-- The phase that the page record stands for. -/
def PageRecord.Agrees : PageRecord → MappingRecord → Prop
  | .empty, _ => False
  | .active _, r => r.phase = .active
  | .mapPending _, r => r.phase = .awaitingMapInvalidation
  | .unmapPending _, r => r.isLive = false

/-- The page record is about the record `r` in slot `k` of the ledger. -/
def Names (core : Core n) (record : PageRecord) (k : Fin n) (r : MappingRecord) : Prop :=
  ∃ handle ∈ record.handle, core.recordIndex handle = .ok (k, r) ∧ record.Agrees r

theorem Names.at (h : Names core record k r) : core.At k r := by
  obtain ⟨handle, -, hindex, -⟩ := h
  exact (Core.recordIndex_eq_ok.mp hindex).2.1

/-- The slot is written in the handle. -/
theorem Names.slot_eq (h : Names core record j r) (h' : Names core' record k s) : j = k := by
  obtain ⟨handle, hhandle, hindex, -⟩ := h
  obtain ⟨handle', hhandle', hindex', -⟩ := h'
  obtain rfl : handle = handle' := Option.some.inj (hhandle.symm.trans hhandle')
  apply Fin.ext
  rw [← (Core.recordIndex_eq_ok.mp hindex).1, (Core.recordIndex_eq_ok.mp hindex').1]

theorem Names.congr (h : Names core record k r) (hk : core'.slots k = core.slots k) :
    Names core' record k r := by
  obtain ⟨handle, hhandle, hindex, hagrees⟩ := h
  obtain ⟨hslot, hat, hgen⟩ := Core.recordIndex_eq_ok.mp hindex
  refine ⟨handle, hhandle, Core.recordIndex_eq_ok.mpr ⟨hslot, ?_, ?_⟩, hagrees⟩
  · rw [Core.At, hk]
    exact hat
  · rw [hk]
    exact hgen

theorem Names.ne_empty (h : Names core record k r) : record ≠ .empty := by
  rintro rfl
  obtain ⟨handle, hhandle, -⟩ := h
  cases hhandle

/-- The core's ledger and the page records of the backend agree. -/
structure Tracks (core : Core n) (records : Fin n → PageRecord) : Prop where
  named : ∀ p, records p ≠ .empty → ∃ k r, Names core (records p) k r
  kept : ∀ k r, core.At k r → ∃ p, Names core (records p) k r
  inj : ∀ p q k r s, Names core (records p) k r → Names core (records q) k s → p = q

namespace Tracks

variable {records : Fin n → PageRecord} {p : Fin n}

theorem congr (h : Tracks core records) (hslots : core'.slots = core.slots) :
    Tracks core' records where
  named p hp := by
    obtain ⟨k, r, hk⟩ := h.named p hp
    exact ⟨k, r, hk.congr (by rw [hslots])⟩
  kept k r hk := by
    have hk' : core.At k r := by
      rw [Core.At, ← hslots]
      exact hk
    obtain ⟨p, hp⟩ := h.kept k r hk'
    exact ⟨p, hp.congr (by rw [hslots])⟩
  inj p q k r s hp hq :=
    h.inj p q k r s (hp.congr (by rw [hslots])) (hq.congr (by rw [hslots]))

/-- A page record and the one slot of the ledger it is about change together. -/
protected theorem update (h : Tracks core records)
    (hslots : ∀ j, j ≠ k → core'.slots j = core.slots j)
    (hold : ∀ j r, Names core (records p) j r → j = k)
    (honly : ∀ q r, Names core (records q) k r → q = p)
    (hnew : record = .empty ∧ (core'.slots k).record = none ∨ ∃ s, Names core' record k s) :
    Tracks core' (update records p record) := by
  -- a page record other than `p` is about another slot, before and after
  have hother : ∀ {q j s}, q ≠ p → Names core' (records q) j s →
      j ≠ k ∧ Names core (records q) j s := by
    intro q j s hq hs
    obtain ⟨j', s', hs'⟩ := h.named q hs.ne_empty
    obtain rfl := hs'.slot_eq hs
    have hne : j' ≠ k := by
      rintro rfl
      exact hq (honly q s' hs')
    exact ⟨hne, hs.congr (hslots j' hne).symm⟩
  have hself : ∀ {j s}, Names core' record j s → j = k := by
    intro j s hs
    rcases hnew with ⟨rfl, -⟩ | ⟨s', hs'⟩
    · exact absurd rfl hs.ne_empty
    · exact hs.slot_eq hs'
  refine ⟨fun q hq => ?_, fun j s hj => ?_, fun q q' j s s' hq hq' => ?_⟩
  · by_cases hqp : q = p
    · subst hqp
      rw [update_self] at hq ⊢
      rcases hnew with ⟨rfl, -⟩ | ⟨s, hs⟩
      · exact absurd rfl hq
      · exact ⟨k, s, hs⟩
    · rw [update_of_ne hqp] at hq ⊢
      obtain ⟨j, r, hj⟩ := h.named q hq
      refine ⟨j, r, hj.congr (hslots j ?_)⟩
      rintro rfl
      exact hqp (honly q r hj)
  · by_cases hjk : j = k
    · subst hjk
      rcases hnew with ⟨-, hnone⟩ | ⟨s', hs'⟩
      · rw [Core.At, hnone] at hj
        cases hj
      · obtain rfl := hs'.at.inj hj
        exact ⟨p, by rwa [update_self]⟩
    · have hj' : core.At j s := by
        rw [Core.At, ← hslots j hjk]
        exact hj
      obtain ⟨q, hq⟩ := h.kept j s hj'
      refine ⟨q, ?_⟩
      rw [update_of_ne]
      · exact hq.congr (hslots j hjk)
      · rintro rfl
        exact hjk (hold j s hq)
  · by_cases hqp : q = p <;> by_cases hqp' : q' = p
    · rw [hqp, hqp']
    · rw [hqp, update_self] at hq
      rw [update_of_ne hqp'] at hq'
      exact absurd (hself hq) (hother hqp' hq').1
    · rw [update_of_ne hqp] at hq
      rw [hqp', update_self] at hq'
      exact absurd (hself hq') (hother hqp hq).1
    · rw [update_of_ne hqp] at hq
      rw [update_of_ne hqp'] at hq'
      exact h.inj q q' j s s' (hother hqp hq).2 (hother hqp' hq').2

theorem slots_setRecord {j : Fin n} (h : j ≠ k) : (core.setRecord k r).slots j = core.slots j := by
  simp [Core.setRecord, Core.setSlot, h]

theorem slots_retireSlot {j : Fin n} (h : j ≠ k) : (core.retireSlot k).slots j = core.slots j := by
  simp [Core.retireSlot, Core.setSlot, h]

/-- A page enters both books. -/
theorem map (h : Tracks core records) (hn : n ≤ 65535) (hk : (core.slots k).record = none)
    (hp : records p = .empty)
    (hhandle : record.handle = some ⟨k.val.toUInt16, (core.slots k).generation⟩)
    (hagrees : record.Agrees r) :
    Tracks (core.setRecord k r) (update records p record) := by
  refine h.update (fun j hj => slots_setRecord hj) (fun j s hs => ?_) (fun q s hs => ?_)
    (.inr ⟨r, ?_⟩)
  · exact absurd hp hs.ne_empty
  · have := hs.at
    rw [Core.At, hk] at this
    cases this
  · refine ⟨_, hhandle, Core.recordIndex_eq_ok.mpr
      ⟨?_, Core.at_setRecord_self, ?_⟩, hagrees⟩
    · exact Nat.mod_eq_of_lt (by omega)
    · simp [Core.setRecord, Core.setSlot]

/-- A page stays in both books, on its way out. -/
theorem pending (h : Tracks core records) (hp : Names core (records p) k r)
    {receipt : UnmapReceipt} (hhandle : (records p).handle = some receipt.handle)
    (hs : s.isLive = false) :
    Tracks (core.setRecord k s) (update records p (.unmapPending receipt)) := by
  refine h.update (fun j hj => slots_setRecord hj) (fun j s hj => hj.slot_eq hp)
    (fun q s hq => h.inj q p k s r hq hp) (.inr ⟨s, ?_⟩)
  obtain ⟨handle, hh, hindex, -⟩ := hp
  obtain rfl : handle = receipt.handle := Option.some.inj (hh.symm.trans hhandle)
  exact ⟨_, rfl, Core.recordIndex_setRecord hindex, hs⟩

/-- A page leaves both books. -/
theorem complete (h : Tracks core records) (hp : Names core (records p) k r) :
    Tracks (core.retireSlot k) (update records p .empty) := by
  refine h.update (fun j hj => slots_retireSlot hj) (fun j s hj => hj.slot_eq hp)
    (fun q s hq => h.inj q p k s r hq hp) (.inl ⟨rfl, ?_⟩)
  simp only [Core.retireSlot, Core.setSlot, update_self]
  split <;> rfl

end Tracks

end Names

/-! ## Page calls -/

section PageCalls

variable {n : Nat} {M R : Type} [SlptPageMemory M] [VtdRegisterBackend R] {c : Contract M}

/-- The failures so far, of the page memory and of invalidations. -/
def failures (w : World n (Logged M) (EngineInvalidator R)) : Nat :=
  w.memory.faults + w.invalidator.failures

/-- The monitor that counts them. -/
def watch (c : Contract M) (R : Type) [VtdRegisterBackend R] :
    Monitor (Logged.contract c) (EngineInvalidator R) :=
  Logged.monitor c _ True EngineInvalidator.failures fun _ iova i => by
    rw [Ensures]
    simp only [invalidateAfterPageTableChange]
    cases Engine.commitTableUpdate i.pollLimit i.engine <;> rfl

/-- The call meets at most one failure, and finds no table empty that another page on its way out
retains. -/
def Gentle (c : Contract M) (w : World n (Logged M) (EngineInvalidator R)) (call : Call) : Prop :=
  call.Spares (Logged.contract c).toView w ∧ failures (call.perform w).2 ≤ failures w + 1

instance (w : World n (Logged M) (EngineInvalidator R)) (call : Call) :
    Decidable (Gentle c w call) := by
  unfold Gentle
  infer_instance

/-- What gentle calls preserve. -/
structure Healthy (c : Contract M) (w : World n (Logged M) (EngineInvalidator R)) : Prop where
  sound : Sound (Logged.contract c) True w
  clean : Logged.Clean c w.memory
  operational : w.core.state = .operational

variable {w w' : World n (Logged M) (EngineInvalidator R)}

/-- A step with at most one failure leaves a healthy core healthy. -/
theorem Healthy.step {d e : Nat} (hw : Healthy c w) (h : Step (watch c R) True d e w w')
    (hle : failures w' ≤ failures w + 1) :
    Healthy c w' ∧ failures w' = failures w + (d + e) := by
  obtain ⟨hclean, hd⟩ := h.ran trivial hw.clean
  have hcount : failures w' = failures w + (d + e) := by
    have hm : w'.memory.faults = w.memory.faults + d := hd
    have hi : w'.invalidator.failures = w.invalidator.failures + e := h.missed trivial
    rw [failures, failures, hm, hi]
    omega
  refine ⟨⟨h.sound, hclean, ?_⟩, hcount⟩
  cases hstate : w'.core.state with
  | operational => rfl
  | poisoned =>
    rcases h.poisoned trivial hstate with hp | htwo
    · rw [hw.operational] at hp
      cases hp
    · omega

/-- How taking a page out may end. -/
def Discharged (w : World n (Logged M) (EngineInvalidator R))
    (record : PageRecord) (k : Fin n) (w' : World n (Logged M) (EngineInvalidator R)) :
    Except SlptFault UnmapOutcome → Prop
  | .ok .complete => w'.core = w.core.retireSlot k ∧ failures w' = failures w
  | .ok (.pending receipt _) => record.handle = some receipt.handle ∧
      (∃ s, w'.core = w.core.setRecord k s ∧ s.isLive = false) ∧ failures w' = failures w + 1
  | .error _ => w'.core = w.core ∧ failures w' = failures w + 1

variable {record : PageRecord} {k : Fin n} {r : MappingRecord} {call : Call}
  {x : Slpt.Op n (Logged M) (EngineInvalidator R) SlptFault UnmapOutcome}

theorem perform_discharge (h : Backend.discharge record = some (call, x)) :
    call.perform w = reply .unmap x w := by
  cases record with
  | empty => cases h
  | active handle | mapPending receipt | unmapPending receipt =>
    cases h
    rfl

/-- The core's answer, whatever the page record stands for. -/
theorem ensures_discharge_answered (hw : Healthy c w) (hnames : Names w.core record k r)
    (hdis : Backend.discharge record = some (call, x))
    (hspares : call.Spares (Logged.contract c).toView w) :
    ∃ handle ∈ record.handle, Ensures x w (UnmapAnswered (watch c R) True k r ⟨handle⟩ w)
      (fun _ w' => UnmapFailed (watch c R) True w w') := by
  obtain ⟨T, hL, hst⟩ := hw.sound hw.operational
  obtain ⟨handle, hhandle, hindex, hagrees⟩ := hnames
  have hspare := hspares.sparing hL hst
  refine ⟨handle, hhandle, ?_⟩
  cases record with
  | empty => cases hdis
  | active handle' =>
    cases hdis
    cases hhandle
    exact ensures_unmapPage hw.operational hL hst (fun _ => hspare handle k r rfl hindex) hindex
      hagrees
  | mapPending receipt =>
    cases hdis
    cases hhandle
    exact ensures_cancelPendingMap hw.operational hL hst
      (fun _ => hspare receipt.handle k r rfl hindex) hindex hagrees
  | unmapPending receipt =>
    cases hdis
    cases hhandle
    have hphase : r.phase = .awaitingUnmapInvalidation ∨ r.phase = .awaitingCleanup := by
      have hdead : r.isLive = false := hagrees
      cases hp : r.phase <;> simp [MappingRecord.isLive, hp] at hdead ⊢
    exact (ensures_finishUnmap hw.operational hL hst
      (fun _ => hspare receipt.handle k r rfl hindex) hindex hphase).imp_error fun _ _ h => .inl h

/-- **A gentle call either takes the page out, or fails once and can be made again.** -/
theorem ensures_discharge (hw : Healthy c w) (hnames : Names w.core record k r)
    (hdis : Backend.discharge record = some (call, x)) (hgentle : Gentle c w call) :
    Ensures x w (fun outcome w' => Healthy c w' ∧ Discharged w record k w' (.ok outcome))
      (fun fault w' => Healthy c w' ∧ Discharged w record k w' (.error fault)) := by
  obtain ⟨handle, hhandle, hx⟩ := ensures_discharge_answered hw hnames hdis hgentle.1
  have hle := hgentle.2
  rw [perform_discharge hdis, reply] at hle
  rw [Ensures] at hx ⊢
  cases hxw : x w with
  | ok outcome w' =>
    rw [hxw] at hx hle
    cases outcome with
    | complete =>
      obtain ⟨hhealthy, hcount⟩ := hw.step hx.1 hle
      exact ⟨hhealthy, hx.2, hcount⟩
    | pending receipt cause =>
      obtain ⟨rfl, ⟨s, hcore, -, hs⟩, hstep⟩ := hx
      have hone : Healthy c w' ∧ failures w' = failures w + 1 := by
        cases cause with
        | invalidation e | cleanup e => exact hw.step hstep hle
      exact ⟨hone.1, hhandle, ⟨s, hcore, hs⟩, hone.2⟩
  | error fault w' =>
    rw [hxw] at hx hle
    rcases hx with ⟨d, e, hstep, hp⟩ | ⟨hstep, hcore⟩
    · have := (hw.step hstep hle).1.operational
      rw [hp] at this
      cases this
    · obtain ⟨hhealthy, hcount⟩ := hw.step hstep hle
      exact ⟨hhealthy, hcore, hcount⟩

/-- The page record for a page that was mapped. -/
def mappedRecord : MapOutcome → PageRecord
  | .active handle => .active handle
  | .pending receipt _ => .mapPending receipt

/-- How mapping a page may end. -/
def Mapped (w w' : World n (Logged M) (EngineInvalidator R)) :
    Except SlptFault MapOutcome → Prop
  | .ok outcome => ∃ k r, (w.core.slots k).record = none ∧ w'.core = w.core.setRecord k r ∧
      (mappedRecord outcome).handle = some ⟨k.val.toUInt16, (w.core.slots k).generation⟩ ∧
      (mappedRecord outcome).Agrees r
  | .error _ => w'.core.slots = w.core.slots

theorem ensures_mapPage_gentle {iova physicalAddress : UInt64} {permissions : DmaPermissions}
    (hw : Healthy c w) (hgentle : Gentle c w (.mapPage iova physicalAddress permissions)) :
    Ensures (Slpt.mapPage iova physicalAddress permissions) w
      (fun outcome w' => Healthy c w' ∧ failures w ≤ failures w' ∧ Mapped w w' (.ok outcome))
      (fun fault w' => Healthy c w' ∧ failures w ≤ failures w' ∧ Mapped w w' (.error fault)) := by
  have hx : Ensures (Slpt.mapPage iova physicalAddress permissions) w _ _ :=
    ensures_mapPage (μ := watch c R) hw.sound
  have hle := hgentle.2
  rw [Call.perform, reply] at hle
  rw [Ensures] at hx ⊢
  cases hxw : Slpt.mapPage iova physicalAddress permissions w with
  | ok outcome w' =>
    rw [hxw] at hx hle
    obtain ⟨-, k, r, hk, hcore, -, hans⟩ := hx
    cases outcome with
    | active handle | pending receipt cause =>
      obtain ⟨rfl, hphase, hstep⟩ := hans
      obtain ⟨hhealthy, hcount⟩ := hw.step hstep hle
      exact ⟨hhealthy, by omega, k, r, hk, hcore, rfl, hphase⟩
  | error fault w' =>
    rw [hxw] at hx hle
    obtain ⟨-, -, d, hstep, -, hslots, -⟩ := hx
    obtain ⟨hhealthy, hcount⟩ := hw.step hstep hle
    exact ⟨hhealthy, by omega, hslots⟩

end PageCalls

end Sisyphus.Vtd
