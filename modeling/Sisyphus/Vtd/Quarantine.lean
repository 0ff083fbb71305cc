import Sisyphus.Vtd.Cleanup

/-!
# Draining quarantined batches

What a driver can rely on after failures, for every order of requests.  A page memory may fail any
number of times: as long as no page call meets two failures and none finds a table empty that
another page on its way out retains, the page-table core stays operational, and one attempt
without failures brings everything back (`run_drains`).  That attempt is a `release_domain` for all
batches, or an `unmap` for one.

An invalidation that fails is another matter.  The engine then goes out of service, and no request
brings it back: this is the last part of `run_drains`.  A page that waits for an invalidation keeps
its batch in quarantine for good, as the source's tests have it.

`quarantine_limits` shows that each of these restrictions is needed.
-/

set_option autoImplicit false

namespace Sisyphus.Vtd

open Fallible Slpt SlptPageMemory SlptInvalidator

namespace Backend

section

variable {pages batches maxBatchPages : Nat} {M R : Type} [SlptPageMemory M]
  [VtdRegisterBackend R]

/-! ## What comes back -/

/-- Every batch is gone, with its page records, its IOVAs and its tables. -/
structure Drained (c : Contract M) (b : Backend pages batches maxBatchPages (Logged M) R) :
    Prop where
  batches : ∀ i, (b.batches i).phase = .empty
  records : ∀ p, b.pageRecords p = .empty
  ledger : ∀ k, (b.world.core.slots k).record = none
  tables : ∀ f, c.owned b.world.memory.memory f ↔ f = b.world.core.root

/-- Batch `index` of `b` is gone in `t`, with its page records and its IOVAs, and the tables left
are those of other pages. -/
structure Returned (c : Contract M) (index : Fin batches)
    (b t : Backend pages batches maxBatchPages (Logged M) R) : Prop where
  phase : (t.batches index).phase = .empty
  records : ∀ p ∈ (b.batches index).pageSlots, t.pageRecords p = .empty
  iovas : ∀ p ∈ (b.batches index).pageSlots, ∀ k r, Names b.world.core (b.pageRecords p) k r →
    ∀ j s, t.world.core.At j s → s.iova ≠ r.iova
  tables : ∀ f, c.owned t.world.memory.memory f → t.world.core.frameIsKnown f = true

variable {c : Contract M} {P : EngineInvalidator R → Prop} {p : Fin pages} {i : EngineInvalidator R}
  {b t : Backend pages batches maxBatchPages (Logged M) R}

theorem Drained.of_empty (hinv : b.Inv c P) (hb : b.Gently c)
    (hempty : ∀ i, (b.batches i).phase = .empty) : Drained c b := by
  obtain ⟨hhealthy, htracks⟩ := hinv.settled hb
  have hrecords : ∀ p, b.pageRecords p = .empty := by
    intro p
    by_contra hp
    obtain ⟨i, hi, -⟩ := hinv.covered p hp
    exact hi (hempty i)
  have hledger : ∀ k, (b.world.core.slots k).record = none := by
    intro k
    by_contra hk
    obtain ⟨r, hr⟩ := Option.ne_none_iff_exists'.mp hk
    obtain ⟨p, hp⟩ := htracks.kept k r hr
    exact hp.ne_empty (hrecords p)
  refine ⟨hempty, hrecords, hledger, fun f => ?_⟩
  obtain ⟨T, hL, hst⟩ := hhealthy.sound hhealthy.operational
  refine (hst.owned f).trans ⟨?_, ?_⟩
  · rintro ⟨path, hpath⟩
    rcases Core.frameIsKnown_iff.mp (hL.known trivial path f hpath) with hf | ⟨k, r, _, hk, -⟩
    · exact hf
    · rw [Core.At, hledger k] at hk
      cases hk
  · rintro rfl
    exact ⟨[], hst.repr.root⟩

theorem Returned.of_done {index : Fin batches} (hinv : b.Inv c P)
    (hclean : Cleaned c P index (b.batches index).pageSlots b t)
    (hdone : Done c index (b.batches index).pageSlots b t) (ht : t.Gently c) :
    Returned c index b t := by
  obtain ⟨hhealthy, -⟩ := hinv.settled (hclean.later.gently ht)
  obtain ⟨hhealthy', -⟩ := hclean.inv.settled ht
  obtain ⟨T, hL, -⟩ := hhealthy.sound hhealthy.operational
  obtain ⟨T', hL', hst'⟩ := hhealthy'.sound hhealthy'.operational
  refine ⟨hdone.phase, hdone.records, fun p hp k r hnames j s hj hiova => ?_, fun f hf => ?_⟩
  · obtain ⟨hat, hnot⟩ := hdone.ledger ht j s hj
    obtain rfl := hL.iova_inj j k s r hat hnames.at hiova
    exact hnot p hp r hnames
  · obtain ⟨path, hpath⟩ := (hst'.owned f).mp hf
    exact hL'.known trivial path f hpath

/-! ## The engine -/

/-- No invalidation has failed as long as the engine is enabled. -/
def Honest (i : EngineInvalidator R) : Prop :=
  i.pollLimit ≠ 0 ∧
    (i.engine.state = .enabled → i.engine.ownedRoot.isSome = true ∧ i.failures = 0)

def OutOfService (i : EngineInvalidator R) : Prop := i.engine.state ≠ .enabled

theorem survives_honest : Survives (Honest (R := R)) where
  invalidate iova i := by
    rintro ⟨hpoll, hi⟩
    have h : Ensures (Engine.commitTableUpdate i.pollLimit) i.engine _ _ :=
      Engine.ensures_commitTableUpdate
    rw [Ensures] at h ⊢
    simp only [invalidateAfterPageTableChange]
    cases hx : Engine.commitTableUpdate i.pollLimit i.engine with
    | ok a engine =>
      rw [hx] at h
      obtain ⟨hwas, his, hroot⟩ := h
      refine ⟨hpoll, fun _ => ?_⟩
      rw [hroot]
      exact hi hwas
    | error fault engine =>
      rw [hx] at h
      obtain ⟨-, hpoisoned | ⟨hsame, hrefused⟩⟩ := h
      · exact ⟨hpoll, fun he => absurd (hpoisoned.symm.trans he) (by decide)⟩
      · refine ⟨hpoll, fun he => ?_⟩
        rw [hsame] at he
        rcases hrefused with hstate | hzero | hroot
        · exact absurd he hstate
        · exact absurd hzero hpoll
        · simp [hroot] at hi
          exact absurd he hi
  disable i := by
    rintro ⟨hpoll, hi⟩
    refine Engine.ensures_disable.mono ?_ ?_
    · rintro _ engine ⟨-, hstate, -⟩
      exact ⟨hpoll, fun he => absurd (hstate.symm.trans he) (by decide)⟩
    · rintro _ engine ⟨hroot, hsame | ⟨-, hpoisoned⟩⟩
      · refine ⟨hpoll, fun he => ?_⟩
        rw [hroot]
        exact hi (hsame.symm.trans he)
      · exact ⟨hpoll, fun he => absurd (hpoisoned.symm.trans he) (by decide)⟩

omit [VtdRegisterBackend R] in
theorem OutOfService.of_poisoned (h : i.engine.state = .poisoned) :
    OutOfService i := fun he => absurd (h.symm.trans he) (by decide)

/-- Out of service, every invalidation fails. -/
theorem ensures_invalidate_outOfService {iova : UInt64} (hi : OutOfService i) :
    Ensures (invalidateAfterPageTableChange iova) i (fun _ _ => False)
      fun _ i' => OutOfService i' := by
  have h : Ensures (Engine.commitTableUpdate i.pollLimit) i.engine _ _ :=
    Engine.ensures_commitTableUpdate
  rw [Ensures] at h ⊢
  simp only [invalidateAfterPageTableChange]
  cases hx : Engine.commitTableUpdate i.pollLimit i.engine with
  | ok a engine =>
    rw [hx] at h
    exact hi h.1
  | error fault engine =>
    rw [hx] at h
    obtain ⟨-, hpoisoned | ⟨hsame, -⟩⟩ := h
    · exact .of_poisoned hpoisoned
    · exact fun he => hi (hsame ▸ he)

theorem survives_outOfService : Survives (OutOfService (R := R)) where
  invalidate _ _ hi := (ensures_invalidate_outOfService hi).imp_ok (fun _ _ h => h.elim)
  disable i hi := by
    refine Engine.ensures_disable.mono (fun _ _ h => absurd h.1 hi) ?_
    rintro _ engine ⟨-, hsame | ⟨hwas, -⟩⟩
    · exact fun he => hi (hsame.symm.trans he)
    · exact absurd hwas hi

/-! ## From the start -/

variable {scope : VtdRequesterScope} {registers : R} {memory : M} {tables : RootContextTables}
variable {slptRoot : SlptFrame} {domainId : UInt16} {pollLimit : UInt32}

theorem build_ok {memory : Logged M}
    (h : build pages batches maxBatchPages scope registers memory tables slptRoot
      domainId pollLimit = .ok b) :
    pollLimit ≠ 0 ∧ ∃ engine config rootPa, b.world.invalidator = ⟨b.engine, pollLimit, none, 0⟩ ∧
      attach pages memory slptRoot config = (.ok b.world.core, b.world.memory) ∧
      (∃ receipt, Engine.enable rootPa pollLimit engine = .ok receipt b.engine) ∧
      ∀ p, b.pageRecords p = .empty := by
  simp only [build, bind, Except.bind, pure, Except.pure, throw, throwThe, MonadExceptOf.throw] at h
  split at h
  · cases h
  split at h
  · cases h
  next engine _ hcapacity =>
  iterate 3
    split at h
    · cases h
  split at h
  · split at h
    · cases h
    next core m hattach =>
    split at h
    · cases h
    split at h
    · cases h
    split at h
    · cases h
    next receipt engine' henable =>
    cases h
    refine ⟨?_, engine, _, _, rfl, hattach, ⟨receipt, henable⟩, fun _ => rfl⟩
    rintro rfl
    simp at hcapacity
  · cases h

theorem attach_capacity {I : Type} [SlptPageMemory I] {m m' : I} {root : SlptFrame}
    {config : SlptConfig} {core : Core pages} (h : attach pages m root config = (.ok core, m')) :
    pages ≤ 65535 := by
  obtain ⟨hcapacity, -⟩ := ite_error_prod_eq_ok.mp h
  simp only [Bool.or_eq_true, decide_eq_true_eq, not_or] at hcapacity
  omega

/-- A backend that has just been built. -/
theorem Inv.of_build (hroot : ∀ f, c.owned memory f ↔ f = slptRoot)
    (h : build pages batches maxBatchPages scope registers (⟨memory, []⟩ : Logged M)
      tables slptRoot domainId pollLimit = .ok b) : pages ≤ 65535 ∧ b.Inv c Honest := by
  obtain ⟨hpoll, engine, config, rootPa, hinvalidator, hattach, ⟨receipt, henable⟩, hrecords⟩ :=
    build_ok h
  obtain ⟨hstate, hran, hslots, hL, hst⟩ := attach_ok (watch c R) True hattach hroot
  refine ⟨attach_capacity hattach, ?_, fun p hp => absurd (hrecords p) hp, fun _ => ?_⟩
  · rw [hinvalidator]
    exact ⟨hpoll, fun _ => ⟨Engine.ensures_enable.of_ok henable, rfl⟩⟩
  · refine ⟨⟨fun _ => ⟨_, hL, hst⟩, (hran trivial ⟨.nil, fun _ _ => rfl⟩).1, hstate⟩, ?_⟩
    refine ⟨fun p hp => absurd (hrecords p) hp, fun k r hk => ?_, fun p _ _ _ _ hp => ?_⟩
    · rw [Core.At, hslots k] at hk
      cases hk
    · exact absurd (hrecords p) hp.ne_empty

/-- **The books agree after every run.**  Whatever fails, a page record in use belongs to a batch in
use; and while the page calls are gentle, page records and mappings correspond one to one. -/
theorem books_agree (hroot : ∀ f, c.owned memory f ↔ f = slptRoot)
    (h : build pages batches maxBatchPages scope registers (⟨memory, []⟩ : Logged M)
      tables slptRoot domainId pollLimit = .ok b)
    (requests : List Request) : (b.run requests).Inv c Honest := by
  obtain ⟨hpages, hinv⟩ := Inv.of_build hroot h
  exact hinv.run survives_honest hpages requests

/-- **One attempt without failures drains the quarantine**, and the core stays operational until
then.  Only an invalidation that fails is final. -/
theorem run_drains (c : Contract M) {b₀ : Backend pages batches maxBatchPages (Logged M) R}
    (hroot : ∀ f, c.owned memory f ↔ f = slptRoot)
    (hbuild : build pages batches maxBatchPages scope registers (⟨memory, []⟩ : Logged M)
      tables slptRoot domainId pollLimit = .ok b₀)
    (requests : List Request) (h : (b₀.run requests).Gently c) :
    (b₀.run requests).world.core.state = .operational ∧
      (∀ domain, (b₀.run requests).validDomain domain = true →
        ∀ b', ((b₀.run requests).perform (.releaseDomain domain)).2 = b' → b'.Gently c →
          failures b'.world = failures (b₀.run requests).world → Drained c b') ∧
      (∀ domain deviceAddress length i, (b₀.run requests).validDomain domain = true →
        (b₀.run requests).Matches deviceAddress length i →
        ∀ b', ((b₀.run requests).perform (.unmap domain deviceAddress length)).2 = b' →
          b'.Gently c → failures b'.world = failures (b₀.run requests).world →
          ∃ index, (b₀.run requests).Matches deviceAddress length index ∧
            Returned c index (b₀.run requests) b') ∧
      (0 < (b₀.run requests).world.invalidator.failures →
        ∀ more, ((b₀.run requests).run more).engine.state ≠ .enabled) := by
  obtain ⟨hpages, hinv₀⟩ := Inv.of_build hroot hbuild
  have hinv := hinv₀.run survives_honest hpages requests
  generalize b₀.run requests = b at hinv h
  refine ⟨(hinv.settled h).1.operational, ?_, ?_, ?_⟩
  · rintro domain hvalid b' rfl hb' hcount
    have hens := ensures_answer Answer.status (ensures_releaseDomain domain survives_honest hinv)
    rcases hens with ⟨_, hinv', -, hempty⟩ | ⟨_, -, -, hstuck⟩
    · exact .of_empty hinv' hb' hempty
    · exact absurd (hstuck hvalid hb') hcount.not_gt
  · rintro domain deviceAddress length i hvalid hmatch b' rfl hb' hcount
    have hens := ensures_answer Answer.status
      (ensures_unmapSpan domain deviceAddress length survives_honest hinv)
    rcases hens with ⟨_, index, hclean, hfound, hdone | hstuck⟩ | ⟨_, -, hnone⟩
    · exact ⟨index, hfound, .of_done hinv hclean hdone hb'⟩
    · exact absurd (hstuck hb') hcount.not_gt
    · exact absurd hmatch (hnone hvalid i)
  · intro hfailed more
    have hout : OutOfService b.world.invalidator := fun he => by
      have := (hinv.device.2 he).2
      omega
    have hinv' : b.Inv c OutOfService := ⟨hout, hinv.covered, hinv.settled⟩
    exact (hinv'.run survives_outOfService hpages more).device

/-! ## A page that waits for an engine out of service -/

/-- The only batch is in quarantine, and its first page waits for an invalidation that will not
happen. -/
structure Stranded (b : Backend pages 1 maxBatchPages (Logged M) R) (p : Fin pages)
    (receipt : UnmapReceipt) : Prop where
  phase : (b.batches 0).phase = .quarantined
  slots : (b.batches 0).pageSlots.head? = some p
  record : b.pageRecords p = .unmapPending receipt
  operational : b.world.core.state = .operational
  waiting : (b.world.core.recordIndex receipt.handle).toOption.map (·.2.phase) =
    some .awaitingUnmapInvalidation
  engine : OutOfService b.world.invalidator

variable {b : Backend pages 1 maxBatchPages (Logged M) R} {receipt : UnmapReceipt}

theorem ensures_finishUnmap_outOfService {w : World pages (Logged M) (EngineInvalidator R)}
    (hstate : w.core.state = .operational)
    (hwaiting : (w.core.recordIndex receipt.handle).toOption.map (·.2.phase) =
      some .awaitingUnmapInvalidation) (hengine : OutOfService w.invalidator) :
    Ensures (finishUnmap receipt) w
      (fun outcome w' => w'.core = w.core ∧ OutOfService w'.invalidator ∧
        ∃ fault, outcome = .pending receipt fault) fun _ _ => False := by
  cases hindex : w.core.recordIndex receipt.handle with
  | error e =>
    rw [hindex] at hwaiting
    cases hwaiting
  | ok found =>
    obtain ⟨k, r⟩ := found
    rw [hindex] at hwaiting
    have hphase : r.phase = .awaitingUnmapInvalidation := Option.some.inj hwaiting
    simp only [finishUnmap, ensureOperational, ensures_rules, hstate, bne_self_eq_false, hindex,
      reduceCtorEq]
    rintro _ ⟨⟩
    rw [if_pos hphase, ensures_bind, ensures_onInvalidator]
    exact (ensures_invalidate_outOfService hengine).mono (fun _ _ h => h.elim)
      fun e i hi => ⟨rfl, hi, _, rfl⟩

/-- A cleanup gets nowhere. -/
theorem Stranded.ensures_cleanupBatch (h : b.Stranded p receipt) :
    Ensures (cleanupBatch 0) b (fun done t => done = false ∧ t.Stranded p receipt)
      fun _ _ => False := by
  obtain ⟨rest, hslots⟩ : ∃ rest, (b.batches 0).pageSlots = p :: rest := by
    have := h.slots
    cases hl : (b.batches 0).pageSlots with
    | nil => simp [hl] at this
    | cons q rest =>
      obtain rfl : q = p := by simpa [hl] using this
      exact ⟨rest, rfl⟩
  rw [cleanupBatch, ensures_bind, ensures_get, hslots, cleanupPages, ensures_bind, ensures_get,
    h.record]
  simp only [discharge, onSlpt, ensures_bind, ensures_within]
  refine (ensures_finishUnmap_outOfService h.operational h.waiting h.engine).mono ?_
    fun _ _ h => h.elim
  rintro _ w' ⟨hcore, hengine, fault, rfl⟩
  simp only [setPageRecord, poisonWithEngine, setBatch, ensures_rules]
  refine ⟨by simp, ?_, by simp, hcore ▸ h.operational, hcore ▸ h.waiting, hengine⟩
  dsimp only
  exact h.slots

/-- **A stranded batch stays**, whatever is requested. -/
theorem Stranded.perform (h : b.Stranded p receipt) (request : Request) :
    (b.perform request).2.Stranded p receipt := by
  have hanswer : ∀ {α : Type} {ok : α → Answer}
      {x : EStateM Status (Backend pages 1 maxBatchPages (Logged M) R) α},
      Ensures x b (fun _ t => t.Stranded p receipt) (fun _ t => t.Stranded p receipt) →
      (answer ok x b).2.Stranded p receipt := by
    intro α ok x h
    rcases ensures_answer ok h with ⟨_, h⟩ | ⟨_, h⟩ <;> exact h
  have hbatch : ∀ i : Fin 1, (b.batches i).phase = .quarantined := by
    intro i
    rw [Subsingleton.elim i 0]
    exact h.phase
  cases request with
  | isolateDevice device =>
    refine hanswer ?_
    simp only [isolateDevice, ensures_rules, h]
    exact fun _ _ _ _ => ⟨h.phase, h.slots, h.record, h.operational, h.waiting, h.engine⟩
  | map domain deviceAddress physicalAddress length access =>
    refine hanswer ?_
    simp only [mapSpan, ensures_rules, h]
    intro _ hquarantine
    simp [hbatch] at hquarantine
  | unmap domain deviceAddress length =>
    refine hanswer ?_
    simp only [unmapSpan, ensures_rules, h, setBatch, ensures_attempt]
    intro _ index _
    obtain rfl : index = 0 := Subsingleton.elim ..
    have h' : (b.putBatch 0 { b.batches 0 with phase := .quarantined }).Stranded p receipt := by
      refine ⟨by simp, ?_, h.record, h.operational, h.waiting, h.engine⟩
      exact h.slots
    refine h'.ensures_cleanupBatch.mono ?_ fun _ _ h => h.elim
    rintro _ t ⟨rfl, ht⟩
    exact ht
  | releaseDomain domain =>
    refine hanswer ?_
    simp only [releaseDomain, ensures_rules, h]
    intro _
    have hloop : Ensures (cleanupBatches (List.finRange 1)) b
        (fun failed t => failed = true ∧ t.Stranded p receipt)
        (fun (_ : Status) t => t.Stranded p receipt) := by
      rw [show List.finRange 1 = [0] from rfl, cleanupBatches, ensures_bind, ensures_get, hbatch]
      simp only [bne_iff_ne, ne_eq, reduceCtorEq, not_false_eq_true, if_true, ensures_bind,
        ensures_attempt]
      refine h.ensures_cleanupBatch.mono ?_ fun _ _ h => h.elim
      rintro _ t ⟨rfl, ht⟩
      exact ⟨rfl, ht⟩
    refine hloop.imp_ok ?_
    rintro _ t ⟨rfl, ht⟩
    exact ⟨fun _ => ht, fun hnot => by simp at hnot⟩

theorem Stranded.run (h : b.Stranded p receipt) (requests : List Request) :
    (b.run requests).Stranded p receipt :=
  Run.invariant_final (I := fun b => Stranded b p receipt) (fun _ request h => h.perform request) h

end

end Backend

/-! ## A remapping unit -/

/-- The registers of a unit with 30 bits of addresses, which rejects some of the IOTLB
invalidations that it is asked for. -/
structure Board where
  status : UInt32
  root : UInt64
  context : UInt64
  iotlb : UInt64
  /-- Which of the next IOTLB invalidations are rejected. -/
  rejects : List Bool

namespace Board

def capability : UInt64 := 0x1d0100
def extendedCapability : UInt64 := 0x1000
def iotlbOffset : Nat := 0x108

/-- The unit does what it is told at once. -/
def command (value : UInt32) (board : Board) : Board :=
  { board with
    status := (value &&& gcmdTe) ||| ((board.status ||| value) &&& gstsRtps) }

def invalidateIotlb (board : Board) : Board :=
  match board.rejects with
  | true :: rest => { board with iotlb := 0, rejects := rest }
  | false :: rest => { board with iotlb := iotlbIaigGlobal, rejects := rest }
  | [] => { board with iotlb := iotlbIaigGlobal }

instance : VtdRegisterBackend Board where
  readU32 offset := do
    let board ← get
    if offset = ver then return 0x10
    else if offset = gsts then return board.status
    else return 0
  writeU32 offset value := modify fun board =>
    if offset = gcmd then command value board else board
  readU64 offset := do
    let board ← get
    if offset = cap then return capability
    else if offset = ecap then return extendedCapability
    else if offset = rtaddr then return board.root
    else if offset = ccmd then return board.context
    else if offset = iotlbOffset then return board.iotlb
    else return 0
  writeU64 offset value := modify fun board =>
    if offset = rtaddr then { board with root := value }
    else if offset = ccmd then { board with context := ccmdCaigGlobal }
    else if offset = iotlbOffset then board.invalidateIotlb
    else board
  relax board := board

end Board

namespace Backend

/-! ## Sample runs -/

def sampleScope : VtdRequesterScope := ⟨0, 0xfed90000, ⟨0, 3, 0⟩⟩

def sampleTables : RootContextTables := ⟨fun _ => (0, 0), 0x200000, fun _ _ => (0, 0), 0x201000⟩

def samplePoolOf (failures : List Bool) : Pool := ⟨[sampleRoot], fun _ _ => 0, failures⟩

/-- A backend on the pool and the board, of which some calls fail. -/
def sampleBuild (batches : Nat) (failures rejects : List Bool) :
    Except VtdBackendBuildFault (Backend 2 batches 1 (Logged Pool) Board) :=
  build 2 batches 1 sampleScope (⟨0, 0, 0, 0, rejects⟩ : Board)
    (⟨samplePoolOf failures, []⟩ : Logged Pool) sampleTables sampleRoot 1 1

theorem owned_samplePoolOf (failures : List Bool) (f : SlptFrame) :
    Pool.contract.owned (samplePoolOf failures) f ↔ f = sampleRoot := by
  simp [samplePoolOf, Pool.contract, Pool.view]

instance {pages batches maxBatchPages : Nat} {M R : Type} [SlptPageMemory M] [VtdRegisterBackend R]
    (c : Contract M) (b : Backend pages batches maxBatchPages (Logged M) R) :
    Decidable (b.Gently c) := by
  unfold Gently
  infer_instance

def sampleDomain : Handle := domainHandle 1

/-- Two batches of a page each, whose tables are the same.  The first one is unmapped. -/
def twoBatches : List Request :=
  [.isolateDevice ⟨0, 3, 0⟩, .map sampleDomain 0x0000 0x100000 0x1000 ⟨3⟩,
    .map sampleDomain 0x1000 0x101000 0x1000 ⟨3⟩, .unmap sampleDomain 0x0000 0x1000]

/-- The read that fails is the one by which the first unmap looks whether the table is empty. -/
def readFails : List Bool := List.replicate 523 false ++ [true]

theorem isSome_readFails : (sampleBuild 2 readFails []).toOption.isSome = true := by decide +kernel

def readFailsBackend : Backend 2 2 1 (Logged Pool) Board :=
  (sampleBuild 2 readFails []).toOption.get isSome_readFails

theorem twoBatches_release : (readFailsBackend.run twoBatches).validDomain sampleDomain = true ∧
    ((readFailsBackend.run twoBatches).perform
      (.releaseDomain sampleDomain)).2.Gently Pool.contract ∧
    failures ((readFailsBackend.run twoBatches).perform (.releaseDomain sampleDomain)).2.world =
      failures (readFailsBackend.run twoBatches).world := by
  decide +kernel

/-- A batch is in quarantine after a read has failed, and `release_domain` drains it. -/
theorem twoBatches_drained : failures (readFailsBackend.run twoBatches).world = 1 ∧
      ((readFailsBackend.run twoBatches).batches 0).phase = .quarantined ∧
      Drained Pool.contract
        ((readFailsBackend.run twoBatches).perform (.releaseDomain sampleDomain)).2 :=
  ⟨by decide +kernel, by decide +kernel,
    (run_drains Pool.contract (owned_samplePoolOf readFails) (eq_ok_get _ isSome_readFails)
      twoBatches (by decide +kernel)).2.1 sampleDomain twoBatches_release.1 _ rfl
      twoBatches_release.2.1 twoBatches_release.2.2⟩

theorem twoBatches_books : (readFailsBackend.run twoBatches).Inv Pool.contract Honest :=
  books_agree (owned_samplePoolOf readFails) (eq_ok_get _ isSome_readFails) twoBatches

/-! ## What the restrictions are for -/

def oneBatch : List Request :=
  [.isolateDevice ⟨0, 3, 0⟩, .map sampleDomain 0x0000 0x100000 0x1000 ⟨3⟩,
    .unmap sampleDomain 0x0000 0x1000]

/-- The unit rejects the invalidation after the page has been taken out. -/
def rejected : List Bool := [false, false, true]

/-- The table is not taken back, and neither is the entry that leads to it restored. -/
def releaseFailsTwice : List Bool := List.replicate 1034 false ++ [true, true]

/-- The state a run from `build` ends in, if there is one. -/
def sampleRun (batches : Nat) (failures rejects : List Bool) (requests : List Request) :
    Option (Backend 2 batches 1 (Logged Pool) Board) :=
  (sampleBuild batches failures rejects).toOption.map (·.run requests)

theorem isSome_rejected : (sampleRun 1 [] rejected oneBatch).isSome = true := by decide +kernel

def rejectedBackend : Backend 2 1 1 (Logged Pool) Board :=
  (sampleRun 1 [] rejected oneBatch).get isSome_rejected

theorem stranded_rejected : rejectedBackend.Stranded 0 ⟨⟨0, 1⟩⟩ :=
  ⟨by decide +kernel, by decide +kernel, by decide +kernel, by decide +kernel, by decide +kernel,
    .of_poisoned (by decide +kernel)⟩

/-- What a failure can do otherwise.  One invalidation that is rejected keeps its batch in
quarantine for good, two failures in one page call poison the core, and so does one failed read if
the table was given back in between. -/
theorem quarantine_limits :
    (∃ b, sampleRun 1 [] rejected oneBatch = some b ∧ b.world.core.state = .operational ∧
      b.world.invalidator.failures = 1 ∧
      ∀ requests, ((b.run requests).batches 0).phase = .quarantined) ∧
    (sampleRun 1 releaseFailsTwice [] oneBatch).map
      (fun b => (failures b.world, b.world.core.state)) = some (2, .poisoned) ∧
    (sampleRun 2 readFails [] (twoBatches ++
        [.unmap sampleDomain 0x1000 0x1000, .releaseDomain sampleDomain])).map
      (fun b => (failures b.world, b.world.core.state, (b.batches 0).phase)) =
        some (1, .poisoned, .quarantined) :=
  ⟨⟨rejectedBackend, (Option.some_get _).symm, by decide +kernel, by decide +kernel,
    fun requests => (stranded_rejected.run requests).phase⟩, by decide +kernel, by decide +kernel⟩

end Backend

end Sisyphus.Vtd
