import Sisyphus.Foundation.Run
import Sisyphus.Xhci.Submission

/-!
# The command ring is a queue

`initialize` clears both rings while the controller is off.  From then on, for every sequence of
calls and whatever the controller does in between, down to single bytes, it executes the commands
that were submitted, once and in order, and the only other blocks that it ever takes are links.
-/

set_option autoImplicit false

namespace Sisyphus.Xhci

open Bytes CycleRing Fallible List

namespace XhciRingMachine

variable {E : Type} {env : Environment E} {machine : XhciRingMachine} {w : World} {p q : Nat}

/-! ## Bringing the rings up -/

/-- What the driver's writes leave alone. -/
def Kept (w w' : World) : Prop := w'.region = w.region ∧ w'.controller = w.controller

section

variable (hoff : w.controller.running = false)
include hoff

theorem turn_of_off : w.turn env = { w with clock := w.clock + 1 } := by
  have hstep : ∀ step, w.step step = w := by
    intro step
    cases step <;> rw [World.step, if_neg (by rw [hoff]; decide)]
  have hall : ∀ steps : List Step, steps.foldl World.step w = w := by
    intro steps
    induction steps with
    | nil => rfl
    | cons step rest ih => rw [foldl_cons, hstep, ih]
  rw [World.turn, hall]

theorem store_of_off (purpose : XhciDmaPurpose) (offset : Nat) (bytes : List UInt8) :
    Kept w (w.store env purpose offset bytes) ∧ (w.store env purpose offset bytes).page =
      Function.update w.page purpose (patch (w.page purpose) offset bytes) := by
  induction bytes generalizing w offset with
  | nil =>
    rw [World.store, turn_of_off hoff, patch, Function.update_eq_self]
    exact ⟨⟨rfl, rfl⟩, rfl⟩
  | cons byte rest ih =>
    rw [World.store, turn_of_off hoff]
    obtain ⟨hkept, hpage⟩ := ih (w := World.poke { w with clock := w.clock + 1 } purpose offset
      byte) hoff (offset + 1)
    refine ⟨hkept, hpage.trans ?_⟩
    rw [World.poke]
    dsimp only
    rw [Function.update_self, Function.update_idem, patch]

theorem ensures_write_off (purpose : XhciDmaPurpose) (offset : Nat) (bytes : List UInt8) :
    Ensures (orStorage (write env purpose offset bytes)) w (fun _ w' => Kept w w' ∧
        w'.page = Function.update w.page purpose (patch (w.page purpose) offset bytes))
      (fun _ w' => Kept w w') := by
  refine ensures_write (store_of_off hoff purpose offset bytes) fun _ => ?_
  rw [turn_of_off hoff]
  exact ⟨rfl, rfl⟩

theorem ensures_zeroRing (purpose : XhciDmaPurpose) : Ensures (zeroRing env purpose) w
      (fun _ w' => Kept w w' ∧ (∀ i < trbsPerPage, slot (w'.page purpose) i = RawTrb.zero) ∧
        ∀ other, other ≠ purpose → w'.page other = w.page other)
      (fun _ w' => Kept w w') := by
  refine ensures_forM_range (I := fun n w' => Kept w w' ∧
    (∀ i < n, slot (w'.page purpose) i = RawTrb.zero) ∧
    ∀ other, other ≠ purpose → w'.page other = w.page other)
    ⟨⟨rfl, rfl⟩, fun i hi => absurd hi (Nat.not_lt_zero i), fun _ _ => rfl⟩ ?_
  rintro n - w₁ ⟨⟨hregion, hcontroller⟩, hzero, hother⟩
  refine (ensures_write_off (by rw [hcontroller]; exact hoff) purpose _ _).mono ?_ ?_
  · rintro _ w₂ ⟨⟨hregion₂, hcontroller₂⟩, hpage⟩
    refine ⟨⟨hregion₂.trans hregion, hcontroller₂.trans hcontroller⟩, fun i hi => ?_,
      fun other hne => ?_⟩
    · rw [hpage, Function.update_self, Nat.mul_comm, slot_patch]
      split
      · rfl
      · exact hzero i (by omega)
    · rw [hpage, Function.update_of_ne hne, hother other hne]
  · rintro _ w₂ ⟨hregion₂, hcontroller₂⟩
    exact ⟨hregion₂.trans hregion, hcontroller₂.trans hcontroller⟩

end

theorem Kept.trans {w₁ w₂ w₃ : World} (h : Kept w₁ w₂) (h' : Kept w₂ w₃) : Kept w₁ w₃ :=
  ⟨h'.1.trans h.1, h'.2.trans h.2⟩

theorem Kept.off {w' : World} (h : Kept w w') (hoff : w.controller.running = false) :
    w'.controller.running = false := by
  rw [h.2, hoff]

theorem validatedRegion_eq_ok {purpose : XhciDmaPurpose} {generation : Option UInt32}
    {record : XhciDmaRegionRecord}
    (h : validatedRegion w purpose generation =
      (.ok record : Except (XhciRingError E) XhciDmaRegionRecord)) :
    w.region purpose = some record ∧ record.deviceAddressStart.toNat % pageSize = 0 ∧
      record.deviceAddressStart.toNat + pageSize < 2 ^ 64 := by
  rw [validatedRegion] at h
  cases hregion : w.region purpose with
  | none => simp [hregion, throw, throwThe, MonadExceptOf.throw] at h
  | some record' =>
    simp only [hregion, bind, Except.bind, pure, Except.pure, throw, throwThe,
      MonadExceptOf.throw] at h
    split_ifs at h
    simp_all

theorem start_dequeue {base : UInt64} (haligned : base.toNat % pageSize = 0) :
    (base ||| 1) &&& ~~~0x3f = base ∧ ((base ||| 1) &&& 1 != 0) = true := by
  have hor : (base ||| 1).toNat = base.toNat + 1 := by
    have h := Nat.two_pow_add_eq_or_of_lt (show 1 < 2 ^ 12 by decide) (base.toNat / 2 ^ 12)
    rw [pageSize] at haligned
    rw [show 2 ^ 12 * (base.toNat / 2 ^ 12) = base.toNat by omega] at h
    exact h.symm
  constructor
  · refine UInt64.toNat_inj.mp ?_
    rw [Words.toNat_and_not (k := 6) rfl, hor]
    rw [pageSize] at haligned
    omega
  · rw [bne_iff_ne, Ne, ← UInt64.toNat_inj, UInt64.toNat_and, hor,
      show (1 : UInt64).toNat = 1 from rfl, Nat.and_one_is_mod]
    rw [pageSize] at haligned
    show ¬(base.toNat + 1) % 2 = 0
    omega

/-- The rings as they are when the controller is switched on. -/
theorem tracks_start {region : XhciDmaRegionRecord} (hregion : w.region .commandRing = some region)
    (haligned : region.deviceAddressStart.toNat % pageSize = 0)
    (hfits : region.deviceAddressStart.toNat + pageSize < 2 ^ 64)
    (hcommand : ∀ i < commandCapacity, slot (w.page .commandRing) i = RawTrb.zero)
    (hevent : ∀ i < eventCapacity, slot (w.page .eventRing) i = RawTrb.zero)
    (hbase : machine.commandDeviceBase = region.deviceAddressStart)
    (hproducer : machine.producerIndex = 0 ∧ machine.producerCycle = true)
    (hevents : machine.eventIndex = 0 ∧ machine.eventCycle = true)
    (hnone : machine.outstanding = none) :
    Tracks 0 0 machine { w with controller := .start machine.registerProgram } := by
  obtain ⟨hdequeue, hcycle⟩ := start_dequeue haligned
  have hquiet : ∀ i, ¬Fresh 0 (w.page .eventRing) i := by
    rintro i ⟨hi, hreport, -⟩
    rw [hevent i hi] at hreport
    exact absurd hreport (by decide)
  refine ⟨⟨rfl, ⟨region, hregion, hbase.symm⟩, by rwa [hbase], ⟨fun i hi => ?_, fun k _ hk => ?_,
    fun _ hle => ?_, .inl ⟨?_, ?_⟩, rfl, fun x hx => ?_, le_rfl, Nat.zero_le _⟩,
    ⟨fun _ i hi => ?_, 0, fun i hi => ?_⟩, le_rfl, le_rfl, Nat.zero_le
      _⟩, by rwa [hbase], ?_, ?_, ?_,
    ?_, ?_⟩
  · rw [← cycle_slot, hcommand i hi]
    rfl
  · exact absurd hk (Nat.not_lt_zero k)
  · exact absurd hle (by decide)
  · rw [hbase, Controller.start, registerProgram, hbase]
    exact hdequeue.trans (UInt64.add_zero _).symm
  · rw [Controller.start, registerProgram, hbase]
    exact hcycle.trans (show true = lapCycle commandCapacity 0 by decide)
  · cases hx
  · exact absurd hi (hquiet i)
  · exact absurd hi (hquiet i)
  · rw [hproducer.1]; rfl
  · rw [hproducer.2]; rfl
  · rw [hevents.1]; rfl
  · rw [hevents.2]; rfl
  · rw [hnone]; rfl

theorem ensures_initializeInner (hoff : w.controller.running = false) (secret : UInt64)
    (expectedGeneration : Option UInt32) :
    Ensures (initializeInner env secret expectedGeneration) w (fun machine w' =>
        Tracks 0 0 machine { w' with controller := .start machine.registerProgram })
      (fun _ w' => Kept w w') := by
  have hself : Kept w w := ⟨rfl, rfl⟩
  simp only [initializeInner, ensures_rules, hself]
  intro _ command hcommand _ event _ erst _ _
  obtain ⟨hregion, haligned, hfits⟩ := validatedRegion_eq_ok hcommand
  refine (ensures_zeroRing hoff .commandRing).imp_ok ?_
  rintro _ w₁ ⟨hkept₁, hzero₁, -⟩
  refine (ensures_zeroRing (hkept₁.off hoff) .eventRing).mono ?_ fun _ _ h => hkept₁.trans h
  rintro _ w₂ ⟨hkept₂, hzero₂, hother₂⟩
  have hkept := hkept₁.trans hkept₂
  -- The blocks that were cleared stay so while the link is written.
  refine (ensures_publishTrb (J := fun w' => Kept w w' ∧
      (∀ i < commandCapacity, slot (w'.page .commandRing) i = RawTrb.zero) ∧
      w'.page .eventRing = w₂.page .eventRing) ?_ ?_ _ _ ⟨hkept, ?_, rfl⟩).mono ?_ fun _ _ h => h.1
  · rintro w' ⟨hkept', hzero', hevent'⟩
    rw [turn_of_off (hkept'.off hoff)]
    exact ⟨hkept', hzero', hevent'⟩
  · rintro k hk byte w' ⟨hkept', hzero', hevent'⟩
    refine ⟨hkept', fun i hi => ?_, ?_⟩
    · rw [page_poke, slot_update_of_ne hk (show i ≠ commandLinkIndex from Nat.ne_of_lt hi),
        hzero' i hi]
    · rw [World.poke]
      dsimp only
      rw [Function.update_of_ne (by decide), hevent']
  · intro i hi
    rw [hother₂ _ (by decide)]
    exact hzero₁ i (Nat.lt_succ_of_lt hi)
  · rintro _ w₃ ⟨⟨hkept₃, hzero₃, hevent₃⟩, -⟩
    refine (ensures_write_off (hkept₃.off hoff) _ _ _).mono ?_ fun _ _ h => hkept₃.trans h
    rintro _ w₄ ⟨hkept₄, hpage₄⟩
    have hregion₄ : w₄.region .commandRing = some command := by
      rw [(hkept₃.trans hkept₄).1, hregion]
    refine tracks_start hregion₄ haligned hfits ?_ ?_ rfl ⟨rfl, rfl⟩ ⟨rfl, rfl⟩ rfl
    · rw [hpage₄, Function.update_of_ne (by decide)]
      exact hzero₃
    · rw [hpage₄, Function.update_of_ne (by decide), hevent₃]
      exact hzero₂

end XhciRingMachine

/-! ## Runs -/

namespace System

open XhciRingMachine

variable {E : Type} {env : Environment E} {s : System}

/-- The commands that were submitted, as the controller is to see them. -/
def submitted (s : System) : List (UInt64 × RawTrb) :=
  s.receipts.map fun receipt => (receipt.commandDeviceAddress, noOpTrb receipt.producerCycle)

/-- The receipts number the commands. -/
structure Inv (s : System) : Prop where
  off : s.machine = none → s.world.controller.running = false ∧
    s.world.controller.observed = [] ∧ s.receipts = []
  on : ∀ machine, s.machine = some machine → ∃ q, Tracks s.receipts.length q machine s.world ∧
    s.submitted = (List.range s.receipts.length).map (command machine.commandDeviceBase)

theorem Inv.of_off {world : World} (hoff : world.controller.running = false)
    (hobserved : world.controller.observed = []) : Inv ⟨world, none, []⟩ :=
  ⟨fun _ => ⟨hoff, hobserved, rfl⟩, fun machine h => by cases h⟩

variable {machine : XhciRingMachine}

theorem Inv.of_tracks {q : Nat} (hmachine : s.machine = some machine)
    (htracks : Tracks s.receipts.length q machine s.world)
    (hsubmitted : s.submitted = (range s.receipts.length).map (command machine.commandDeviceBase)) :
    Inv s := by
  refine ⟨fun h => ?_, fun machine' h => ?_⟩
  · rw [hmachine] at h
    cases h
  · obtain rfl : machine = machine' := Option.some.inj (hmachine.symm.trans h)
    exact ⟨q, htracks, hsubmitted⟩

theorem onMachine_none {α : Type} (hnone : s.machine = none) (x : Method E α)
    (answer : α → Answer) : s.onMachine x answer = (.ok .none, s) := by
  rw [onMachine, hnone]

theorem onMachine_cases {α : Type} (hmachine : s.machine = some machine) {x : Method E α}
    {Q : α → XhciRingMachine × World → Prop} {F : XhciRingError E → XhciRingMachine × World → Prop}
    (hx : Ensures x (machine, s.world) Q F) (answer : α → Answer) :
    (∃ a m w, Q a (m, w) ∧
      s.onMachine x answer = (.ok (answer a), { s with machine := some m, world := w })) ∨
    ∃ e m w, F e (m, w) ∧
      s.onMachine x answer = (.error e, { s with machine := some m, world := w }) := by
  rcases hx.cases with ⟨a, t, heq, hQ⟩ | ⟨e, t, heq, hF⟩
  · refine .inl ⟨a, t.1, t.2, hQ, ?_⟩
    rw [onMachine, hmachine]
    dsimp only
    rw [heq]
  · refine .inr ⟨e, t.1, t.2, hF, ?_⟩
    rw [onMachine, hmachine]
    dsimp only
    rw [heq]

section

variable (hinv : Inv s)
include hinv

theorem Inv.initializeInner (secret : UInt64) (expectedGeneration : Option UInt32) :
    Inv (s.perform env (.initializeInner secret expectedGeneration)).2 := by
  rw [System.perform]
  split
  · exact hinv
  · next hsome =>
    have hnone : s.machine = none := by simpa using hsome
    obtain ⟨hoff, hobserved, hreceipts⟩ := hinv.off hnone
    have hrun :
        Ensures (XhciRingMachine.initializeInner env secret expectedGeneration) s.world _ _ :=
      ensures_initializeInner hoff secret expectedGeneration
    rcases hrun.cases with ⟨machine, world, heq, htracks⟩ | ⟨e, world, heq, hkept⟩
    · rw [heq, hreceipts]
      exact .of_tracks rfl htracks rfl
    · rw [heq, hnone, hreceipts]
      exact .of_off (hkept.off hoff) (by rw [hkept.2, hobserved])

theorem Inv.submitNoOp : Inv (s.perform env .submitNoOp).2 := by
  rw [System.perform]
  cases hmachine : s.machine with
  | none =>
    rw [onMachine_none hmachine]
    exact hinv
  | some machine =>
    obtain ⟨q, htracks, hsubmitted⟩ := hinv.on machine hmachine
    have hrun : Ensures (XhciRingMachine.submitNoOp env) (machine, s.world) _ _ :=
      ensures_submitNoOp htracks
    rcases onMachine_cases hmachine hrun .receipt with
      ⟨receipt, m, w, ⟨htracks', hbase, hcommand⟩, heq⟩ | ⟨e, m, w, ⟨htracks', hbase⟩, heq⟩
    · rw [heq, file]
      refine .of_tracks rfl (by rw [length_append]; exact htracks') ?_
      rw [submitted, map_append, length_append, length_singleton, range_succ,
        map_append, hbase, ← hsubmitted, map_singleton, map_singleton, hcommand]
      rfl
    · rw [heq]
      exact .of_tracks rfl htracks' (by rw [hbase]; exact hsubmitted)

theorem Inv.pollNoOpCompletion (receipt : XhciNoOpCommandReceipt) :
    Inv (s.perform env (.pollNoOpCompletion receipt)).2 := by
  rw [System.perform]
  cases hmachine : s.machine with
  | none =>
    rw [onMachine_none hmachine]
    exact hinv
  | some machine =>
    obtain ⟨q, htracks, hsubmitted⟩ := hinv.on machine hmachine
    have hrun : Ensures (XhciRingMachine.pollNoOpCompletion env receipt) (machine, s.world) _ _ :=
      ensures_pollNoOpCompletion htracks receipt
    rcases onMachine_cases hmachine hrun .evidence with
      ⟨_, m, w, ⟨⟨q', htracks'⟩, hbase⟩, heq⟩ | ⟨e, m, w, ⟨htracks', hbase⟩, heq⟩
    all_goals
      rw [heq]
      exact .of_tracks rfl htracks' (by rw [hbase]; exact hsubmitted)

theorem Inv.controller (step : Step) : Inv { s with world := s.world.step step } := by
  refine ⟨fun hnone => ?_, fun machine hmachine => ?_⟩
  · obtain ⟨hoff, hobserved, hreceipts⟩ := hinv.off hnone
    have hstay : s.world.step step = s.world := by
      cases step <;> rw [World.step, if_neg (by rw [hoff]; decide)]
    rw [hstay]
    exact ⟨hoff, hobserved, hreceipts⟩
  · obtain ⟨q, htracks, hsubmitted⟩ := hinv.on machine hmachine
    exact ⟨q, { htracks with inv := htracks.inv.step step }, hsubmitted⟩

theorem Inv.perform (action : Action) : Inv (s.perform env action).2 := by
  cases action with
  | initializeInner secret expectedGeneration =>
    exact hinv.initializeInner secret expectedGeneration
  | submitNoOp => exact hinv.submitNoOp
  | pollNoOpCompletion receipt => exact hinv.pollNoOpCompletion receipt
  | controller step => exact hinv.controller step

theorem Inv.run (actions : List Action) :
    Inv (Run.final (System.perform env) s actions) :=
  Run.invariant_final (fun _ action hinv => hinv.perform action) hinv

/-- The system after a sequence of calls. -/
def after (env : Environment E) (region : XhciDmaPurpose → Option XhciDmaRegionRecord)
    (page : XhciDmaPurpose → Page) (actions : List Action) : System :=
  Run.final (System.perform env) (boot region page) actions

theorem Inv.executed_of_none (hnone : s.machine = none) :
    s.world.controller.executed = [] ∧ s.submitted = [] := by
  obtain ⟨-, hobserved, hreceipts⟩ := hinv.off hnone
  rw [Controller.executed, hobserved, submitted, hreceipts]
  exact ⟨rfl, rfl⟩

end

/-- **The command ring is a queue.**  Whatever the environment does, after every sequence of calls
the controller has executed the first of the submitted commands, in the order of submission and each
of them once, and has one left at most, which it executes when it fetches on.  Every block that it
ever took for its own was such a command or a link, complete. -/
theorem commands_in_order (env : Environment E)
    (region : XhciDmaPurpose → Option XhciDmaRegionRecord) (page : XhciDmaPurpose → Page)
    (actions : List Action) :
    (after env region page actions).world.controller.executed <+:
      (after env region page actions).submitted ∧
    (after env region page actions).submitted.length ≤
      (after env region page actions).world.controller.executed.length + 1 ∧
    (((after env region page actions).world.step .fetch).step .fetch).controller.executed =
      (after env region page actions).submitted ∧
    ∀ x ∈ (after env region page actions).world.controller.observed,
      x ∈ (after env region page actions).submitted ∨
        ∃ machine cycle, (after env region page actions).machine = some machine ∧
          x = link machine.commandDeviceBase cycle := by
  have hinv : Inv (after env region page actions) := Inv.run (.of_off rfl rfl) actions
  generalize after env region page actions = s at hinv
  cases hmachine : s.machine with
  | none =>
    obtain ⟨hoff, hobserved, -⟩ := hinv.off hmachine
    obtain ⟨hexecuted, hsubmitted⟩ := hinv.executed_of_none hmachine
    have hstay : s.world.step .fetch = s.world := by rw [World.step, if_neg (by rw [hoff]; decide)]
    rw [hstay, hstay, hexecuted, hsubmitted, hobserved]
    exact ⟨List.nil_prefix, Nat.zero_le _, rfl, fun x hx => by cases hx⟩
  | some machine =>
    obtain ⟨q, htracks, hsubmitted⟩ := hinv.on machine hmachine
    have hcommands := htracks.inv.commands
    have hfetch : ∀ {w : World}, w.controller.running = true → w.step .fetch = w.fetch := by
      intro w hrunning
      rw [World.step, if_pos hrunning]
    have hlength : s.submitted.length = s.receipts.length := by
      rw [submitted, List.length_map]
    refine ⟨?_, ?_, ?_, fun x hx => ?_⟩
    · rw [hcommands.executed, hsubmitted]
      refine ⟨((List.range (s.receipts.length - s.world.controller.executed.length)).map
        (s.world.controller.executed.length + ·)).map (command machine.commandDeviceBase), ?_⟩
      rw [← List.map_append, ← List.range_add, Nat.add_sub_cancel' hcommands.le]
    · rw [hlength]
      exact hcommands.serial
    · rw [hfetch htracks.inv.running, hfetch htracks.inv.fetch.running, hsubmitted,
        htracks.inv.fetch.fetch.commands.executed, htracks.inv.caught_up]
    · rcases hcommands.observed x hx with ⟨k, hk, rfl⟩ | ⟨cycle, rfl⟩
      · refine .inl ?_
        rw [hsubmitted]
        exact List.mem_map_of_mem (List.mem_range.mpr hk)
      · exact .inr ⟨machine, cycle, rfl, rfl⟩

end System

end Sisyphus.Xhci
