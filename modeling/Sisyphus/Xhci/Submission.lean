import Sisyphus.Xhci.Ownership

/-!
# Submitting commands

The driver's calls, write by write, over the invariant of `Ownership`.  A write that is refused
leaves it as it was, and so does every byte up to the last control word of a block, so that a call
may fail anywhere and be tried again.  The byte with the cycle bit decides: before it is written the
controller does not take the block, and then the rest of the control word is there already, from the
write that hid the block.
-/

set_option autoImplicit false

namespace Sisyphus.Xhci

open Bytes CycleRing Fallible Function

/-! ## Writes -/

variable {E : Type} {F : XhciRingError E → World → Prop}

section Writes

variable {env : Environment E} {w : World} {purpose : XhciDmaPurpose} {offset : Nat}
  {bytes : List UInt8}

theorem page_step (w : World) (step : Step) :
    (w.step step).page .commandRing = w.page .commandRing := by
  cases step with
  | fetch =>
    rw [World.step]
    split
    · rw [World.fetch]
      split <;> rfl
    · rfl
  | post i event =>
    rw [World.step, World.post]
    split_ifs
    · dsimp only
      rw [update_eventRing]
    · rfl
    · dsimp only
      rw [update_eventRing]
    · rfl

theorem page_turn (w : World) : (w.turn env).page .commandRing = w.page .commandRing := by
  have hall : ∀ (steps : List Step) (w : World),
      (steps.foldl World.step w).page .commandRing = w.page .commandRing := by
    intro steps
    induction steps with
    | nil => exact fun w => rfl
    | cons step rest ih => exact fun w => (ih _).trans (page_step w step)
  exact hall _ w

/-- The controller does not write the command ring. -/
theorem page_store (w : World) (offset : Nat) (bytes : List UInt8) :
    (w.store env .commandRing offset bytes).page .commandRing =
      patch (w.page .commandRing) offset bytes := by
  induction bytes generalizing w offset with
  | nil => exact page_turn w
  | cons byte rest ih =>
    rw [World.store, ih, patch, World.poke]
    dsimp only
    rw [update_self, page_turn]

variable {J : World → Prop}

/-- The rule for a write: what the controller's turns and each byte keep is there afterwards. -/
theorem store_induct (hturn : ∀ w, J w → J (w.turn env))
    (hpoke : ∀ k byte, bytes[k]? = some byte → ∀ w, J w → J (w.poke purpose (offset + k) byte))
    (hw : J w) : J (w.store env purpose offset bytes) := by
  induction bytes generalizing w offset with
  | nil => exact hturn w hw
  | cons byte rest ih =>
    refine ih (fun k b hk w hw => ?_) (hpoke 0 byte rfl _ (hturn w hw))
    rw [Nat.add_assoc, Nat.add_comm 1]
    exact hpoke (k + 1) b hk w hw

theorem ensures_orStorage {α : Type} {x : EStateM E World α} {Q : α → World → Prop} :
    Ensures (orStorage x) w Q F ↔ Ensures x w Q (fun e w' => F (.storage e) w') := by
  simp only [orStorage, ensures_rules, ensures_attempt, Except.mapError]
  simp

theorem ensures_write {Q : Unit → World → Prop}
    (hok : Q () (w.store env purpose offset bytes)) (herr : ∀ e, F e (w.turn env)) :
    Ensures (orStorage (write env purpose offset bytes)) w Q F := by
  rw [ensures_orStorage, Ensures, write]
  cases env.refuses w.clock with
  | none => exact hok
  | some e => exact herr _

/-- A write whose bytes all keep `J`. -/
theorem ensures_write_keep (hturn : ∀ w, J w → J (w.turn env))
    (hpoke : ∀ k byte, bytes[k]? = some byte → ∀ w, J w → J (w.poke .commandRing (offset + k) byte))
    (hw : J w) :
    Ensures (orStorage (write env .commandRing offset bytes)) w
      (fun _ w' => J w' ∧ w'.page .commandRing = patch (w.page .commandRing) offset bytes)
      (fun _ w' => J w') :=
  ensures_write ⟨store_induct hturn hpoke hw, page_store w offset bytes⟩ fun _ => hturn w hw

/-! ## Publishing a block -/

/-- The ring page after the three writes. -/
def publication (page : Page) (i : Nat) (trb : RawTrb) (cycle : Bool) : Page :=
  patch (patch (patch page (trbBytes * i + 12) (leBytes 4 (invisibleControl trb cycle).toNat))
    (trbBytes * i) (trb.encode.take 12)) (trbBytes * i + 12) (leBytes 4 trb.control.toNat)

theorem slot_publication (page : Page) (i : Nat) (trb : RawTrb) (cycle : Bool) :
    slot (publication page i trb cycle) i = trb := by
  have hlength : (trb.encode.take 12).length = 12 := by simp [trbBytes]
  have hsplit : slice (publication page i trb cycle) (trbBytes * i) (12 + 4) = trb.encode := by
    rw [slice_add, publication]
    congr 1
    · rw [slice_patch_of_disjoint (.inl le_rfl)]
      exact slice_patch_self _ _ _
    · have h := slice_patch_self (patch (patch page (trbBytes * i + 12)
        (leBytes 4 (invisibleControl trb cycle).toNat)) (trbBytes * i) (trb.encode.take 12))
        (trbBytes * i + 12) (leBytes 4 trb.control.toNat)
      rwa [length_leBytes] at h
  exact (congrArg RawTrb.decode hsplit).trans (RawTrb.decode_encode trb)

/-- A block that the controller cannot reach is published in any order. -/
theorem ensures_publishTrb (hturn : ∀ w, J w → J (w.turn env)) {i : Nat}
    (hpoke : ∀ k < trbBytes, ∀ byte w, J w → J (w.poke .commandRing (trbBytes * i + k) byte))
    (trb : RawTrb) (cycle : Bool) (hw : J w) :
    Ensures (publishTrb env .commandRing (i * trbBytes) trb cycle) w
      (fun _ w' => J w' ∧ slot (w'.page .commandRing) i = trb) (fun _ w' => J w') := by
  have hcontrol : ∀ (x k : Nat) (byte : UInt8), (leBytes 4 x)[k]? = some byte →
      ∀ w, J w → J (w.poke .commandRing (trbBytes * i + 12 + k) byte) := by
    intro x k byte hk w hw
    have hlt := (List.getElem?_eq_some_iff.mp hk).1
    rw [length_leBytes] at hlt
    rw [Nat.add_assoc]
    exact hpoke (12 + k) (by rw [trbBytes]; omega) byte w hw
  have hpayload : ∀ (k : Nat) (byte : UInt8), (trb.encode.take 12)[k]? = some byte →
      ∀ w, J w → J (w.poke .commandRing (trbBytes * i + k) byte) := by
    intro k byte hk w hw
    have hlt := (List.getElem?_eq_some_iff.mp hk).1
    rw [List.length_take, RawTrb.length_encode] at hlt
    exact hpoke k (by omega) byte w hw
  rw [publishTrb, Nat.mul_comm]
  simp only [ensures_bind]
  refine (ensures_write_keep hturn (hcontrol _) hw).imp_ok ?_
  rintro _ w₁ ⟨hw₁, hpage₁⟩
  refine (ensures_write_keep hturn hpayload hw₁).imp_ok ?_
  rintro _ w₂ ⟨hw₂, hpage₂⟩
  refine (ensures_write_keep hturn (hcontrol _) hw₂).imp_ok ?_
  rintro _ w₃ ⟨hw₃, hpage₃⟩
  refine ⟨hw₃, ?_⟩
  rw [hpage₃, hpage₂, hpage₁]
  exact slot_publication _ i trb cycle

/-! ## Publishing a command -/

theorem leBytes_control (cycle : Bool) :
    leBytes 4 (XhciRingMachine.noOpTrb cycle).control.toNat =
      (if cycle then 1 else 0) :: [0x5c, 0, 0] := by
  cases cycle <;> decide

theorem leBytes_invisibleControl (cycle : Bool) :
    leBytes 4 (invisibleControl (XhciRingMachine.noOpTrb cycle) cycle).toNat =
      (if cycle then 0 else 1) :: [0x5c, 0, 0] := by
  cases cycle <;> decide

variable {base : UInt64} {p : Nat}

/-- What is kept while the next block is prepared. -/
def Preparing (base : UInt64) (p : Nat) (w : World) : Prop :=
  Inv base p p w ∧ (p % commandCapacity + 1 = commandLinkIndex →
    slot (w.page .commandRing) commandLinkIndex = linkTrb base (lapCycle commandCapacity p))

theorem Preparing.turn (h : Preparing base p w) :
    Preparing base p (w.turn env) :=
  ⟨h.1.turn env, by rw [page_turn]; exact h.2⟩

theorem page_poke (w : World) (offset : Nat) (byte : UInt8) :
    (w.poke .commandRing offset byte).page .commandRing =
      update (w.page .commandRing) offset byte := by
  rw [World.poke]
  dsimp only
  rw [update_self]

theorem Preparing.poke (h : Preparing base p w) {k : Nat} (hk : k < trbBytes)
    {byte : UInt8} (hbyte : k = 12 → (byte.toNat % 2 == 1) = !lapCycle commandCapacity p) :
    Preparing base p (w.poke .commandRing (trbBytes * (p % commandCapacity) + k) byte) := by
  refine ⟨h.1.poke (h.1.commands.poke_hidden h.1.idle hk hbyte) (Nat.le_succ p), fun hlast => ?_⟩
  rw [page_poke, slot_update_of_ne hk (mod_ne_link p).symm]
  exact h.2 hlast

/-- Once a block is prepared, its control word differs from the final one in the first byte. -/
theorem slice_prepared {page prepared : Page} {o : Nat} {hidden : UInt8} (shown : UInt8)
    {payload rest : List UInt8} (hpayload : payload.length = 12)
    (hprepared : prepared =
      patch (patch page (trbBytes * o + 12) (hidden :: rest)) (trbBytes * o) payload) :
    slice (update prepared (trbBytes * o + 12) shown) (trbBytes * o + 12 + 1) rest.length =
      rest := by
  calc slice (update prepared (trbBytes * o + 12) shown) (trbBytes * o + 12 + 1) rest.length
      = slice prepared (trbBytes * o + 12 + 1) rest.length :=
        slice_congr fun k _ => update_of_ne (by omega) ..
    _ = slice (patch page (trbBytes * o + 12) (hidden :: rest))
          (trbBytes * o + 12 + 1) rest.length := by
        rw [hprepared, slice_patch_of_disjoint (.inr (by omega))]
    _ = rest := by rw [patch, slice_patch_self]

/-- The last write of a command: its first byte hands the block over, and the others are there
already. -/
theorem Preparing.handOver (h : Preparing base p w) {byte : UInt8} {rest : List UInt8}
    (hslot : slot (update (w.page .commandRing)
      (trbBytes * (p % commandCapacity) + 12) byte) (p % commandCapacity) = (command base p).2)
    (hrest : slice (update (w.page .commandRing)
      (trbBytes * (p % commandCapacity) + 12) byte)
        (trbBytes * (p % commandCapacity) + 12 + 1) rest.length = rest) :
    Inv base (p + 1) p (w.store env .commandRing
      (trbBytes * (p % commandCapacity) + 12) (byte :: rest)) := by
  have hturn : Preparing base p (w.turn env) := h.turn
  have hpage : (w.turn env).page .commandRing = w.page .commandRing := page_turn w
  rw [World.store]
  refine (store_induct (J := fun w' => Inv base (p + 1) p w' ∧
    w'.page .commandRing = update (w.page .commandRing)
      (trbBytes * (p % commandCapacity) + 12) byte) ?_ ?_ ?_).1
  · exact fun w' h => ⟨h.1.turn env, by rw [page_turn, h.2]⟩
  · intro k b hk w' hw'
    have hkeep : update (w'.page .commandRing)
        (trbBytes * (p % commandCapacity) + 12 + 1 + k) b = w'.page .commandRing := by
      rw [hw'.2, ← apply_of_slice hrest hk, update_eq_self]
    refine ⟨hw'.1.poke ?_ le_rfl, ?_⟩
    · rw [hkeep]
      exact hw'.1.commands
    · rw [page_poke, hkeep, hw'.2]
  · refine ⟨hturn.1.poke (hturn.1.commands.handOver hturn.1.idle ?_ hturn.2) le_rfl, ?_⟩
    · rw [hpage]
      exact hslot
    · rw [page_poke, hpage]

/-- **A command is handed over by its last write, or not at all.** -/
theorem ensures_publishNoOp (h : Preparing base p w) :
    Ensures (publishTrb env .commandRing (p % commandCapacity * trbBytes)
        (XhciRingMachine.noOpTrb (lapCycle commandCapacity p)) (lapCycle commandCapacity p)) w
      (fun _ w' => Inv base (p + 1) p w') (fun _ w' => Inv base p p w') := by
  rw [publishTrb, Nat.mul_comm, leBytes_invisibleControl, leBytes_control]
  simp only [ensures_bind]
  generalize hlap : lapCycle commandCapacity p = lap
  refine (ensures_write_keep (J := Preparing base p) (fun _ h => h.turn) ?_ h).mono ?_
    fun _ _ h => h.1
  · intro k byte hk w hw
    have hlt := (List.getElem?_eq_some_iff.mp hk).1
    rw [Nat.add_assoc]
    refine hw.poke (by rw [trbBytes]; exact Nat.add_lt_add_left hlt 12) fun hzero => ?_
    obtain rfl : k = 0 := by omega
    rw [hlap, ← Option.some.inj hk]
    cases lap <;> decide
  rintro _ w₁ ⟨hw₁, hpage₁⟩
  refine (ensures_write_keep (J := Preparing base p) (fun _ h => h.turn) ?_ hw₁).mono ?_
    fun _ _ h => h.1
  · intro k byte hk w hw
    have hlt := (List.getElem?_eq_some_iff.mp hk).1
    rw [List.length_take, RawTrb.length_encode] at hlt
    exact hw.poke (by omega) fun h12 => by omega
  rintro _ w₂ ⟨hw₂, hpage₂⟩
  rw [hpage₁] at hpage₂
  generalize hbyte : (if lap = true then (1 : UInt8) else 0) = byte
  have hrest := slice_prepared byte (by simp [trbBytes]) hpage₂
  refine ensures_write (hw₂.handOver ?_ hrest) fun _ => hw₂.1.turn env
  have hpublished := slot_publication (w.page .commandRing) (p % commandCapacity)
    (XhciRingMachine.noOpTrb lap) lap
  rw [publication, leBytes_invisibleControl, leBytes_control, hbyte, ← hpage₂, patch,
    patch_slice hrest] at hpublished
  rw [hpublished, command, hlap]

theorem ensures_writeLink (h : Inv base p p w)
    (hlast : p % commandCapacity + 1 = commandLinkIndex) :
    Ensures (writeLink env base (lapCycle commandCapacity p)) w
      (fun _ w' => Preparing base p w') (fun _ w' => Inv base p p w') := by
  refine (ensures_publishTrb (J := Inv base p p) (fun _ h => h.turn env) ?_ _ _ h).imp_ok
    ?_
  · intro k hk byte w hw
    exact hw.poke (hw.commands.poke_link hlast hk byte) (Nat.le_succ p)
  · rintro _ w' ⟨hw', hslot⟩
    exact ⟨hw', fun _ => hslot⟩

end Writes

/-! ## The calls -/

namespace XhciRingMachine

variable {env : Environment E} {machine : XhciRingMachine} {w : World} {p q : Nat}

/-- The machine after `p` commands and `q` completions. -/
structure Tracks (p q : Nat) (machine : XhciRingMachine) (w : World) : Prop where
  inv : Inv machine.commandDeviceBase p q w
  fits : machine.commandDeviceBase.toNat + pageSize < 2 ^ 64
  producerIndex : machine.producerIndex.toNat = p % commandCapacity
  producerCycle : machine.producerCycle = lapCycle commandCapacity p
  eventIndex : machine.eventIndex.toNat = q % eventCapacity
  eventCycle : machine.eventCycle = lapCycle eventCapacity q
  outstanding : p = if machine.outstanding.isSome then q + 1 else q

theorem ensures_onStorage {α : Type} {x : Op E α} {s : XhciRingMachine × World}
    {Q : α → XhciRingMachine × World → Prop}
    {F : XhciRingError E → XhciRingMachine × World → Prop} :
    Ensures (onStorage x) s Q F ↔
      Ensures x s.2 (fun a w => Q a (s.1, w)) (fun e w => F e (s.1, w)) := by
  simp [onStorage]

theorem advance_eq (capacity : Nat) (hcap : 0 < capacity) (hmax : capacity < 2 ^ 16) {n : Nat}
    {index : UInt16} (hindex : index.toNat = n % capacity) :
    (advance capacity index (lapCycle capacity n)).1.toNat = (n + 1) % capacity ∧
      (advance capacity index (lapCycle capacity n)).2 = lapCycle capacity (n + 1) := by
  have hlt := Nat.mod_lt n hcap
  have hsucc : (index + 1).toNat = n % capacity + 1 := by
    rw [UInt16.toNat_add, hindex, show (1 : UInt16).toNat = 1 from rfl]
    omega
  rw [advance, hsucc]
  rcases succ_mod hcap n with ⟨hlt, hmod⟩ | ⟨hlast, hwrap⟩
  · rw [if_neg (by omega), hmod, lapCycle_succ_of_mod (by omega)]
    exact ⟨hsucc, rfl⟩
  · rw [if_pos hlast, hwrap, lapCycle_succ_of_wrap hwrap]
    exact ⟨rfl, rfl⟩

/-- The link is in place before the last block of a lap. -/
theorem ensures_linkFirst (h : Tracks p p machine w) :
    Ensures (if machine.producerIndex.toNat + 1 = commandLinkIndex then
        onStorage (writeLink env machine.commandDeviceBase machine.producerCycle)
      else pure ()) (machine, w)
      (fun _ s => s.1 = machine ∧ Preparing machine.commandDeviceBase p s.2)
      (fun _ s => s.1 = machine ∧ Inv machine.commandDeviceBase p p s.2) := by
  rw [ensures_ite, h.producerIndex, h.producerCycle]
  refine ⟨fun hlast => ?_, fun hlast => ⟨rfl, h.inv, fun he => absurd he hlast⟩⟩
  rw [ensures_onStorage]
  exact (ensures_writeLink h.inv hlast).mono (fun _ _ hw' => ⟨rfl, hw'⟩) fun _ _ hw' => ⟨rfl, hw'⟩

theorem Tracks.submit (h : Tracks p p machine w) {w' : World}
    (hinv : Inv machine.commandDeviceBase (p + 1) p w')
    (nextSequence : UInt32) (outstanding : OutstandingCommand) :
    Tracks (p + 1) p { machine with
      outstanding := some outstanding
      nextSequence
      producerIndex := (advance commandLinkIndex machine.producerIndex machine.producerCycle).1
      producerCycle := (advance commandLinkIndex machine.producerIndex machine.producerCycle).2 }
        w' := by
  have hnext := advance_eq commandLinkIndex commandCapacity_pos (by decide) h.producerIndex
  refine ⟨hinv, h.fits, ?_, ?_, h.eventIndex, h.eventCycle, rfl⟩
  · rw [h.producerCycle]
    exact hnext.1
  · rw [h.producerCycle]
    exact hnext.2

theorem ensures_submitNoOp (h : Tracks p q machine w) : Ensures (submitNoOp env) (machine, w)
      (fun receipt s => Tracks (p + 1) p s.1 s.2 ∧
        s.1.commandDeviceBase = machine.commandDeviceBase ∧
        (receipt.commandDeviceAddress, noOpTrb receipt.producerCycle) =
          command machine.commandDeviceBase p)
      (fun _ s => Tracks p q s.1 s.2 ∧ s.1.commandDeviceBase = machine.commandDeviceBase) := by
  simp only [submitNoOp, ensures_rules, ensures_onStorage, and_true, h]
  intro hfree _
  obtain rfl : p = q := by simpa [hfree] using h.outstanding
  refine (ensures_linkFirst h).mono ?_ ?_
  · rintro _ ⟨m, w₁⟩ ⟨rfl, hprepared⟩
    rw [h.producerIndex, h.producerCycle]
    refine (ensures_publishNoOp hprepared).mono ?_ fun _ w₂ hw₂ => ⟨{ h with inv := hw₂ }, rfl⟩
    intro _ w₂ hw₂
    refine ⟨fun hoverflow => ?_, fun _ => ⟨?_, rfl, ?_⟩⟩
    · have hmod := Nat.mod_lt p commandCapacity_pos
      have hfits := h.fits
      rw [decide_eq_true_eq, trbBytes] at hoverflow
      rw [pageSize] at hfits
      rw [show commandCapacity = 255 from rfl] at hmod hoverflow
      omega
    · have := h.submit hw₂
      rw [h.producerCycle] at this
      exact this _ _
    · rw [command, Nat.mul_comm]
  · rintro _ ⟨m, w₁⟩ ⟨rfl, hw₁⟩
    exact ⟨{ h with inv := hw₁ }, rfl⟩

/-! Polling. -/

theorem ensures_readTrb (offset : Nat) {Q : RawTrb → World → Prop}
    (hok : Q (.decode (slice ((w.turn env).page .eventRing) offset trbBytes)) (w.turn env))
    (herr : ∀ e, env.refuses w.clock = some e → F (.storage e) (w.turn env)) :
    Ensures (readTrb env .eventRing offset) w Q F := by
  rw [readTrb, ensures_map, ensures_orStorage, Ensures, read]
  cases hread : env.refuses w.clock with
  | none => exact hok
  | some e => exact herr e hread

variable {expected : OutstandingCommand} {event : RawTrb}

/-- The completion of the outstanding command is consumed. -/
theorem Tracks.complete (h : Tracks p q machine w) (hexpected : machine.outstanding = some expected)
    (hslot : event = slot (w.page .eventRing) machine.eventIndex.toNat)
    (hreport : World.isReport event = true) (hcycle : event.cycle = machine.eventCycle) :
    Tracks p (q + 1) (machine.complete expected event).2 w := by
  have hfresh : Fresh q (w.page .eventRing) (q % eventCapacity) := by
    refine ⟨Nat.mod_lt _ (by decide), ?_, ?_⟩
    · rwa [← h.eventIndex, ← hslot]
    · rw [cellCycle_self, Bool.not_not, ← h.eventIndex, ← hslot, hcycle, h.eventCycle]
  have hp : p = q + 1 := by simpa [hexpected] using h.outstanding
  have hreported : w.controller.reported ≠ q := fun he => h.inv.events.none he _ hfresh
  have hseen := h.inv.seen
  have hnext := advance_eq eventCapacity (by decide) (by decide) h.eventIndex
  refine ⟨⟨h.inv.running, h.inv.region, h.inv.aligned, h.inv.commands, h.inv.events.seen hfresh,
    by omega, h.inv.reported, by omega⟩, h.fits, h.producerIndex, h.producerCycle, ?_, ?_, hp⟩
  · rw [XhciRingMachine.complete, h.eventCycle]
    exact hnext.1
  · rw [XhciRingMachine.complete, h.eventCycle]
    exact hnext.2

theorem isReport_of_check
    (h : checkCompletion expected event = (.ok () : Except (XhciRingError E) Unit)) :
    World.isReport event = true := by
  by_contra hne
  rw [World.isReport, beq_iff_eq] at hne
  simp [checkCompletion, hne, bind, Except.bind, throw, throwThe, MonadExceptOf.throw] at h

theorem ensures_pollNoOpCompletion (h : Tracks p q machine w) (receipt : XhciNoOpCommandReceipt) :
    Ensures (pollNoOpCompletion env receipt) (machine, w) (fun _ s => (∃ q', Tracks p q' s.1 s.2) ∧
        s.1.commandDeviceBase = machine.commandDeviceBase)
      (fun _ s => Tracks p q s.1 s.2 ∧ s.1.commandDeviceBase = machine.commandDeviceBase) := by
  simp only [pollNoOpCompletion, ensures_rules, ensures_onStorage, and_true, h]
  have hturn : Tracks p q machine (w.turn env) := { h with inv := h.inv.turn env }
  intro expected hexpected _
  refine ensures_readTrb _ ?_ fun _ _ => hturn
  rw [Nat.mul_comm]
  change Ensures (if (slot ((w.turn env).page .eventRing) machine.eventIndex.toNat).cycle ≠ _ then _
    else _) _ _ _
  rw [ensures_ite]
  refine ⟨fun _ => ⟨⟨q, hturn⟩, rfl⟩, fun hcycle => ?_⟩
  simp only [ensures_rules]
  refine ⟨fun _ _ => ⟨hturn, trivial⟩, fun _ hcheck => ⟨⟨q + 1, ?_⟩, rfl⟩⟩
  exact hturn.complete hexpected rfl (isReport_of_check hcheck) (not_not.mp hcycle)

end XhciRingMachine

end Sisyphus.Xhci
