import Sisyphus.Vtd.Hardware

/-!
# Does the engine's state say what the hardware does?

An engine that is `enabled` promises that translation is on through the root it owns and stays on
until the next call, and one that is `disabled` that it is off and stays off (`Truthful`).  A
command may still be in flight when a call returns, so both are promises about the unit now and
about the unit when that command has been carried out.

Every procedure is followed through the phases of `Sisyphus.Vtd.Hardware`: a root is installed with
translation off (`ensures_installRootPointer`), translation is turned on and seen to be on
(`ensures_configureRoot`), and `rollback_enable` writes the opposite command and waits for it, from
whatever state (`ensures_rollbackEnable`).  `rollback_disable` does not: it looks at the status and
gives up its rollback when translation is still on, although the command to turn it off may be in
flight.  `Engine.stranded` says of a call and the schedule it meets that this will happen, and
`engine_truthful_iff` that nothing else can go wrong.
-/

set_option autoImplicit false

namespace Sisyphus.Vtd

open Fallible Option Run VtdRegisterBackend

/-! ## Procedures -/

namespace RemappingUnit

variable {u : RemappingUnit} {P : RemappingUnit → Prop} {root : UInt64} {pollLimit : UInt32}
  {capabilities : VtdCapabilities}

/-- **Issuing a command.**  It is composed in one moment and takes effect in a later one. -/
theorem ensures_issueGlobalCommand {translationEnabled : Option Bool} {oneShot : UInt32}
    {Q : RemappingUnit → Prop} (hone : oneShot = 0 ∨ oneShot = gcmdSrtp ∨ oneShot = gcmdWbf)
    (hP : Stable P) (h : P u)
    (hsend : ∀ seen t command, P seen → P t →
      (command &&& gcmdTe != 0) = translationEnabled.getD seen.translation →
      (command &&& gcmdSrtp != 0) = (oneShot == gcmdSrtp) → Q (t.send command)) :
    Ensures (issueGlobalCommand translationEnabled oneShot) u (fun _ t => Q t)
      fun _ t => P t ∨ Q t := by
  rw [issueGlobalCommand, ensures_bind]
  refine (ensures_read hP h).mono (fun status seen hseen => ?_) fun _ _ h => .inl h
  obtain ⟨hphase, -, rfl⟩ := hseen
  exact ensures_write hP hphase fun t ht => hsend seen t (composed translationEnabled oneShot
    seen.status) hphase ht (composed_translation seen translationEnabled hone)
    (composed_rootPointer seen translationEnabled hone)

variable {operation : VtdOperation}

/-- An invalidation does not touch the three registers. -/
theorem ensures_invalidate {offset : Nat} {busy command mask granted : UInt64}
    (hoffset : offset ≠ rtaddr) (hP : Stable P) (h : P u) :
    Ensures (invalidate offset busy command mask granted pollLimit operation) u (fun _ t => P t)
      fun _ t => P t := by
  simp only [invalidate, checkInvalidationStatus, ensures_rules]
  refine (ensures_read hP h).imp_ok (fun _ t ht => ⟨fun _ => ht.1, fun _ => ?_⟩)
  refine (ensures_write (Q := P) hP ht.1 fun t ht => by rwa [if_neg hoffset]).mono
    (fun _ t ht => ?_) fun _ _ h => h.elim id id
  refine (ensures_poll hP ht).imp_ok (fun _ t ht => ⟨fun _ => ht.1, fun _ => ?_⟩)
  exact (ensures_read hP ht.1).imp_ok (fun _ t ht => ⟨fun _ => ht.1, fun _ => ht.1⟩)

theorem ensures_invalidateBoth (hoffset : capabilities.iotlbRegisterOffset + 8 ≠ rtaddr)
    (hP : Stable P) (h : P u) :
    Ensures (do invalidateContext pollLimit; invalidateIotlb capabilities pollLimit) u
      (fun _ t => P t) fun _ t => P t := by
  rw [ensures_bind]
  refine (ensures_invalidate (by decide) hP h).imp_ok (fun _ t ht => ?_)
  exact ensures_invalidate hoffset hP ht

/-- A flush and two invalidations keep every phase in which a command to flush does no harm. -/
theorem ensures_flushAndInvalidate (hoffset : capabilities.iotlbRegisterOffset + 8 ≠ rtaddr)
    (hP : Stable P) (h : P u)
    (hsend : ∀ seen t command, P seen → P t → (command &&& gcmdTe != 0) = seen.translation →
      (command &&& gcmdSrtp != 0) = false → P (t.send command)) :
    Ensures (flushAndInvalidate capabilities pollLimit) u (fun _ t => P t) fun _ t => P t := by
  rw [flushAndInvalidate, ensures_bind]
  suffices hflush : Ensures (flushWriteBuffer capabilities pollLimit) u (fun _ t => P t)
      fun _ t => P t from
    hflush.imp_ok (fun _ t ht => ensures_invalidateBoth hoffset hP ht)
  rw [flushWriteBuffer]
  split
  · exact h
  · rw [ensures_bind]
    refine Ensures.mono (ensures_issueGlobalCommand (Q := P) (.inr (.inr rfl)) hP h hsend)
      (fun _ t ht => ?_) fun _ _ h => h.elim id id
    exact (ensures_waitStatus hP ht).imp_ok (fun _ _ h => h.1)

variable {t : RemappingUnit} {command : UInt32}

theorem Off.send (h : t.Off) (hcommand : (command &&& gcmdTe != 0) = false) :
    (t.send command).Off :=
  ⟨h.1, fun _ heq => by cases heq; exact hcommand⟩

theorem Holds.send (h : t.Holds root) (hcommand : (command &&& gcmdSrtp != 0) = false) :
    (t.send command).Holds root :=
  ⟨h.1, fun _ heq => by cases heq; exact hcommand⟩

/-- **Installing a root** while translation is off. -/
theorem ensures_installRootPointer (h : u.Off) :
    Ensures (installRootPointer root pollLimit) u (fun _ t => t.Off ∧ t.Holds root)
      fun _ t => t.Off := by
  simp only [installRootPointer, ensures_rules]
  refine (ensures_write (Q := fun t => t.Off ∧ t.rootRegister = root) stable_off h
    fun t ht => by rw [if_pos rfl]; exact ⟨ht, rfl⟩).mono (fun _ t ht => ?_)
    fun _ _ h => h.elim id And.left
  have hstable : Stable fun t => t.Off ∧ t.rootRegister = root :=
    stable_off.and (stable_of_carryOut (fun _ _ h _ => h) fun _ h => h)
  refine (ensures_read hstable ht).mono (fun _ t ht => ⟨fun _ => ht.1.1, fun _ => ?_⟩)
    fun _ _ h => h.1
  refine (ensures_issueGlobalCommand (Q := Loading root) (.inr (.inl rfl)) hstable ht.1
    fun seen t command hseen ht hte hsrtp => ?_).mono (fun _ t ht => ?_)
    fun _ _ h => h.elim And.left And.left
  · refine ⟨ht.1.send (hte.trans hseen.1.1), ht.2, fun hset => ?_⟩
    -- the command has cleared the status bit
    have hzero : (command &&& gcmdSrtp == 0) = false := by
      simpa using hsrtp
    simp [send, hzero] at hset
  · refine (ensures_waitStatus stable_loading ht).mono (fun _ t ht => ?_) fun _ _ h => h.1
    exact ⟨ht.1.1, ht.1.2.2 ((status_rootPointerSet t).symm.trans ht.2)⟩

/-- **Turning translation on**, from a unit where it is off. -/
theorem ensures_configureRoot (hoffset : capabilities.iotlbRegisterOffset + 8 ≠ rtaddr)
    (h : u.Off) :
    Ensures (configureRoot capabilities root pollLimit) u (fun _ t => t.On root)
      fun _ _ => True := by
  simp only [configureRoot, ensures_rules]
  refine (ensures_installRootPointer h).mono (fun _ t ht => ?_) fun _ _ _ => trivial
  have hstable : Stable fun t => t.Off ∧ t.Holds root := stable_off.and stable_holds
  refine (ensures_flushAndInvalidate hoffset hstable ht fun seen t command hseen ht hte hsrtp =>
    ⟨ht.1.send (hte.trans hseen.1.1), ht.2.send hsrtp⟩).mono (fun _ t ht => ?_) fun _ _ _ => trivial
  refine (ensures_issueGlobalCommand (Q := Rising root) (.inl rfl) hstable ht
    fun seen t command _ ht hte hsrtp => ⟨ht.2.send hsrtp, fun _ heq => ?_⟩).mono (fun _ t ht => ?_)
    fun _ _ _ => trivial
  · cases heq
    exact hte
  · refine (ensures_waitStatus stable_rising ht).mono (fun _ t ht => ?_) fun _ _ _ => trivial
    exact ⟨(status_translation t).symm.trans ht.2, ht.1⟩

/-- **Undoing a failed enable**, from any unit. -/
theorem ensures_rollbackEnable (hoffset : capabilities.iotlbRegisterOffset + 8 ≠ rtaddr) :
    Ensures (rollbackEnable capabilities root pollLimit) u (fun _ t => t.Off) fun _ _ => True := by
  simp only [rollbackEnable, ensures_rules]
  refine (ensures_issueGlobalCommand (P := fun _ => True) (Q := Falling) (.inl rfl)
    ⟨fun h => h, fun _ h => h⟩ trivial fun seen t command _ _ hte _ _ heq => ?_).mono
    (fun _ t ht => ?_) fun _ _ _ => trivial
  · cases heq
    exact hte
  refine (ensures_waitStatus stable_falling ht).mono (fun _ t ht => ?_) fun _ _ _ => trivial
  have hoff : t.Off := ⟨(status_translation t).symm.trans ht.2, ht.1⟩
  refine (ensures_installRootPointer hoff).mono (fun _ t ht => ?_) fun _ _ _ => trivial
  exact (ensures_flushAndInvalidate hoffset stable_off ht.1 fun seen t command hseen ht hte _ =>
    ht.send (hte.trans hseen.1)).imp_error fun _ _ _ => trivial

/-! ## A command left in flight -/

/-- The entries of a schedule from the next one on. -/
def later (schedule : Nat → Tick) : Nat → Tick := fun n => schedule (n + 1)

/-- So many polls of the status, and the look of `rollback_disable` after them, end before the
command in flight has been carried out. -/
def waits : Nat → (Nat → Tick) → Bool
  | 0, schedule => !(schedule 0).carriesOut && (schedule 0).fault.isNone
  | turns + 1, schedule =>
    !(schedule 0).carriesOut &&
      if (schedule 0).fault.isNone then waits turns (later schedule) else waits 0 (later schedule)

/-- The command to stop translation reaches the unit and is not carried out before
`rollback_disable` has looked. -/
def strands (turns : Nat) (schedule : Nat → Tick) : Bool :=
  (schedule 0).fault.isNone &&
    if (schedule 1).fault.isNone then waits turns (later (later schedule))
    else (schedule 1).lands && waits 0 (later (later schedule))

theorem Dousing.next_off (h : u.Dousing) (hout : (u.schedule 0).carriesOut = true) :
    u.next.Off := by
  obtain ⟨command, hcommand⟩ := isSome_iff_exists.mp h.2.1
  rw [next, if_pos hout, settled, hcommand]
  exact ⟨h.2.2 command hcommand, fun _ h => by cases h⟩

theorem Dousing.next (h : u.Dousing) (hout : (u.schedule 0).carriesOut = false) :
    u.next.Dousing := by
  rw [RemappingUnit.next, hout]
  exact h

theorem schedule_next (u : RemappingUnit) : u.next.schedule = later u.schedule := rfl

/-- **Waiting for translation to stop.** -/
theorem Dousing.ensures_poll {turns : Nat} (h : u.Dousing) :
    Ensures (pollUntil (readU32 gsts)
        (fun value => (value &&& gstsTes != 0) == false) operation turns) u
      (fun _ t => t.Off ∧ waits turns u.schedule = false)
      fun _ t => t.Off ∧ waits turns u.schedule = false ∨
        t.Dousing ∧ waits 0 t.schedule = waits turns u.schedule := by
  induction turns generalizing u with
  | zero => exact .inr ⟨h, rfl⟩
  | succ turns ih =>
    rw [pollUntil, ensures_bind]
    refine ensures_readAs.mpr ⟨fun hfault => ?_, fun e hfault => ?_⟩
    · change Ensures (if ((u.next.status &&& gstsTes != 0) == false) = true then _ else _) _ _ _
      rw [status_translation]
      cases hout : (u.schedule 0).carriesOut with
      | true =>
        have hoff := h.next_off hout
        rw [hoff.1]
        exact ⟨hoff, by simp [waits, hout]⟩
      | false =>
        have hon := h.next hout
        rw [hon.1]
        refine (ih hon).mono (fun _ t ht => ⟨ht.1, ?_⟩) fun _ t ht => ?_
        · simpa [waits, hout, hfault, schedule_next] using ht.2
        · simpa [waits, hout, hfault, schedule_next] using ht
    · cases hout : (u.schedule 0).carriesOut with
      | true => exact .inl ⟨h.next_off hout, by simp [waits, hout]⟩
      | false =>
        refine .inr ⟨h.next hout, ?_⟩
        simp [waits, hout, hfault, schedule_next]

theorem On.dousing_send (h : t.On root) (hcommand : (command &&& gcmdTe != 0) = false) :
    (t.send command).Dousing :=
  ⟨h.1, rfl, fun _ heq => by cases heq; exact hcommand⟩

section

variable (hoffset : capabilities.iotlbRegisterOffset + 8 ≠ rtaddr)
include hoffset

/-- **Turning translation off.**  When it fails, translation is on or off for good, or the command
is in flight. -/
theorem On.ensures_disableAndPurge (h : u.On root) :
    Ensures (disableAndPurge capabilities pollLimit) u
      (fun _ t => t.Off ∧ strands pollLimit.toNat u.schedule = false)
      fun _ t => (t.On root ∨ t.Off) ∧ strands pollLimit.toNat u.schedule = false ∨
        t.Dousing ∧ waits 0 t.schedule = strands pollLimit.toNat u.schedule := by
  rw [disableAndPurge, ensures_bind, issueGlobalCommand, ensures_bind]
  refine ensures_readAs.mpr ⟨fun hread => ?_, fun e hread =>
    .inl ⟨.inl (stable_on.next h), by simp [strands, hread]⟩⟩
  have hon := stable_on.next (stable_on.next h)
  have hsent := hon.dousing_send (composed_translation u.next (some false) (.inl rfl))
  refine ensures_writeAs.mpr ⟨fun hwrite => ?_, fun e hwrite => ?_⟩
  · have hstrands : strands pollLimit.toNat u.schedule =
        waits pollLimit.toNat (later (later u.schedule)) := by
      have hwrite : (u.schedule 1).fault = none := hwrite
      simp [strands, hread, hwrite]
    rw [hstrands, if_pos rfl, ensures_bind, ensures_discard]
    refine hsent.ensures_poll.mono (fun _ t ht => ?_) fun _ t ht => ?_
    · exact (ensures_invalidateBoth hoffset stable_off ht.1).mono (fun _ _ h => ⟨h, ht.2⟩)
        fun _ _ h => .inl ⟨.inr h, ht.2⟩
    · exact ht.imp (fun h => ⟨.inr h.1, h.2⟩) id
  · have hwrite : (u.schedule 1).fault = some e := hwrite
    cases hlands : (u.schedule 1).lands with
    | true =>
      have hlands' : (u.next.schedule 0).lands = true := hlands
      rw [if_pos hlands']
      exact .inr ⟨hsent, by simp [strands, hread, hwrite, hlands, send, schedule_next]⟩
    | false =>
      have hlands' : ¬(u.next.schedule 0).lands = true := by
        rw [schedule_next, later, hlands]
        decide
      rw [if_neg hlands']
      exact .inl ⟨.inl hon, by simp [strands, hread, hwrite, hlands]⟩

/-- **Undoing a failed disable**, with translation on or off for good. -/
theorem ensures_rollbackDisable (h : u.On root ∨ u.Off) :
    Ensures (rollbackDisable capabilities root pollLimit) u (fun _ t => t.On root)
      fun _ _ => True := by
  have hstable : Stable fun t => t.On root ∨ t.Off :=
    ⟨fun h => h.imp stable_on.settled stable_off.settled,
      fun f h => h.imp (stable_on.schedule f) (stable_off.schedule f)⟩
  rw [rollbackDisable, ensures_bind]
  refine (ensures_read hstable h).mono (fun status t ht => ?_) fun _ _ _ => trivial
  obtain ⟨hphase, -, rfl⟩ := ht
  change Ensures (if (t.status &&& gstsTes != 0) = true then _ else _) _ _ _
  rw [status_translation]
  rcases hphase with hon | hoff
  · rw [hon.1]
    exact hon
  · rw [hoff.1]
    exact ensures_configureRoot hoffset hoff

/-- **Undoing a failed disable**, with the command in flight. -/
theorem Dousing.ensures_rollbackDisable (h : u.Dousing) :
    Ensures (rollbackDisable capabilities root pollLimit) u
      (fun _ t => t.On root ∧ waits 0 u.schedule = false ∨ t.Dousing ∧ waits 0 u.schedule = true)
      fun _ _ => waits 0 u.schedule = false := by
  rw [rollbackDisable, ensures_bind]
  refine ensures_readAs.mpr ⟨fun hread => ?_, fun e hread => by simp [waits, hread]⟩
  change Ensures (if (u.next.status &&& gstsTes != 0) = true then _ else _) _ _ _
  rw [status_translation]
  cases hout : (u.schedule 0).carriesOut with
  | true =>
    have hoff := h.next_off hout
    have hwaits : waits 0 u.schedule = false := by simp [waits, hout]
    rw [hoff.1]
    exact (ensures_configureRoot hoffset hoff).mono (fun _ _ h => .inl ⟨h, hwaits⟩) fun _ _ _ =>
      hwaits
  | false =>
    have hon := h.next hout
    rw [hon.1]
    exact .inr ⟨hon, by simp [waits, hout, hread]⟩

end

end RemappingUnit

/-! ## Calls -/

namespace Engine

open RemappingUnit

/-- What the state promises about the unit. -/
def Promises (state : VtdEngineState) (ownedRoot : Option UInt64) (u : RemappingUnit) : Prop :=
  match state with
  | .enabled => u.translation = true ∧ ownedRoot = some u.root
  | .disabled => u.translation = false
  | .foreignOwned | .poisoned => True

/-- The promise is kept now, and when the command in flight has been carried out. -/
def Truthful (engine : Engine RemappingUnit) : Prop :=
  Promises engine.state engine.ownedRoot engine.registers ∧
    Promises engine.state engine.ownedRoot engine.registers.settled

inductive Call where
  | enable (rootTableAddress : UInt64) (pollLimit : UInt32)
  | disable (pollLimit : UInt32)
  | commitTableUpdate (pollLimit : UInt32)

def Call.run : Call → EStateM VtdEngineFault (Engine RemappingUnit) (Option VtdEnableReceipt)
  | .enable rootTableAddress pollLimit => some <$> Engine.enable rootTableAddress pollLimit
  | .disable pollLimit => (fun _ => none) <$> Engine.disable pollLimit
  | .commitTableUpdate pollLimit => (fun _ => none) <$> Engine.commitTableUpdate pollLimit

/-- A result, as the answer to a request. -/
def answered {α : Type} : EStateM.Result VtdEngineFault (Engine RemappingUnit) α →
    Except VtdEngineFault α × Engine RemappingUnit
  | .ok a engine => (.ok a, engine)
  | .error fault engine => (.error fault, engine)

def step (engine : Engine RemappingUnit) (call : Call) :
    Except VtdEngineFault (Option VtdEnableReceipt) × Engine RemappingUnit :=
  answered (call.run engine)

/-- **The call that breaks the promise**: it is to turn translation off, and the unit carries that
out only after `rollback_disable` has looked. -/
def stranded (engine : Engine RemappingUnit) : Call → Bool
  | .disable pollLimit => engine.state == .enabled && pollLimit != 0 &&
      strands pollLimit.toNat engine.registers.schedule
  | _ => false

/-! ## Whole runs -/

/-- The phase that a state stands for. -/
def Phase (state : VtdEngineState) (ownedRoot : Option UInt64) (u : RemappingUnit) : Prop :=
  match state with
  | .enabled => ∃ root, ownedRoot = some root ∧ u.On root
  | .disabled => u.Off
  | .foreignOwned | .poisoned => True

/-- The unit is in the phase of the engine's state, and no invalidation register is one of the
three. -/
structure Governs (engine : Engine RemappingUnit) : Prop where
  offset : engine.capabilities.iotlbRegisterOffset + 8 ≠ rtaddr
  phase : Phase engine.state engine.ownedRoot engine.registers

variable {engine : Engine RemappingUnit} {root : UInt64} {pollLimit : UInt32}

theorem Governs.truthful (h : Governs engine) : Truthful engine := by
  obtain ⟨-, hphase⟩ := h
  rw [Truthful]
  cases hstate : engine.state with
  | enabled =>
    rw [hstate] at hphase
    obtain ⟨root, hroot, hon⟩ := hphase
    have hlater := stable_on.settled hon
    exact ⟨⟨hon.1, by rw [hroot, hon.2.1.1]⟩, hlater.1, by rw [hroot, hlater.2.1.1]⟩
  | disabled =>
    rw [hstate] at hphase
    exact ⟨hphase.1, (stable_off.settled hphase).1⟩
  | foreignOwned | poisoned => exact ⟨trivial, trivial⟩

/-- A unit whose command in flight will end translation is not what an enabled engine promises. -/
theorem not_truthful_of_dousing (hstate : engine.state = .enabled)
    (h : engine.registers.Dousing) : ¬Truthful engine := by
  intro htruth
  have hlater := htruth.2
  rw [hstate] at hlater
  obtain ⟨command, hcommand⟩ := isSome_iff_exists.mp h.2.1
  have hoff : engine.registers.settled.translation = false := by
    rw [settled, hcommand]
    exact h.2.2 command hcommand
  exact Bool.false_ne_true (hoff.symm.trans hlater.1)

variable {α : Type} {value : RemappingUnit → Tick → α}

section

variable (h : Governs engine)
include h

/-- A look at a register of a unit with translation off. -/
theorem ensures_look (hstate : engine.state = .disabled) :
    Ensures (onRegisters? (register (readAs value))) engine
      (fun _ t => Governs t ∧ t.state = .disabled ∧ t.capabilities = engine.capabilities)
      fun _ t => Governs t := by
  obtain ⟨hoffset, hphase⟩ := h
  rw [hstate] at hphase
  have hgoverns : ∀ u : RemappingUnit, u.Off → Governs { engine with registers := u } :=
    fun u hu => ⟨hoffset, by rw [hstate]; exact hu⟩
  rw [onRegisters?, ensures_bind, ensures_onRegisters]
  exact (ensures_read stable_off hphase).mono (fun _ t ht => ⟨hgoverns t ht.1, hstate, rfl⟩)
    fun _ t ht => hgoverns t ht

theorem ensures_refuseForeign {foreign : α → Bool} (hstate : engine.state = .disabled) :
    Ensures (refuseForeign (readAs value) foreign) engine
      (fun _ t => Governs t ∧ t.state = .disabled ∧ t.capabilities = engine.capabilities)
      fun _ t => Governs t := by
  rw [refuseForeign, ensures_bind]
  refine (ensures_look h hstate).imp_ok (fun v t ht => ?_)
  split
  · exact ⟨ht.1.offset, trivial⟩
  · exact ht

theorem Governs.ensures_enable :
    Ensures (enable root pollLimit) engine (fun _ t => Governs t) fun _ t => Governs t := by
  simp only [enable, ensures_rules, h, bne_eq_false_iff_eq]
  intro _ _ _ _ hstate
  refine (ensures_refuseForeign h hstate).imp_ok (fun _ e₁ h₁ => ?_)
  refine (ensures_refuseForeign h₁.1 h₁.2.1).imp_ok (fun _ e₂ h₂ => ?_)
  refine (ensures_refuseForeign h₂.1 h₂.2.1).imp_ok (fun _ e₃ h₃ => ?_)
  refine (ensures_look h₃.1 h₃.2.1).imp_ok (fun _ e₄ h₄ => ⟨fun _ => h₄.1, fun _ => ?_⟩)
  refine (ensures_look h₄.1 h₄.2.1).imp_ok (fun previousRoot e₅ h₅ => ?_)
  obtain ⟨⟨hoffset, hoff⟩, hstate, -⟩ := h₅
  rw [hstate] at hoff
  rw [ensures_onRegisters]
  refine (ensures_configureRoot h.offset hoff).mono (fun _ t ht => ?_) fun error t _ => ?_
  · exact ⟨hoffset, root, rfl, ht⟩
  · change Ensures (onRegisters _ >>= _) _ _ _
    rw [ensures_bind, ensures_onRegisters]
    exact (ensures_rollbackEnable h.offset).mono (fun _ t ht => ⟨hoffset, ht⟩)
      fun _ _ _ => ⟨hoffset, trivial⟩

theorem Governs.ensures_commitTableUpdate :
    Ensures (commitTableUpdate pollLimit) engine (fun _ t => Governs t) fun _ t => Governs t := by
  rw [commitTableUpdate, ensures_bind]
  refine ensures_ensureEnabled (fun root hstate _ hroot => ?_) fun _ _ => h
  obtain ⟨hoffset, hphase⟩ := h
  rw [hstate] at hphase
  obtain ⟨root, hroot, hon⟩ := hphase
  simp only [ensures_rules, ensures_onRegisters]
  refine (ensures_flushAndInvalidate hoffset stable_on hon fun seen t command hseen ht hte hsrtp =>
    ⟨ht.1, ht.2.1.send hsrtp, fun _ heq => ?_⟩).mono (fun _ t ht => ⟨hoffset, ?_⟩)
    fun _ _ _ => ⟨hoffset, trivial⟩
  · cases heq
    exact hte.trans hseen.1
  · rw [hstate]
    exact ⟨root, hroot, ht⟩

/-- What `disable` leaves: a kept promise, or translation on with the command in flight. -/
def Left (engine : Engine RemappingUnit) (pollLimit : UInt32) (t : Engine RemappingUnit) : Prop :=
  if stranded engine (.disable pollLimit) then t.state = .enabled ∧ t.registers.Dousing
  else Governs t

theorem Governs.ensures_disable :
    Ensures (disable pollLimit) engine (fun _ t => Left engine pollLimit t)
      fun _ t => Left engine pollLimit t := by
  rw [disable, ensures_bind]
  refine ensures_ensureEnabled (fun root hstate hpoll hroot => ?_) fun _ hrefused => ?_
  · obtain ⟨hoffset, hphase⟩ := h
    rw [hstate] at hphase
    obtain ⟨root', hroot', hon⟩ := hphase
    obtain rfl : root = root' := some.inj (hroot.symm.trans hroot')
    have hstranded : stranded engine (.disable pollLimit) =
        strands pollLimit.toNat engine.registers.schedule := by
      simp [stranded, hstate, hpoll]
    simp only [Left, hstranded, ensures_rules, ensures_onRegisters]
    refine (hon.ensures_disableAndPurge hoffset).mono (fun _ t ht => ?_) fun error t ht => ?_
    · simp only [ht.2, Bool.false_eq_true, if_false]
      exact ⟨hoffset, ht.1⟩
    · rcases ht with ⟨hquiet, hnot⟩ | ⟨hdousing, hwaits⟩
      · simp only [hnot, Bool.false_eq_true, if_false]
        exact (ensures_rollbackDisable hoffset hquiet).mono
          (fun _ t ht => ⟨hoffset, root, hroot, ht⟩) fun _ _ _ => ⟨hoffset, trivial⟩
      · rw [← hwaits]
        refine (hdousing.ensures_rollbackDisable hoffset).mono (fun _ t ht => ?_) fun _ t ht => ?_
        · rcases ht with ⟨hon, hnot⟩ | ⟨hdousing, hyes⟩
          · simp only [hnot, Bool.false_eq_true, if_false]
            exact ⟨hoffset, root, hroot, hon⟩
          · simp only [hyes, if_true]
            exact ⟨rfl, hdousing⟩
        · simp only [ht, Bool.false_eq_true, if_false]
          exact ⟨hoffset, trivial⟩
  · have hstranded : stranded engine (.disable pollLimit) = false := by
      rcases hrefused with hstate | hpoll | hroot
      · simp [stranded, hstate]
      · simp [stranded, hpoll]
      · have hstate : engine.state ≠ .enabled := by
          intro hstate
          have hphase := h.phase
          rw [hstate, hroot] at hphase
          obtain ⟨root, hsome, -⟩ := hphase
          exact some_ne_none root hsome.symm
        simp [stranded, hstate]
    simp only [Left, hstranded, Bool.false_eq_true, if_false]
    exact h

end

/-- What holds of both outcomes of an action holds of the engine it leaves. -/
theorem answered_of_ensures {x : EStateM VtdEngineFault (Engine RemappingUnit) α}
    {P : Engine RemappingUnit → Prop} (h : Ensures x engine (fun _ t => P t) fun _ t => P t) :
    P (answered (x engine)).2 := by
  obtain ⟨_, t, hx, ht⟩ | ⟨_, t, hx, ht⟩ := h.cases
  all_goals
    rw [hx]
    exact ht

/-- **One call** keeps the promise exactly when it is not stranded. -/
theorem Governs.step (h : Governs engine) (call : Call) :
    if stranded engine call then ¬Truthful (step engine call).2
    else Governs (step engine call).2 := by
  cases call with
  | enable root pollLimit =>
    exact answered_of_ensures (ensures_map.mpr h.ensures_enable)
  | disable pollLimit =>
    have hleft := answered_of_ensures (P := Left engine pollLimit)
      (ensures_map (f := fun _ : Unit => (none : Option VtdEnableReceipt)).mpr h.ensures_disable)
    rw [Left] at hleft
    split
    · next hyes =>
      rw [if_pos hyes] at hleft
      exact not_truthful_of_dousing hleft.1 hleft.2
    · next hno =>
      rw [if_neg hno] at hleft
      exact hleft
  | commitTableUpdate pollLimit =>
    exact answered_of_ensures (ensures_map.mpr h.ensures_commitTableUpdate)

/-! ## A fresh engine -/

/-- What `probe` finds out, on a unit that has not been told to translate. -/
theorem ensures_inspect (registerBase : UInt64) {u : RemappingUnit} (h : u.Falling) :
    Ensures (inspect registerBase) u
      (fun found t => found.2.1.iotlbRegisterOffset + 8 ≠ rtaddr ∧ Phase found.2.2 none t)
      fun _ _ => True := by
  have hany : ∀ {P : RemappingUnit → Prop} {α : Type} {value : RemappingUnit → Tick → α}
      {u : RemappingUnit}, Stable P → P u →
      Ensures (register (readAs value)) u (fun v t => P t ∧ ∃ tick, v = value t tick)
        fun _ _ => True :=
    fun hP h => (ensures_read hP h).imp_error fun _ _ _ => trivial
  simp only [inspect, ensures_rules]
  intro _ _
  refine (hany stable_falling h).imp_ok (fun versionRaw t₁ h₁ _ => ?_)
  refine (hany stable_falling h₁.1).imp_ok (fun capabilityRaw t₂ h₂ => ?_)
  refine (hany stable_falling h₂.1).imp_ok (fun extendedRaw t₃ h₃ _ => ?_)
  have hoffset : ((extendedRaw &&& ecapIroMask) >>> 8).toNat * 16 + 8 ≠ rtaddr := by
    rw [rtaddr]
    omega
  refine (hany stable_falling h₃.1).imp_ok (fun status t₄ h₄ => ?_)
  obtain ⟨hfalling, -, rfl⟩ := h₄
  -- what the status says of translation stays true
  have hstable : Stable fun t => t₄.status &&& gstsForeignOwnership = 0 → t.Off :=
    ⟨fun h hclear => stable_off.settled (h hclear),
      fun f h hclear => stable_off.schedule f (h hclear)⟩
  have hoff : t₄.status &&& gstsForeignOwnership = 0 → t₄.Off :=
    fun hclear => ⟨translation_eq_false hclear, hfalling⟩
  refine (hany hstable hoff).imp_ok (fun _ t₅ h₅ => ?_)
  refine (hany hstable h₅.1).imp_ok (fun _ t₆ h₆ => ⟨hoffset, ?_⟩)
  change Phase (if (t₄.status &&& gstsForeignOwnership != 0 || _ || _) = true then _ else _) none t₆
  split
  · trivial
  · next hnot =>
    refine h₆.1 ?_
    simp only [Bool.or_eq_true, bne_iff_ne, not_or, not_not] at hnot
    exact hnot.1.1

theorem governs_probe {segment : UInt16} {registerBase : UInt64} {u : RemappingUnit}
    (hquiet : u.Falling) (hprobe : probe segment registerBase u = .ok engine) :
    Governs engine := by
  rw [probe] at hprobe
  rcases (ensures_inspect registerBase hquiet).cases with
    ⟨found, t, hfound, hoffset, hphase⟩ | ⟨e, t, hfailed, -⟩
  · rw [hfound] at hprobe
    obtain rfl := Except.ok.inj hprobe
    exact ⟨hoffset, hphase⟩
  · rw [hfailed] at hprobe
    cases hprobe

/-- **When the state is truthful.**  On every unit that was not told to translate before the engine
looked at it, the state says the truth after every call of a run exactly when no call of it is
stranded. -/
theorem engine_truthful_iff (segment : UInt16) (registerBase : UInt64) (u : RemappingUnit)
    (engine : Engine RemappingUnit) (calls : List Call) (hquiet : u.Falling)
    (hprobe : probe segment registerBase u = .ok engine) :
    (∀ pre, pre <+: calls → Truthful (final step engine pre)) ↔
      EveryStep step (fun engine call => stranded engine call = false) engine calls := by
  refine (everyStep_iff_forall_prefix_of_invariant (I := Governs) (J := Truthful)
    (fun _ h => h.truthful) (fun engine call h hnot => ?_) (fun engine call h htruth => ?_)
    (governs_probe hquiet hprobe)).symm
  · have hstep := h.step call
    rwa [hnot] at hstep
  · have hstep := h.step call
    cases hcall : stranded engine call with
    | false => rfl
    | true =>
      rw [hcall] at hstep
      exact absurd htruth hstep

/-- A schedule that lets `probe` and `enable` succeed at once and carries out nothing after that. -/
def sampleSchedule (n : Nat) : Tick :=
  let answers : List (Nat × UInt64) :=
    [(0, 0x10), (1, 0x2f0100), (2, 0x1000), (18, ccmdCaigGlobal), (22, iotlbIaigGlobal)]
  ⟨n == 15 || n == 26, none, true, (answers.lookup n).getD 0⟩

def sampleUnit : RemappingUnit :=
  ⟨false, false, false, false, false, false, false, 0, 0, none, sampleSchedule⟩

/-- The engine on the sample unit. -/
def SampleEngine (engine : Engine RemappingUnit) : Prop :=
  probe 0 0xfed90000 sampleUnit = .ok engine

/-- **The state does not always say the truth.**  A root is installed and translation turned on; the
command to turn it off outlasts the one poll there is, and `disable` leaves the engine enabled with
that command in flight. -/
theorem engine_not_truthful : ∃ engine, SampleEngine engine ∧
    ¬Truthful (final step engine [.enable 0x1000 1, .disable 1]) := by
  have hlies : (probe 0 0xfed90000 sampleUnit).toOption.any (fun engine =>
      let left := final step engine [.enable 0x1000 1, .disable 1]
      left.state == .enabled && !left.registers.settled.translation) = true := by
    decide +kernel
  cases hprobe : probe 0 0xfed90000 sampleUnit with
  | error refused =>
    rw [hprobe] at hlies
    cases hlies
  | ok engine =>
    rw [hprobe] at hlies
    obtain ⟨hstate, hoff⟩ := (Bool.and_eq_true _ _).mp hlies
    refine ⟨engine, hprobe, fun htruth => ?_⟩
    have hlater := htruth.2
    rw [eq_of_beq hstate] at hlater
    exact Bool.false_ne_true ((Bool.not_eq_true' _).mp hoff |>.symm.trans hlater.1)

/-- The condition can be met: without the last call nothing is stranded. -/
theorem sampleEngine_truthful : ∃ engine, SampleEngine engine ∧
    ∀ pre, pre <+: [Call.enable 0x1000 1, .commitTableUpdate 1] →
      Truthful (final step engine pre) := by
  cases hprobe : probe 0 0xfed90000 sampleUnit with
  | error refused =>
    have hok : (probe 0 0xfed90000 sampleUnit).toOption.isSome = true := by decide +kernel
    rw [hprobe] at hok
    cases hok
  | ok engine =>
    refine ⟨engine, hprobe, ?_⟩
    exact (engine_truthful_iff 0 0xfed90000 sampleUnit engine _ (fun _ h => by cases h) hprobe).mpr
      ⟨rfl, rfl, trivial⟩

end Engine

end Sisyphus.Vtd
