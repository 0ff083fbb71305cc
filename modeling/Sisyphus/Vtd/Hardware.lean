import Sisyphus.Vtd.Engine
import Sisyphus.Foundation.Run

/-!
# A remapping unit with commands in flight

The engine drives its unit through three registers.  A write to `GCMD` is a command, which the unit
carries out some time later: only the command written last counts, and until it is carried out
nothing of it shows in `GSTS`, but that a command to load the root table pointer clears the status
bit of that operation at once and one to flush the write buffer sets it.  What the unit uses is the
root pointer that `RTADDR` held when the last such command was carried out.

Everything else is in a schedule with an entry for every access: whether the command in flight is
carried out just before, whether the access fails, whether a write that fails has taken effect, and
what a register answers that is not one of the three.  The engine's calls are deterministic
functions of a unit and its schedule.
-/

set_option autoImplicit false

namespace Sisyphus.Vtd

open Fallible

/-! ## The unit -/

/-- What happens at one register access. -/
structure Tick where
  carriesOut : Bool
  fault : Option VtdRegisterError
  lands : Bool
  answer : UInt64

/-- A remapping unit, with the bits of its status register. -/
structure RemappingUnit where
  translation : Bool
  advancedFaultLog : Bool
  queuedInvalidation : Bool
  interruptRemapping : Bool
  compatibilityInterrupts : Bool
  rootPointerSet : Bool
  writeBufferFlushing : Bool
  rootRegister : UInt64
  root : UInt64
  command : Option UInt32
  schedule : Nat → Tick

namespace RemappingUnit

def bit (b : Bool) (mask : UInt32) : UInt32 := if b then mask else 0

/-- The status register. -/
def status (u : RemappingUnit) : UInt32 :=
  bit u.translation gstsTes ||| bit u.rootPointerSet gstsRtps ||| bit u.advancedFaultLog gstsAfls
    ||| bit u.writeBufferFlushing gstsWbfs ||| bit u.queuedInvalidation gstsQies |||
    bit u.interruptRemapping gstsIres ||| bit u.compatibilityInterrupts gstsCfis

/-- The unit carries out a command. -/
def carryOut (u : RemappingUnit) (command : UInt32) : RemappingUnit :=
  { u with
    translation := command &&& gcmdTe != 0
    advancedFaultLog := command &&& gstsAfls != 0
    queuedInvalidation := command &&& gstsQies != 0
    interruptRemapping := command &&& gstsIres != 0
    compatibilityInterrupts := command &&& gstsCfis != 0
    root := if command &&& gcmdSrtp != 0 then u.rootRegister else u.root
    rootPointerSet := u.rootPointerSet || command &&& gcmdSrtp != 0
    writeBufferFlushing := u.writeBufferFlushing && command &&& gcmdWbf == 0
    command := none }

/-- The unit when the command in flight, if there is one, has been carried out. -/
def settled (u : RemappingUnit) : RemappingUnit :=
  match u.command with
  | none => u
  | some command => u.carryOut command

/-- The unit at its next access. -/
def next (u : RemappingUnit) : RemappingUnit :=
  { (if (u.schedule 0).carriesOut then u.settled else u) with
    schedule := fun n => u.schedule (n + 1) }

/-- A write to the command register. -/
def send (u : RemappingUnit) (command : UInt32) : RemappingUnit :=
  { u with
    command := some command
    rootPointerSet := u.rootPointerSet && command &&& gcmdSrtp == 0
    writeBufferFlushing := u.writeBufferFlushing || command &&& gcmdWbf != 0 }

/-- A read that may fail. -/
def readAs {α : Type} (value : RemappingUnit → Tick → α) :
    EStateM VtdRegisterError RemappingUnit α :=
  fun u =>
    match (u.schedule 0).fault with
    | none => .ok (value u.next (u.schedule 0)) u.next
    | some e => .error e u.next

/-- A write that may fail, and take effect all the same. -/
def writeAs (effect : RemappingUnit → RemappingUnit) :
    EStateM VtdRegisterError RemappingUnit Unit :=
  fun u =>
    match (u.schedule 0).fault with
    | none => .ok () (effect u.next)
    | some e => .error e (if (u.schedule 0).lands then effect u.next else u.next)

instance : VtdRegisterBackend RemappingUnit where
  readU32 offset := readAs fun u tick =>
    if offset = gsts then u.status else tick.answer.toUInt32
  writeU32 offset value := writeAs fun u => if offset = gcmd then u.send value else u
  readU64 offset := readAs fun u tick => if offset = rtaddr then u.rootRegister else tick.answer
  writeU64 offset value := writeAs fun u =>
    if offset = rtaddr then { u with rootRegister := value } else u
  relax := id

/-! ## The bits of commands -/

/-- The command that `issue_global_command` composes from the status it has read. -/
def composed (translationEnabled : Option Bool) (oneShot status : UInt32) : UInt32 :=
  (match translationEnabled with
    | some true => status &&& gstsPersistentCommandState ||| gcmdTe
    | some false => status &&& gstsPersistentCommandState &&& ~~~gcmdTe
    | none => status &&& gstsPersistentCommandState) ||| oneShot

theorem or_and (x y mask : UInt32) : (x ||| y) &&& mask = x &&& mask ||| y &&& mask := by
  refine UInt32.toBitVec_inj.mp (BitVec.eq_of_getLsbD_eq fun i _ => ?_)
  simp [Bool.and_or_distrib_right]

theorem bit_and_self (b : Bool) (mask : UInt32) : bit b mask &&& mask = bit b mask := by
  cases b <;> simp [bit]

theorem bit_and_eq_zero (b : Bool) {mask other : UInt32} (h : mask &&& other = 0) :
    bit b mask &&& other = 0 := by
  cases b <;> simp [bit, h]

theorem bit_bne_zero (b : Bool) {mask : UInt32} (h : mask ≠ 0) : (bit b mask != 0) = b := by
  cases b <;> simp [bit, h]

theorem status_and_gstsTes (u : RemappingUnit) :
    u.status &&& gstsTes = bit u.translation gstsTes := by
  simp (disch := decide) only [status, or_and, bit_and_self, bit_and_eq_zero, UInt32.or_zero]

theorem status_and_gstsRtps (u : RemappingUnit) :
    u.status &&& gstsRtps = bit u.rootPointerSet gstsRtps := by
  simp (disch := decide) only [status, or_and, bit_and_self, bit_and_eq_zero, UInt32.or_zero,
    UInt32.zero_or]

@[simp] theorem status_translation (u : RemappingUnit) :
    (u.status &&& gstsTes != 0) = u.translation := by
  rw [status_and_gstsTes, bit_bne_zero _ (by decide)]

@[simp] theorem status_rootPointerSet (u : RemappingUnit) :
    (u.status &&& gstsRtps != 0) = u.rootPointerSet := by
  rw [status_and_gstsRtps, bit_bne_zero _ (by decide)]

/-- What a unit shows as its own includes that it translates. -/
theorem translation_eq_false {u : RemappingUnit} (h : u.status &&& gstsForeignOwnership = 0) :
    u.translation = false := by
  have hzero : u.status &&& gstsTes = 0 := by
    rw [show gstsTes = gstsForeignOwnership &&& gstsTes by decide, ← UInt32.and_assoc, h,
      UInt32.zero_and]
  rw [← status_translation, hzero, bne_self_eq_false]

/-- What a command has of a mask comes from the status kept, from the request and from the pulse. -/
theorem composed_and (translationEnabled : Option Bool) (oneShot status mask : UInt32) :
    composed translationEnabled oneShot status &&& mask =
      (match translationEnabled with
        | some true =>
          status &&& (gstsPersistentCommandState &&& mask) ||| gcmdTe &&& mask
        | some false => status &&& (gstsPersistentCommandState &&& (~~~gcmdTe &&& mask))
        | none => status &&& (gstsPersistentCommandState &&& mask)) ||| oneShot &&& mask := by
  rcases translationEnabled with _ | _ | _ <;> simp only [composed, or_and, UInt32.and_assoc]

/-- A command says of translation what it was asked to, or what the status said. -/
theorem composed_translation (u : RemappingUnit) (translationEnabled : Option Bool)
    {oneShot : UInt32} (hone : oneShot = 0 ∨ oneShot = gcmdSrtp ∨ oneShot = gcmdWbf) :
    (composed translationEnabled oneShot u.status &&& gcmdTe != 0) =
      translationEnabled.getD u.translation := by
  have hnone : oneShot &&& gcmdTe = 0 := by rcases hone with rfl | rfl | rfl <;> decide
  have hkept : gstsPersistentCommandState &&& gcmdTe = gstsTes := by decide
  rw [composed_and, hnone, UInt32.or_zero, hkept]
  rcases translationEnabled with _ | _ | _
  · exact status_translation u
  · rw [show gstsPersistentCommandState &&& (~~~gcmdTe &&& gcmdTe) = 0 by decide, UInt32.and_zero]
    rfl
  · dsimp only
    rw [status_and_gstsTes]
    cases u.translation <;> decide

/-- A command loads the root pointer when it was asked to. -/
theorem composed_rootPointer (u : RemappingUnit) (translationEnabled : Option Bool)
    {oneShot : UInt32} (hone : oneShot = 0 ∨ oneShot = gcmdSrtp ∨ oneShot = gcmdWbf) :
    (composed translationEnabled oneShot u.status &&& gcmdSrtp != 0) = (oneShot == gcmdSrtp) := by
  have hkept : gstsPersistentCommandState &&& gcmdSrtp = 0 := by decide
  have hother : gcmdTe &&& gcmdSrtp = 0 := by decide
  have hcleared : gstsPersistentCommandState &&& (~~~gcmdTe &&& gcmdSrtp) = 0 := by decide
  rw [composed_and, hkept, hother, hcleared, UInt32.and_zero]
  rcases translationEnabled with _ | _ | _
  all_goals
    rw [UInt32.zero_or]
    rcases hone with rfl | rfl | rfl <;> decide

/-! ## Phases

What a unit will do about translation depends on what it does now and on the command in flight.  A
phase is a property of both that lasts until the next command is written. -/

/-- Neither time nor the schedule ends it. -/
structure Stable (P : RemappingUnit → Prop) : Prop where
  settled : ∀ {u}, P u → P u.settled
  schedule : ∀ {u} (schedule : Nat → Tick), P u → P { u with schedule }

variable {P : RemappingUnit → Prop}

theorem Stable.next (hP : Stable P) {u : RemappingUnit} (h : P u) :
    P u.next := by
  refine hP.schedule _ ?_
  split
  · exact hP.settled h
  · exact h

/-- A property is stable when it outlasts the command in flight and does not look at the
schedule. -/
theorem stable_of_carryOut
    (h : ∀ u command, P u → u.command = some command → P (u.carryOut command))
    (hschedule : ∀ {u} (schedule : Nat → Tick), P u → P { u with schedule }) : Stable P := by
  refine ⟨fun {u} hu => ?_, hschedule⟩
  rw [RemappingUnit.settled]
  split
  · exact hu
  · next command hcommand => exact h u command hu hcommand

/-- The command in flight, if there is one, does not ask for translation. -/
def Falling (u : RemappingUnit) : Prop :=
  ∀ command, u.command = some command → (command &&& gcmdTe != 0) = false

/-- Translation is off and stays off. -/
def Off (u : RemappingUnit) : Prop := u.translation = false ∧ u.Falling

/-- The unit has this root and keeps it. -/
def Holds (root : UInt64) (u : RemappingUnit) : Prop :=
  u.root = root ∧ ∀ command, u.command = some command → (command &&& gcmdSrtp != 0) = false

/-- The unit has been told to load this root, or has done it. -/
def Loading (root : UInt64) (u : RemappingUnit) : Prop :=
  u.Off ∧ u.rootRegister = root ∧ (u.rootPointerSet = true → u.Holds root)

/-- The unit, with its root, has been told to translate, or does. -/
def Rising (root : UInt64) (u : RemappingUnit) : Prop :=
  u.Holds root ∧ ∀ command, u.command = some command → (command &&& gcmdTe != 0) = true

/-- Translation is on, through this root, and stays on. -/
def On (root : UInt64) (u : RemappingUnit) : Prop := u.translation = true ∧ u.Rising root

/-- Translation is on, and a command is in flight that will turn it off. -/
def Dousing (u : RemappingUnit) : Prop :=
  u.translation = true ∧ u.command.isSome ∧ u.Falling

variable {Q : RemappingUnit → Prop}

section Stability

variable {root : UInt64}

theorem stable_falling : Stable Falling :=
  stable_of_carryOut (fun _ _ _ _ _ h => by cases h) fun _ h => h

theorem stable_off : Stable Off :=
  stable_of_carryOut (fun _ command h hcommand => ⟨h.2 command hcommand, fun _ h => by cases h⟩)
    fun _ h => h

theorem stable_holds : Stable (Holds root) := by
  refine stable_of_carryOut (fun u command h hcommand => ⟨?_, fun _ h => by cases h⟩) fun _ h => h
  rw [carryOut, h.2 command hcommand]
  exact h.1

theorem stable_loading : Stable (Loading root) := by
  refine stable_of_carryOut (fun u command h hcommand => ?_) fun _ h => h
  obtain ⟨hoff, hregister, hset⟩ := h
  refine ⟨⟨hoff.2 command hcommand, fun _ h => by cases h⟩, hregister, fun hloaded =>
    ⟨?_, fun _ h => by cases h⟩⟩
  -- either this command loads the root, or the status bit was set before it
  cases hload : (command &&& gcmdSrtp != 0) with
  | true => simp only [carryOut, hload, if_true, hregister]
  | false =>
    simp only [carryOut, hload, Bool.or_false] at hloaded
    simp only [carryOut, hload, Bool.false_eq_true, if_false]
    exact (hset hloaded).1

theorem stable_rising : Stable (Rising root) :=
  ⟨fun h => ⟨stable_holds.settled h.1, (stable_of_carryOut
      (P := fun u => ∀ command, u.command = some command → (command &&& gcmdTe != 0) = true)
      (fun _ _ _ _ _ h => by cases h) fun _ h => h).settled h.2⟩,
    fun schedule h => ⟨stable_holds.schedule schedule h.1, h.2⟩⟩

theorem stable_on : Stable (On root) := by
  refine ⟨fun {u} h => ⟨?_, stable_rising.settled h.2⟩, fun _ h => h⟩
  rw [RemappingUnit.settled]
  split
  · exact h.1
  · next command hcommand => exact h.2.2 command hcommand

theorem Stable.and (hP : Stable P) (hQ : Stable Q) :
    Stable fun u => P u ∧ Q u :=
  ⟨fun h => ⟨hP.settled h.1, hQ.settled h.2⟩, fun f h => ⟨hP.schedule f h.1, hQ.schedule f h.2⟩⟩

end Stability

/-! ## Accesses -/

section Accesses

variable {u : RemappingUnit} {P : RemappingUnit → Prop} {E : VtdEngineFault → RemappingUnit → Prop}
variable {α : Type}

theorem ensures_readAs {value : RemappingUnit → Tick → α} {Q : α → RemappingUnit → Prop} :
    Ensures (register (readAs value)) u Q E ↔
      ((u.schedule 0).fault = none → Q (value u.next (u.schedule 0)) u.next) ∧
        ∀ e, (u.schedule 0).fault = some e → E (.register e) u.next := by
  rw [Ensures, register, readAs]
  cases (u.schedule 0).fault with
  | none | some e => simp

variable {effect : RemappingUnit → RemappingUnit}

theorem ensures_writeAs {Q : Unit → RemappingUnit → Prop} :
    Ensures (register (writeAs effect)) u Q E ↔
      ((u.schedule 0).fault = none → Q () (effect u.next)) ∧ ∀ e, (u.schedule 0).fault = some e →
          E (.register e) (if (u.schedule 0).lands then effect u.next else u.next) := by
  rw [Ensures, register, writeAs]
  cases (u.schedule 0).fault with
  | none | some e => simp

/-- A read keeps the phase. -/
theorem ensures_read {value : RemappingUnit → Tick → α} (hP : Stable P) (h : P u) :
    Ensures (register (readAs value)) u (fun v t => P t ∧ ∃ tick, v = value t tick)
      fun _ t => P t :=
  ensures_readAs.mpr ⟨fun _ => ⟨hP.next h, _, rfl⟩, fun _ _ => hP.next h⟩

/-- A write has its effect in the phase, and may have it when it fails. -/
theorem ensures_write (hP : Stable P) (h : P u) (heffect : ∀ t, P t → Q (effect t)) :
    Ensures (register (writeAs effect)) u (fun _ t => Q t) fun _ t => P t ∨ Q t := by
  refine ensures_writeAs.mpr ⟨fun _ => heffect _ (hP.next h), fun _ _ => ?_⟩
  split
  · exact .inr (heffect _ (hP.next h))
  · exact .inl (hP.next h)

variable {operation : VtdOperation}

/-- Polling keeps the phase, and ends well with a value that was waited for. -/
theorem ensures_poll {value : RemappingUnit → Tick → α} {done : α → Bool} {turns : Nat}
    (hP : Stable P) (h : P u) :
    Ensures (pollUntil (readAs value) done operation turns) u
      (fun v t => P t ∧ (∃ tick, v = value t tick) ∧ done v = true) fun _ t => P t := by
  induction turns generalizing u with
  | zero => exact h
  | succ turns ih =>
    rw [pollUntil, ensures_bind]
    refine (ensures_read hP h).imp_ok (fun v t ht => ?_)
    split
    · next hdone => exact ⟨ht.1, ht.2, hdone⟩
    · exact ih ht.1

/-- Waiting for a bit of the status. -/
theorem ensures_waitStatus {mask pollLimit : UInt32} {set : Bool} (hP : Stable P) (h : P u) :
    Ensures (discard (waitU32 gsts mask set pollLimit operation)) u
      (fun _ t => P t ∧ (t.status &&& mask != 0) = set) fun _ t => P t := by
  rw [ensures_discard]
  refine (ensures_poll hP h).imp_ok (fun v t ht => ?_)
  obtain ⟨hphase, ⟨tick, rfl⟩, hdone⟩ := ht
  exact ⟨hphase, by simpa using hdone⟩

end Accesses

end RemappingUnit

end Sisyphus.Vtd
