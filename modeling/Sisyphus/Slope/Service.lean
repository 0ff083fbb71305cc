import Sisyphus.Foundation.Ensures
import Sisyphus.Foundation.Words

/-!
# Service curves and their controller

A model of `service_calculus.rs`.  A `ServiceController` admits a job when the delay it can promise
fits into the job's deadline, and hands out an `AdmissionCertificate` that says what the promise is
made of: the deterministic delay of the service curve, a guard learned from the delays of completed
jobs, and a penalty for a virtual backlog that is drained at the guaranteed rate.

Ticks, delays and roots are 64-bit words and every operation on them is the checked, saturating or
wrapping one of the source.  The capacity `N` of the calibrator is a type parameter as in the
source, and its ring is a `Vector`.
-/

set_option autoImplicit false

namespace Sisyphus.Slope

open Fallible Words

def q16One : UInt64 := 65536
def defaultConformalNumerator : UInt8 := 15
def defaultConformalDenominator : UInt8 := 16

/-! ## Roots -/

def mix (state word : UInt64) : UInt64 := Words.splitMix state word

/-! ## The curve -/

structure ServiceCurve where
  minimumCompletionsPerWindow : UInt16
  maximumAdmissionsPerWindow : UInt16
  windowTicks : UInt64
  latencyTicks : UInt64
  maximumBacklog : UInt16

namespace ServiceCurve

def valid (curve : ServiceCurve) : Bool :=
  curve.minimumCompletionsPerWindow != 0 && curve.maximumAdmissionsPerWindow != 0 &&
    curve.windowTicks != 0 && curve.maximumBacklog != 0 &&
    decide (curve.minimumCompletionsPerWindow ≤ curve.maximumBacklog) &&
    decide (curve.maximumAdmissionsPerWindow ≤ curve.maximumBacklog)

/-- Deterministic min-plus horizontal-deviation bound for one new job. -/
def deterministicDelay (curve : ServiceCurve) (backlogBefore : UInt64) : Option UInt64 :=
  if curve.valid = false ∨ curve.maximumBacklog.toNat ≤ backlogBefore.toNat then none
  else do
    let demand ← checkedAdd backlogBefore 1
    let service := curve.minimumCompletionsPerWindow.toUInt64
    let windows := (← checkedAdd demand (service - 1)) / service
    checkedAdd curve.latencyTicks (← checkedMul windows curve.windowTicks)

end ServiceCurve

def serviceCurveRoot (secret : UInt64) (curve : ServiceCurve) : UInt64 :=
  let state := mix secret curve.minimumCompletionsPerWindow.toUInt64
  let state := mix state curve.maximumAdmissionsPerWindow.toUInt64
  let state := mix state curve.windowTicks
  let state := mix state curve.latencyTicks
  mix state curve.maximumBacklog.toUInt64

/-! ## The calibrator -/

inductive CalibrationFault
  | zeroCapacity
  | invalidCoverage
  | timeRegression
  | arithmeticOverflow
  | corruptCertificate
  deriving DecidableEq

/-- Fixed-capacity one-sided split-conformal residual calibrator: a ring of the latest positive
underprediction residuals. -/
structure ResidualCalibrator (N : Nat) where
  residuals : Vector UInt64 N
  length : Nat
  cursor : Fin N
  samples : UInt64
  coverageNumerator : UInt8
  coverageDenominator : UInt8
  additiveSlack : UInt64
  maximumGuard : UInt64
  secret : UInt64
  root : UInt64
  length_le : length ≤ N
  coverage : coverageNumerator < coverageDenominator

namespace ResidualCalibrator

variable {N : Nat}

/-- The residuals that are in use, in the order of the array. -/
def retained (c : ResidualCalibrator N) : List UInt64 := c.residuals.toList.take c.length

def calibratorRoot (c : ResidualCalibrator N) : UInt64 :=
  let state := mix c.secret c.samples
  let state := mix state (UInt64.ofNat c.length)
  let state := mix state (UInt64.ofNat c.cursor.val)
  let state := mix state
    (c.coverageNumerator.toUInt64 ||| (c.coverageDenominator.toUInt64 <<< 8))
  let state := mix state c.additiveSlack
  let state := mix state c.maximumGuard
  c.retained.foldl mix state

/-- The source's `seal`. -/
def sealRoot (c : ResidualCalibrator N) : ResidualCalibrator N :=
  { c with root := c.calibratorRoot }

def new (N : Nat) (coverageNumerator coverageDenominator : UInt8)
    (additiveSlack maximumGuard secret : UInt64) :
    Except CalibrationFault (ResidualCalibrator N) :=
  if hN : N = 0 then .error .zeroCapacity
  else if h : coverageNumerator ≠ 0 ∧ coverageDenominator ≠ 0 ∧
      coverageNumerator < coverageDenominator ∧ maximumGuard ≠ 0 ∧ secret ≠ 0 then
    .ok <| sealRoot
      { residuals := Vector.replicate N 0
        length := 0
        cursor := ⟨0, Nat.pos_of_ne_zero hN⟩
        samples := 0
        coverageNumerator
        coverageDenominator
        additiveSlack
        maximumGuard
        secret
        root := 0
        length_le := Nat.zero_le N
        coverage := h.2.2.1 }
  else .error .invalidCoverage

def kernelDefault (N : Nat) (additiveSlack maximumGuard secret : UInt64) :
    Except CalibrationFault (ResidualCalibrator N) :=
  new N defaultConformalNumerator defaultConformalDenominator additiveSlack maximumGuard secret

/-- The position of the order statistic among the sorted residuals. -/
def rankIndex (c : ResidualCalibrator N) : Option Nat :=
  let numerator := (c.length + 1) * c.coverageNumerator.toNat
  let denominator := c.coverageDenominator.toNat
  if 2 ^ 64 ≤ numerator + (denominator - 1) then none
  else some (min ((numerator + (denominator - 1)) / denominator - 1) (c.length - 1))

def guard (c : ResidualCalibrator N) : Except CalibrationFault UInt64 :=
  if c.length = 0 then .ok (min c.additiveSlack c.maximumGuard)
  else
    let sorted := c.retained.insertionSort (· ≤ ·)
    match c.rankIndex with
    | none => .error .arithmeticOverflow
    | some index =>
      match checkedAdd (sorted.getD index 0) c.additiveSlack with
      | none => .error .arithmeticOverflow
      | some value => .ok (min value c.maximumGuard)

/-- Overwrites the oldest residual.  The new guard is computed from the calibrator it leaves, which
is kept even when the guard is an error. -/
def push (c : ResidualCalibrator N) (residual : UInt64) : ResidualCalibrator N :=
  sealRoot
    { c with
      residuals := c.residuals.set c.cursor (min residual c.maximumGuard)
      cursor := ⟨(c.cursor.val + 1) % N, Nat.mod_lt _ c.cursor.pos⟩
      length := min (c.length + 1) N
      samples := saturatingAdd c.samples 1
      length_le := Nat.min_le_right _ _ }

end ResidualCalibrator

/-! ## Certificates -/

inductive AdmissionFault
  | invalidCurve
  | backlogSaturated
  | arrivalEnvelopeExceeded
  | deadlineUnsafe
  | timeRegression
  | arithmeticOverflow
  | staleReservation
  | corruptObservation
  deriving DecidableEq

structure AdmissionCertificate where
  reservationSequence : UInt64
  admittedTick : UInt64
  windowStart : UInt64
  backlogBefore : UInt16
  admittedBefore : UInt16
  deterministicDelayTicks : UInt64
  uncertaintyGuardTicks : UInt64
  driftPenaltyTicks : UInt64
  delayBoundTicks : UInt64
  deadlineSlackTicks : UInt64
  curveRoot : UInt64
  calibrationRoot : UInt64
  certificateRoot : UInt64
  deriving DecidableEq

def AdmissionCertificate.valid (certificate : AdmissionCertificate) : Bool :=
  certificate.reservationSequence != 0 && certificate.delayBoundTicks != 0 &&
    certificate.curveRoot != 0 && certificate.calibrationRoot != 0 &&
    certificate.certificateRoot != 0

def admissionCertificateRoot (secret : UInt64) (certificate : AdmissionCertificate) : UInt64 :=
  let state := mix secret certificate.reservationSequence
  let state := mix state certificate.admittedTick
  let state := mix state certificate.windowStart
  let state := mix state
    (certificate.backlogBefore.toUInt64 ||| (certificate.admittedBefore.toUInt64 <<< 16))
  let state := mix state certificate.deterministicDelayTicks
  let state := mix state certificate.uncertaintyGuardTicks
  let state := mix state certificate.driftPenaltyTicks
  let state := mix state certificate.delayBoundTicks
  let state := mix state certificate.deadlineSlackTicks
  let state := mix state certificate.curveRoot
  mix state certificate.calibrationRoot

/-! ## The controller -/

structure ServiceController (N : Nat) where
  curve : ServiceCurve
  secret : UInt64
  windowStart : UInt64
  lastTick : UInt64
  admittedInWindow : UInt16
  reservationSequence : UInt64
  accepted : UInt64
  rejected : UInt64
  observed : UInt64
  virtualBacklogQ16 : UInt64
  curveRoot : UInt64
  calibrator : ResidualCalibrator N
  curve_valid : curve.valid = true

namespace ServiceController

variable {N : Nat}

def new (N : Nat) (curve : ServiceCurve) (nowTick secret : UInt64) :
    Except AdmissionFault (ServiceController N) :=
  if h : curve.valid = true ∧ secret ≠ 0 ∧ N ≠ 0 then
    let curveRoot := serviceCurveRoot secret curve
    if curveRoot = 0 then .error .invalidCurve
    else
      match checkedMul curve.windowTicks curve.maximumBacklog.toUInt64 with
      | none => .error .arithmeticOverflow
      | some maximumGuard =>
        match ResidualCalibrator.kernelDefault N 1 (max maximumGuard 1)
            (mix secret 0x43414c4942524154) with
        | .error _ => .error .invalidCurve
        | .ok calibrator => .ok
            { curve
              secret
              windowStart := nowTick
              lastTick := nowTick
              admittedInWindow := 0
              reservationSequence := 0
              accepted := 0
              rejected := 0
              observed := 0
              virtualBacklogQ16 := 0
              curveRoot
              calibrator
              curve_valid := h.1 }
  else .error .invalidCurve

/-- A controller action with its result. -/
abbrev Act (N : Nat) (α : Type) : Type := EStateM AdmissionFault (ServiceController N) α

def reject : Act N Unit :=
  modify fun c => { c with rejected := saturatingAdd c.rejected 1 }

def verifyCertificate (c : ServiceController N) (certificate : AdmissionCertificate) : Bool :=
  certificate.valid && certificate.curveRoot == c.curveRoot &&
    certificate.certificateRoot == admissionCertificateRoot c.secret certificate

def driftPenaltyTicks (c : ServiceController N) : UInt64 :=
  let jobs := c.virtualBacklogQ16 >>> 16
  if jobs = 0 then 0
  else
    let service := c.curve.minimumCompletionsPerWindow.toUInt64
    let windows := saturatingAdd jobs (service - 1) / service
    saturatingMul windows c.curve.windowTicks

/-- Enters the window that `windows` further windows lead to, and drains the virtual backlog. -/
def enterWindow (windows : UInt64) : Act N Unit := do
  let c ← get
  let ticks ← orThrow (checkedMul windows c.curve.windowTicks) .arithmeticOverflow
  let windowStart ← orThrow (checkedAdd c.windowStart ticks) .arithmeticOverflow
  modify fun c => { c with windowStart, admittedInWindow := 0 }
  let service ← orThrow ((checkedMul windows c.curve.minimumCompletionsPerWindow.toUInt64).bind
    fun value => checkedMul value q16One) .arithmeticOverflow
  modify fun c => { c with virtualBacklogQ16 := saturatingSub c.virtualBacklogQ16 service }

def advance (nowTick : UInt64) : Act N Unit := do
  let c ← get
  if nowTick < c.lastTick ∨ nowTick < c.windowStart then
    reject
    throw .timeRegression
  else
    let elapsed := nowTick - c.windowStart
    if c.curve.windowTicks ≤ elapsed then enterWindow (elapsed / c.curve.windowTicks)
    modify fun c => { c with lastTick := nowTick }

/-- Refuses a request and counts the refusal. -/
def rejectIf (cond : Bool) (fault : AdmissionFault) : Act N Unit :=
  if cond then do
    reject
    throw fault
  else pure ()

@[simp] theorem ensures_rejectIf {cond : Bool} {fault : AdmissionFault} {c : ServiceController N}
    {Q : Unit → ServiceController N → Prop} {E : AdmissionFault → ServiceController N → Prop} :
    Ensures (rejectIf cond fault) c Q E ↔
      (cond = true → E fault { c with rejected := saturatingAdd c.rejected 1 }) ∧
        (cond = false → Q () c) := by
  cases cond <;> simp [rejectIf, reject]

def admitRequest (nowTick deadlineTick backlogBefore : UInt64) : Act N AdmissionCertificate := do
  advance nowTick
  let c ← get
  rejectIf (decide (c.curve.maximumBacklog.toNat ≤ backlogBefore.toNat)) .backlogSaturated
  rejectIf (decide (c.curve.maximumAdmissionsPerWindow ≤ c.admittedInWindow))
    .arrivalEnvelopeExceeded
  let deterministic ← orThrow (c.curve.deterministicDelay backlogBefore) .backlogSaturated
  let uncertainty ← mapErr (fun _ => .arithmeticOverflow) (propagate c.calibrator.guard)
  let driftPenalty := c.driftPenaltyTicks
  let delay ← orThrow ((checkedAdd deterministic uncertainty).bind fun value =>
    checkedAdd value driftPenalty) .arithmeticOverflow
  let requiredDeadline ← orThrow (checkedAdd nowTick delay) .arithmeticOverflow
  rejectIf (decide (deadlineTick < requiredDeadline)) .deadlineUnsafe
  let reservationSequence ← orThrow (checkedAdd c.reservationSequence 1) .arithmeticOverflow
  refuse (decide (2 ^ 16 ≤ c.admittedInWindow.toNat + 1)) .arithmeticOverflow
  set { c with
    admittedInWindow := c.admittedInWindow + 1
    reservationSequence
    accepted := saturatingAdd c.accepted 1
    virtualBacklogQ16 := saturatingAdd c.virtualBacklogQ16 q16One }
  refuse (decide (2 ^ 16 ≤ backlogBefore.toNat)) .backlogSaturated
  let certificate : AdmissionCertificate :=
    { reservationSequence
      admittedTick := nowTick
      windowStart := c.windowStart
      backlogBefore := backlogBefore.toUInt16
      admittedBefore := c.admittedInWindow
      deterministicDelayTicks := deterministic
      uncertaintyGuardTicks := uncertainty
      driftPenaltyTicks := driftPenalty
      delayBoundTicks := delay
      deadlineSlackTicks := deadlineTick - requiredDeadline
      curveRoot := c.curveRoot
      calibrationRoot := c.calibrator.root
      certificateRoot := 0 }
  pure { certificate with certificateRoot := admissionCertificateRoot c.secret certificate }

def rollback (certificate : AdmissionCertificate) : Act N Unit := do
  let c ← get
  refuse (!c.verifyCertificate certificate || certificate.windowStart != c.windowStart ||
    certificate.reservationSequence != c.reservationSequence ||
    decide (c.admittedInWindow.toNat ≠ min (certificate.admittedBefore.toNat + 1) (2 ^ 16 - 1)))
    .staleReservation
  set { c with
    admittedInWindow := certificate.admittedBefore
    accepted := saturatingSub c.accepted 1
    virtualBacklogQ16 := saturatingSub c.virtualBacklogQ16 q16One }

/-- The virtual backlog added for a job that took longer than its bound. -/
def pressure (curve : ServiceCurve) (excess : UInt64) : UInt64 :=
  ((checkedMul excess q16One).map fun value => value / curve.windowTicks).getD 0xffffffffffffffff

def observeCompletion (certificate : AdmissionCertificate) (completionTick : UInt64) :
    Act N UInt64 := do
  let c ← get
  refuse (!c.verifyCertificate certificate || decide (completionTick < certificate.admittedTick))
    .corruptObservation
  advance completionTick
  let observedDelay := completionTick - certificate.admittedTick
  let predicted ← orThrow
    (checkedAdd certificate.deterministicDelayTicks certificate.driftPenaltyTicks)
    .arithmeticOverflow
  let residual := saturatingSub observedDelay predicted
  modify fun c => { c with calibrator := c.calibrator.push residual }
  let c ← get
  let guard ← mapErr (fun _ => .corruptObservation) (propagate c.calibrator.guard)
  modify fun c => { c with virtualBacklogQ16 := saturatingSub c.virtualBacklogQ16 q16One }
  if certificate.delayBoundTicks < observedDelay then
    modify fun c => { c with
      virtualBacklogQ16 := saturatingAdd c.virtualBacklogQ16
        (pressure c.curve (observedDelay - certificate.delayBoundTicks)) }
  modify fun c => { c with observed := saturatingAdd c.observed 1 }
  pure guard

/-! ## The curve stays -/

variable {c : ServiceController N}

theorem new_eq_ok {curve : ServiceCurve} {nowTick secret : UInt64}
    (h : new N curve nowTick secret = .ok c) : c.curve = curve ∧ c.reservationSequence = 0 ∧
      c.accepted = 0 ∧ c.observed = 0 := by
  obtain ⟨_, h⟩ := dite_eq_ok_error.mp h
  obtain ⟨-, h⟩ := ite_error_eq_ok.mp h
  split at h
  · cases h
  split at h
  · cases h
  · cases h
    exact ⟨rfl, rfl, rfl, rfl⟩

theorem ensures_advance_curve (nowTick : UInt64) :
    Ensures (advance nowTick) c (fun _ t => t.curve = c.curve) fun _ t => t.curve = c.curve := by
  simp only [advance, enterWindow, reject, ensures_rules, ensures_ite, and_self]

/-- Only below the maximal backlog is anything admitted. -/
theorem ensures_admitRequest_curve (nowTick deadlineTick backlogBefore : UInt64) :
    Ensures (admitRequest nowTick deadlineTick backlogBefore) c
      (fun _ t => t.curve = c.curve ∧ backlogBefore.toNat < c.curve.maximumBacklog.toNat)
      fun _ t => t.curve = c.curve := by
  simp only [admitRequest, ensures_rules, ensures_rejectIf, ensures_mapErr, decide_eq_false_iff_not,
    not_le]
  refine (ensures_advance_curve nowTick).imp_ok (fun _ t ht => ?_)
  simp only [ht, implies_true, true_and]
  exact fun hbacklog _ _ _ _ _ _ _ _ _ _ _ _ _ _ => hbacklog

theorem ensures_rollback_curve (certificate : AdmissionCertificate) :
    Ensures (rollback certificate) c (fun _ t => t.curve = c.curve)
      fun _ t => t.curve = c.curve := by
  simp only [rollback, ensures_rules, and_self]

theorem ensures_observeCompletion_curve (certificate : AdmissionCertificate)
    (completionTick : UInt64) :
    Ensures (observeCompletion certificate completionTick) c (fun _ t => t.curve = c.curve)
      fun _ t => t.curve = c.curve := by
  simp only [observeCompletion, ensures_rules, ensures_mapErr, ensures_ite]
  refine fun _ => (ensures_advance_curve completionTick).imp_ok (fun _ t ht => ?_)
  simp only [ht, implies_true, and_self]

end ServiceController

end Sisyphus.Slope
