import Sisyphus.Foundation.Fifo
import Sisyphus.Slope.Service

/-!
# Certificates are honest

What the controller writes on an `AdmissionCertificate`, in numbers instead of words: the parts of
the delay bound add up without overflow, the bound and the slack lead from the admission to the
deadline, and the deterministic part is a bound that a first-come server with the guaranteed rate
keeps.
-/

set_option autoImplicit false

namespace Sisyphus.Slope

open Fallible Option UInt64 Words

namespace ServiceCurve

/-- The whole windows that some jobs need at the minimum rate. -/
def windowsFor (curve : ServiceCurve) (jobs : Nat) : Nat :=
  (jobs + (curve.minimumCompletionsPerWindow.toNat - 1)) / curve.minimumCompletionsPerWindow.toNat

variable {curve : ServiceCurve}

theorem minimum_pos (h : curve.valid = true) : 0 < curve.minimumCompletionsPerWindow.toNat := by
  simp only [valid, Bool.and_eq_true, bne_iff_ne, Ne, ← UInt16.toNat_inj] at h
  have := h.1.1.1.1.1
  simp only [UInt16.toNat_zero] at this
  omega

theorem window_pos (h : curve.valid = true) : 0 < curve.windowTicks.toNat := by
  simp only [valid, Bool.and_eq_true, bne_iff_ne, Ne, ← UInt64.toNat_inj] at h
  have := h.1.1.1.2
  simp only [UInt64.toNat_zero] at this
  omega

/-- The windows counted are enough for the jobs. -/
theorem le_windowsFor_mul (h : curve.valid = true) (jobs : Nat) :
    jobs ≤ curve.windowsFor jobs * curve.minimumCompletionsPerWindow.toNat := by
  have hpos := minimum_pos h
  have hdiv := Nat.div_add_mod (jobs + (curve.minimumCompletionsPerWindow.toNat - 1))
    curve.minimumCompletionsPerWindow.toNat
  have hmod := Nat.mod_lt (jobs + (curve.minimumCompletionsPerWindow.toNat - 1)) hpos
  rw [windowsFor, Nat.mul_comm]
  omega

theorem toNat_service_sub_one (h : curve.valid = true) :
    (curve.minimumCompletionsPerWindow.toUInt64 - 1).toNat =
      curve.minimumCompletionsPerWindow.toNat - 1 := by
  have hpos := minimum_pos h
  rw [UInt64.toNat_sub_of_le _ _
    (by rw [UInt64.le_iff_toNat_le]; simpa using Nat.succ_le_of_lt hpos)]
  simp

theorem toNat_deterministicDelay {backlogBefore delay : UInt64}
    (h : curve.deterministicDelay backlogBefore = some delay) :
    delay.toNat = curve.latencyTicks.toNat +
      curve.windowsFor (backlogBefore.toNat + 1) * curve.windowTicks.toNat := by
  rw [deterministicDelay] at h
  split at h
  · cases h
  · next hcond =>
    have hvalid : curve.valid = true := by
      by_contra hne
      exact hcond (.inl (by simpa using hne))
    simp only [bind_eq_bind, bind_eq_some_iff, checkedAdd_eq_some, checkedMul_eq_some] at h
    obtain ⟨demand, hdemand, rounded, hrounded, ticks, hticks, hdelay⟩ := h
    rw [toNat_service_sub_one hvalid, ← hdemand] at hrounded
    rw [UInt64.toNat_div, ← hrounded] at hticks
    rw [← hdelay, ← hticks]
    simp [windowsFor]

end ServiceCurve

namespace ServiceController

variable {N : Nat}

/-- The drift penalty is the time the virtual backlog takes at the minimum rate, up to the largest
word. -/
theorem toNat_driftPenaltyTicks (c : ServiceController N) :
    c.driftPenaltyTicks.toNat =
      min (c.curve.windowsFor (c.virtualBacklogQ16.toNat / 2 ^ 16) * c.curve.windowTicks.toNat)
        (2 ^ 64 - 1) := by
  have hpos := ServiceCurve.minimum_pos c.curve_valid
  have hrate := c.curve.minimumCompletionsPerWindow.toNat_lt
  have hjobs : (c.virtualBacklogQ16 >>> 16).toNat = c.virtualBacklogQ16.toNat / 2 ^ 16 := by
    rw [UInt64.toNat_shiftRight, Nat.shiftRight_eq_div_pow]
    rfl
  have hbacklog := c.virtualBacklogQ16.toNat_lt
  rw [driftPenaltyTicks]
  by_cases hzero : c.virtualBacklogQ16 >>> 16 = 0
  · have hnone : c.virtualBacklogQ16.toNat / 2 ^ 16 = 0 := by
      rw [← hjobs, hzero]
      rfl
    have hwindows : c.curve.windowsFor 0 = 0 := Nat.div_eq_of_lt (by omega)
    rw [if_pos hzero, hnone, hwindows]
    simp
  · have hsum : (saturatingAdd (c.virtualBacklogQ16 >>> 16)
        (c.curve.minimumCompletionsPerWindow.toUInt64 - 1)).toNat =
        c.virtualBacklogQ16.toNat / 2 ^ 16 + (c.curve.minimumCompletionsPerWindow.toNat - 1) := by
      rw [toNat_saturatingAdd, hjobs, ServiceCurve.toNat_service_sub_one c.curve_valid]
      omega
    simp only [if_neg hzero, toNat_saturatingMul, UInt64.toNat_div, hsum, UInt16.toNat_toUInt64]
    rfl

/-- What an admission writes on the certificate.  `t` is the controller at the tick of the
admission, when the windows that have passed are accounted for. -/
structure Honest (c t : ServiceController N) (nowTick deadlineTick backlogBefore : UInt64)
    (certificate : AdmissionCertificate) : Prop where
  tick : certificate.admittedTick = nowTick
  backlog : certificate.backlogBefore.toNat = backlogBefore.toNat
  deadline : certificate.admittedTick.toNat + certificate.delayBoundTicks.toNat +
    certificate.deadlineSlackTicks.toNat = deadlineTick.toNat
  deterministic : certificate.deterministicDelayTicks.toNat = c.curve.latencyTicks.toNat +
    c.curve.windowsFor (certificate.backlogBefore.toNat + 1) * c.curve.windowTicks.toNat
  calibrated : c.calibrator.guard = .ok certificate.uncertaintyGuardTicks
  drift : certificate.driftPenaltyTicks.toNat =
    c.curve.windowsFor (t.virtualBacklogQ16.toNat / 2 ^ 16) * c.curve.windowTicks.toNat
  bound : certificate.delayBoundTicks.toNat = certificate.deterministicDelayTicks.toNat +
    certificate.uncertaintyGuardTicks.toNat + certificate.driftPenaltyTicks.toNat

theorem ensures_admit_honest (nowTick deadlineTick backlogBefore : UInt64)
    (c : ServiceController N) :
    Ensures (admitRequest nowTick deadlineTick backlogBefore) c
      (fun certificate _ => ∃ t, advance nowTick c = .ok () t ∧
        Honest c t nowTick deadlineTick backlogBefore certificate)
      fun _ _ => True := by
  simp only [admitRequest, ensures_rules, ensures_rejectIf, ensures_mapErr,
    bind_eq_some_iff, checkedAdd_eq_some, decide_eq_false_iff_not, not_le]
  -- the guard is the calibrator's, which the passing of time does not touch
  have hpass : Ensures (advance nowTick) c
      (fun _ t => t.calibrator = c.calibrator ∧ t.curve = c.curve) fun _ _ => True := by
    simp only [advance, enterWindow, reject, ensures_rules, ensures_ite, and_self]
  refine ((Ensures.self _ c).and hpass).mono ?_ fun _ _ _ => trivial
  rintro _ t ⟨hadvance, hcalibrator, hcurve⟩ hbacklog - deterministic hdeterministic uncertainty
    huncertainty delay ⟨part, hpart, hdelay⟩ required hrequired hdeadline sequence - - hsmall
  have hvalid := c.curve_valid
  have hdet := ServiceCurve.toNat_deterministicDelay hdeterministic
  rw [lt_iff_toNat_lt, not_lt] at hdeadline
  rw [hcurve] at hdet
  -- a drift penalty that was cut off would not have fitted into the delay
  have hdrift := t.toNat_driftPenaltyTicks
  rw [hcurve] at hdrift
  have hpositive : 0 < deterministic.toNat := by
    have hwindow := ServiceCurve.window_pos hvalid
    have henough := ServiceCurve.le_windowsFor_mul hvalid (backlogBefore.toNat + 1)
    have hwindows : 0 < c.curve.windowsFor (backlogBefore.toNat + 1) := by
      by_contra hzero
      rw [Nat.eq_zero_of_not_pos hzero] at henough
      omega
    have := Nat.mul_pos hwindows hwindow
    omega
  have hsmallBacklog : backlogBefore.toUInt16.toNat = backlogBefore.toNat := by
    rw [toNat_toUInt16]
    omega
  have hdelay_lt := delay.toNat_lt
  refine ⟨t, hadvance, rfl, hsmallBacklog, ?_, ?_, ?_, ?_, ?_⟩
  · change nowTick.toNat + delay.toNat + (deadlineTick - required).toNat = deadlineTick.toNat
    rw [UInt64.toNat_sub_of_le _ _ (UInt64.le_iff_toNat_le.mpr hdeadline)]
    omega
  · rw [hsmallBacklog]
    exact hdet
  · rw [← hcalibrator]
    exact huncertainty
  · change t.driftPenaltyTicks.toNat = _
    omega
  · change delay.toNat = deterministic.toNat + uncertainty.toNat + t.driftPenaltyTicks.toNat
    omega

/-- **Honest certificates.**  Whenever an admission succeeds, the admission tick, the delay bound
and the slack add up to the deadline; the bound is the deterministic delay of the reported backlog
and this job, the calibrated guard, and the time the virtual backlog takes at the minimum rate; and
a first-come server that completes in each window from the latency on at least the curve's minimum
of the jobs outstanding has finished the job within the deterministic delay. -/
theorem admission_certificate_honest {c c' : ServiceController N}
    {nowTick deadlineTick backlogBefore : UInt64} {certificate : AdmissionCertificate}
    (h : admitRequest nowTick deadlineTick backlogBefore c = .ok certificate c') :
    (∃ t, advance nowTick c = .ok () t ∧
      Honest c t nowTick deadlineTick backlogBefore certificate) ∧
    ∀ {Job : Type} (f : Fifo Job) (job : Job),
      (f.queue nowTick.toNat)[certificate.backlogBefore.toNat]? = some job →
      f.Serves c.curve.minimumCompletionsPerWindow.toNat c.curve.windowTicks.toNat
        (nowTick.toNat + c.curve.latencyTicks.toNat) →
      ∃ t, nowTick.toNat ≤ t ∧ t < nowTick.toNat + certificate.deterministicDelayTicks.toNat ∧
        job ∈ f.served t := by
  obtain ⟨t, hadvance, hhonest⟩ := (ensures_admit_honest _ _ _ c).of_ok h
  refine ⟨⟨t, hadvance, hhonest⟩, fun f job hjob hserves => ?_⟩
  rw [hhonest.deterministic]
  exact hserves.finishes hjob (ServiceCurve.le_windowsFor_mul c.curve_valid _)

/-- Two completions in a hundred ticks, after a latency of twenty. -/
def sampleCurve : ServiceCurve where
  minimumCompletionsPerWindow := 2
  maximumAdmissionsPerWindow := 4
  windowTicks := 100
  latencyTicks := 20
  maximumBacklog := 8

def sampleController : ServiceController 1 :=
  (new 1 sampleCurve 1000 7).toOption.get (by decide +kernel)

theorem new_eq_sampleController : new 1 sampleCurve 1000 7 = .ok sampleController :=
  eq_ok_get _ _

theorem sample_certificate_honest :
    ∃ certificate c', admitRequest 1000 2000 2 sampleController = .ok certificate c' ∧
      certificate.deterministicDelayTicks = 220 ∧
      certificate.admittedTick.toNat + certificate.delayBoundTicks.toNat +
        certificate.deadlineSlackTicks.toNat = 2000 := by
  have hok : ((admitRequest 1000 2000 2).run' sampleController).map
      AdmissionCertificate.deterministicDelayTicks = some 220 := by decide +kernel
  cases h : admitRequest 1000 2000 2 sampleController with
  | error fault c' =>
    delta EStateM.run' EStateM.run at hok
    rw [h] at hok
    cases hok
  | ok certificate c' =>
    delta EStateM.run' EStateM.run at hok
    rw [h] at hok
    obtain ⟨⟨t, -, hhonest⟩, -⟩ := admission_certificate_honest h
    exact ⟨certificate, c', rfl, Option.some.inj hok, hhonest.deadline⟩

end ServiceController

end Sisyphus.Slope
