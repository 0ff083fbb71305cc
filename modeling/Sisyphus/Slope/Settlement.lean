import Sisyphus.Foundation.Run
import Sisyphus.Slope.Honesty

/-!
# Settling an admission

An admission is settled by rolling it back or by observing its completion, and each should happen
to a certificate at most once.  `rollback` sees to it by itself: it accepts the latest certificate
of the current window only, and undoes what made it acceptable.  `observe_completion` keeps no
record at all, so a certificate that was observed or rolled back verifies as before and is accepted
again (`certificate_observed_twice`).

`Journal` is the controller with the certificates it has issued and those that took effect.  The
rule that single use then depends on is `Permitted`, a rule for the callers, and
`settled_at_most_once` is what holds in every run that keeps to it.
-/

set_option autoImplicit false

namespace Sisyphus.Slope

open Fallible List Run ServiceController Words

/-! ## The journal -/

/-- A controller, the certificates it has issued, and those that were accepted by
`observe_completion` and by `rollback`, the latest first. -/
structure Journal (N : Nat) where
  controller : ServiceController N
  issued : List AdmissionCertificate
  observed : List AdmissionCertificate
  rolledBack : List AdmissionCertificate

inductive Request
  | admitRequest (nowTick deadlineTick backlogBefore : UInt64)
  | rollback (certificate : AdmissionCertificate)
  | observeCompletion (certificate : AdmissionCertificate) (completionTick : UInt64)
  | advance (nowTick : UInt64)

inductive Reply
  | admitted (certificate : AdmissionCertificate)
  | rolledBack
  | observed (guard : UInt64)
  | advanced
  | refused (fault : AdmissionFault)

namespace Journal

variable {N : Nat}

def start (c : ServiceController N) : Journal N := ⟨c, [], [], []⟩

/-- Enters the result of a call: the controller it leaves, and what it did if it was accepted. -/
def enter {α : Type} (j : Journal N) (reply : α → Reply) (entry : α → Journal N → Journal N) :
    EStateM.Result AdmissionFault (ServiceController N) α → Reply × Journal N
  | .ok a c => (reply a, entry a { j with controller := c })
  | .error fault c => (.refused fault, { j with controller := c })

def step (j : Journal N) : Request → Reply × Journal N
  | .admitRequest nowTick deadlineTick backlogBefore =>
    j.enter .admitted (fun certificate j => { j with issued := certificate :: j.issued })
      (ServiceController.admitRequest nowTick deadlineTick backlogBefore j.controller)
  | .rollback certificate =>
    j.enter (fun _ => .rolledBack) (fun _ j => { j with rolledBack := certificate :: j.rolledBack })
      (ServiceController.rollback certificate j.controller)
  | .observeCompletion certificate completionTick =>
    j.enter .observed (fun _ j => { j with observed := certificate :: j.observed })
      (ServiceController.observeCompletion certificate completionTick j.controller)
  | .advance nowTick =>
    j.enter (fun _ => .advanced) (fun _ j => j) (ServiceController.advance nowTick j.controller)

/-- What the callers must keep to: a certificate that verifies is one the controller issued, it is
not presented again after it was observed, and not presented for observation after it was rolled
back.  Rolling back twice is allowed. -/
def Permitted (j : Journal N) : Request → Prop
  | .observeCompletion certificate _ => j.controller.verifyCertificate certificate = true →
    certificate ∈ j.issued ∧ certificate ∉ j.observed ∧ certificate ∉ j.rolledBack
  | .rollback certificate => j.controller.verifyCertificate certificate = true →
    certificate ∈ j.issued ∧ certificate ∉ j.observed
  | .admitRequest _ _ _ => True
  | .advance _ => True

instance (j : Journal N) : (request : Request) → Decidable (j.Permitted request)
  | .observeCompletion _ _ => inferInstanceAs (Decidable (_ → _))
  | .rollback _ => inferInstanceAs (Decidable (_ → _))
  | .admitRequest _ _ _ => .isTrue trivial
  | .advance _ => .isTrue trivial

end Journal

/-! ## What a call does to the counters -/

variable {N : Nat} {certificate : AdmissionCertificate} {t : ServiceController N}

namespace ServiceController

variable {c : ServiceController N}

/-- Time may have passed: a new window may have begun, and nothing was admitted, rolled back or
observed. -/
structure Later (c t : ServiceController N) : Prop where
  sequence : t.reservationSequence = c.reservationSequence
  accepted : t.accepted = c.accepted
  observed : t.observed = c.observed
  window : (t.windowStart = c.windowStart ∧ t.admittedInWindow = c.admittedInWindow) ∨
    c.windowStart.toNat < t.windowStart.toNat

theorem Later.refl (c : ServiceController N) : Later c c := ⟨rfl, rfl, rfl, .inl ⟨rfl, rfl⟩⟩

theorem ensures_advance (nowTick : UInt64) (c : ServiceController N) :
    Ensures (advance nowTick) c (fun _ t => Later c t) fun _ t => Later c t := by
  have hwindow := ServiceCurve.window_pos c.curve_valid
  simp only [advance, enterWindow, reject, ensures_rules, ensures_ite, checkedAdd_eq_some,
    checkedMul_eq_some]
  refine ⟨fun _ => ⟨rfl, rfl, rfl, .inl ⟨rfl, rfl⟩⟩, fun _ => ⟨fun helapsed => ?_, fun _ => ?_⟩⟩
  · refine ⟨fun _ => .refl c, fun ticks hticks => ⟨fun _ => .refl c, fun start hstart => ?_⟩⟩
    -- at least one window has passed, so the next one starts later
    have hpassed : 0 < ticks.toNat := by
      rw [← hticks, UInt64.toNat_div]
      exact Nat.mul_pos (Nat.div_pos helapsed hwindow) hwindow
    have hlater : c.windowStart.toNat < start.toNat := by omega
    exact ⟨fun _ => ⟨rfl, rfl, rfl, .inr hlater⟩, fun _ _ => ⟨rfl, rfl, rfl, .inr hlater⟩⟩
  · exact ⟨rfl, rfl, rfl, .inl ⟨rfl, rfl⟩⟩

/-- An admission numbers its certificate with the next number. -/
theorem ensures_admitRequest (nowTick deadlineTick backlogBefore : UInt64)
    (c : ServiceController N) :
    Ensures (admitRequest nowTick deadlineTick backlogBefore) c
      (fun certificate t => t.reservationSequence.toNat = c.reservationSequence.toNat + 1 ∧
        certificate.reservationSequence = t.reservationSequence ∧
        certificate.admittedBefore.toNat + 1 < 2 ^ 16 ∧
        t.accepted = saturatingAdd c.accepted 1 ∧ t.observed = c.observed)
      fun _ t => Later c t := by
  simp only [admitRequest, ensures_rules, ensures_rejectIf, ensures_mapErr, checkedAdd_eq_some,
    decide_eq_false_iff_not, not_le, decide_eq_true_eq]
  refine (ensures_advance nowTick c).imp_ok ?_
  intro _ t hlater
  have hrejected : Later c { t with rejected := saturatingAdd t.rejected 1 } :=
    ⟨hlater.sequence, hlater.accepted, hlater.observed, hlater.window⟩
  refine ⟨fun _ => hrejected, fun hbacklog => ⟨fun _ => hrejected, fun _ => ?_⟩⟩
  refine ⟨fun _ => hlater, fun deterministic _ => ⟨fun _ _ => hlater, fun uncertainty _ => ?_⟩⟩
  refine ⟨fun _ => hlater, fun delay _ => ⟨fun _ => hlater, fun required _ => ?_⟩⟩
  refine ⟨fun _ => hrejected, fun _ => ⟨fun _ => hlater, fun sequence hsequence => ?_⟩⟩
  refine ⟨fun _ => hlater, fun hroom => ⟨fun hlarge => ?_, fun _ => ?_⟩⟩
  · -- the backlog is below its maximum, which is a sixteen-bit word
    have := t.curve.maximumBacklog.toNat_lt
    omega
  · refine ⟨?_, hroom, by rw [← hlater.accepted], hlater.observed⟩
    rw [← hlater.sequence]
    exact hsequence.symm

/-- A rollback is of the latest certificate, and takes its place in the window away. -/
theorem ensures_rollback (certificate : AdmissionCertificate) (c : ServiceController N) :
    Ensures (rollback certificate) c (fun _ t => c.verifyCertificate certificate = true ∧
        certificate.windowStart = c.windowStart ∧
        certificate.reservationSequence = c.reservationSequence ∧
        c.admittedInWindow.toNat = min (certificate.admittedBefore.toNat + 1) (2 ^ 16 - 1) ∧
        t.windowStart = c.windowStart ∧ t.reservationSequence = c.reservationSequence ∧
        t.admittedInWindow = certificate.admittedBefore ∧
        t.accepted = saturatingSub c.accepted 1 ∧ t.observed = c.observed)
      fun fault t => fault = .staleReservation ∧ t = c := by
  simp only [rollback, ensures_rules, and_self, and_true,
    Bool.or_eq_false_iff, Bool.not_eq_false', bne_eq_false_iff_eq, decide_eq_false_iff_not, not_not]
  rintro ⟨⟨⟨hverify, hwindow⟩, hsequence⟩, hadmitted⟩
  exact ⟨hverify, hwindow, hsequence, hadmitted⟩

/-- An observation is counted, and nothing keeps it from being made again. -/
theorem ensures_observeCompletion (certificate : AdmissionCertificate) (completionTick : UInt64)
    (c : ServiceController N) :
    Ensures (observeCompletion certificate completionTick) c
      (fun _ t => c.verifyCertificate certificate = true ∧
        Later { c with observed := saturatingAdd c.observed 1 } t)
      fun _ t => Later c t := by
  simp only [observeCompletion, ensures_rules, ensures_mapErr, ensures_ite]
  refine ⟨fun _ => .refl c, fun hok => ?_⟩
  have hverify : c.verifyCertificate certificate = true := by
    simp only [Bool.or_eq_false_iff, Bool.not_eq_false'] at hok
    exact hok.1
  refine (ensures_advance completionTick c).imp_ok ?_
  intro _ t hlater
  have hcounted : saturatingAdd t.observed 1 = saturatingAdd c.observed 1 := by rw [hlater.observed]
  refine ⟨fun _ => hlater, fun _ _ => ⟨fun _ _ => ?_, fun _ _ => ⟨fun _ => ⟨hverify, ?_⟩,
    fun _ => ⟨hverify, ?_⟩⟩⟩⟩
  · exact ⟨hlater.sequence, hlater.accepted, hlater.observed, hlater.window⟩
  all_goals exact ⟨hlater.sequence, hlater.accepted, hcounted, hlater.window⟩

/-! ## Rolled-back certificates stay stale -/

/-- Why a certificate cannot be rolled back: a later one was issued, its window is over, or its
place in the window is taken away. -/
def Spent (c : ServiceController N) (certificate : AdmissionCertificate) : Prop :=
  certificate.reservationSequence.toNat < c.reservationSequence.toNat ∨
    certificate.windowStart.toNat < c.windowStart.toNat ∨
    (certificate.windowStart = c.windowStart ∧
      c.admittedInWindow.toNat ≤ certificate.admittedBefore.toNat)

theorem Spent.later (h : c.Spent certificate) (hlater : Later c t) : t.Spent certificate := by
  obtain hsequence | hwindow | ⟨hwindow, hplace⟩ := h
  · exact .inl (hlater.sequence ▸ hsequence)
  · obtain ⟨hsame, -⟩ | hnext := hlater.window
    · exact .inr (.inl (hsame ▸ hwindow))
    · exact .inr (.inl (hwindow.trans hnext))
  · obtain ⟨hsame, hadmitted⟩ | hnext := hlater.window
    · exact .inr (.inr ⟨hwindow.trans hsame.symm, hadmitted ▸ hplace⟩)
    · exact .inr (.inl (hwindow ▸ hnext))

/-- A spent certificate is refused, and the controller is as before. -/
theorem Spent.rollback_eq (h : c.Spent certificate)
    (hsmall : certificate.admittedBefore.toNat + 1 < 2 ^ 16) :
    rollback certificate c = .error .staleReservation c := by
  obtain ⟨_, t, -, -, hwindow, hsequence, hadmitted, -⟩ | ⟨fault, t, hx, rfl, rfl⟩ :=
    (ensures_rollback certificate c).cases
  · obtain h | h | ⟨-, h⟩ := h
    · rw [hsequence] at h
      omega
    · rw [hwindow] at h
      omega
    · omega
  · exact hx

end ServiceController

/-! ## The journal balances -/

namespace Journal

variable {j : Journal N}

/-- The certificates issued are numbered apart, the settled ones are among them and settled once,
and the counters of the controller are the lengths of the lists. -/
structure Balanced (j : Journal N) : Prop where
  length_issued : j.issued.length = j.controller.reservationSequence.toNat
  numbered : (j.issued.map AdmissionCertificate.reservationSequence).Nodup
  le_sequence : ∀ certificate ∈ j.issued,
    certificate.reservationSequence.toNat ≤ j.controller.reservationSequence.toNat
  small : ∀ certificate ∈ j.issued, certificate.admittedBefore.toNat + 1 < 2 ^ 16
  settled : ∀ certificate ∈ j.observed ++ j.rolledBack, certificate ∈ j.issued
  nodup : (j.observed ++ j.rolledBack).Nodup
  spent : ∀ certificate ∈ j.rolledBack, j.controller.Spent certificate
  accepted : j.controller.accepted.toNat + j.rolledBack.length = j.issued.length
  observed : j.controller.observed.toNat = j.observed.length

section

variable (h : Balanced j)
include h

theorem Balanced.length_le : j.observed.length + j.rolledBack.length ≤ j.issued.length := by
  rw [← length_append]
  exact (h.nodup.subperm h.settled).length_le

theorem Balanced.length_lt
    (hissued : certificate ∈ j.issued) (hopen : certificate ∉ j.observed ++ j.rolledBack) :
    j.observed.length + j.rolledBack.length < j.issued.length := by
  have hsub : ∀ x ∈ certificate :: (j.observed ++ j.rolledBack), x ∈ j.issued :=
    forall_mem_cons.mpr ⟨hissued, h.settled⟩
  have := ((nodup_cons.mpr ⟨hopen, h.nodup⟩).subperm hsub).length_le
  rw [length_cons, length_append] at this
  omega

theorem Balanced.later
    (hlater : ServiceController.Later j.controller t) : Balanced { j with controller := t } where
  length_issued := by rw [hlater.sequence]; exact h.length_issued
  numbered := h.numbered
  le_sequence := by rw [hlater.sequence]; exact h.le_sequence
  small := h.small
  settled := h.settled
  nodup := h.nodup
  spent certificate hmem := (h.spent certificate hmem).later hlater
  accepted := by rw [hlater.accepted]; exact h.accepted
  observed := by rw [hlater.observed]; exact h.observed

theorem Balanced.step_admitRequest (nowTick deadlineTick backlogBefore : UInt64) :
    Balanced (step j (.admitRequest nowTick deadlineTick backlogBefore)).2 := by
  obtain ⟨certificate, t, hx, hsequence, hnumber, hsmall, haccepted, hobserved⟩ |
    ⟨fault, t, hx, hlater⟩ :=
      (ensures_admitRequest nowTick deadlineTick backlogBefore j.controller).cases
  · rw [step, hx, enter]
    have hbelow : ∀ other ∈ j.issued,
        other.reservationSequence.toNat < t.reservationSequence.toNat := by
      intro other hmem
      have := h.le_sequence other hmem
      omega
    have htotal := h.length_issued
    have hbalance := h.accepted
    have hlt := t.reservationSequence.toNat_lt
    refine ⟨?_, ?_, ?_, ?_, fun other hmem => mem_cons_of_mem _ (h.settled other hmem),
      h.nodup, fun other hmem => .inl (hbelow other ?_), ?_, hobserved ▸ h.observed⟩
    · rw [length_cons, htotal]
      exact hsequence.symm
    · refine nodup_cons.mpr ⟨fun hmem => ?_, h.numbered⟩
      obtain ⟨other, hother, heq⟩ := mem_map.mp hmem
      have := hbelow other hother
      rw [heq, hnumber] at this
      omega
    · exact forall_mem_cons.mpr ⟨hnumber ▸ Nat.le_refl _, fun other hmem => (hbelow other hmem).le⟩
    · exact forall_mem_cons.mpr ⟨hsmall, h.small⟩
    · exact h.settled other (mem_append_right _ hmem)
    · change t.accepted.toNat + j.rolledBack.length = j.issued.length + 1
      rw [haccepted, toNat_saturatingAdd, UInt64.toNat_one]
      omega
  · rw [step, hx, enter]
    exact h.later hlater

/-- A rollback that is accepted is the first one of its certificate: after the first, the
certificate is spent. -/
theorem Balanced.step_rollback (hpermitted : j.Permitted (.rollback certificate)) :
    Balanced (step j (.rollback certificate)).2 := by
  obtain ⟨_, t, hx, hverify, hwindow, hsequence, hadmitted, hsame, hlast, hplace, haccepted,
    hobserved⟩ | ⟨fault, t, hx, -, rfl⟩ :=
      (ensures_rollback certificate j.controller).cases
  · obtain ⟨hissued, hunobserved⟩ := hpermitted hverify
    have hfirst : certificate ∉ j.rolledBack := by
      intro hmem
      rw [(h.spent certificate hmem).rollback_eq (h.small certificate hissued)] at hx
      cases hx
    have hopen : certificate ∉ j.observed ++ j.rolledBack := by simp [hunobserved, hfirst]
    have hroom := h.length_lt hissued hopen
    have hbalance := h.accepted
    rw [step, hx, enter]
    refine ⟨hlast ▸ h.length_issued, h.numbered, hlast ▸ h.le_sequence, h.small, ?_, ?_, ?_, ?_,
      hobserved ▸ h.observed⟩
    · obtain ⟨hobs, hrolled⟩ := forall_mem_append.mp h.settled
      exact forall_mem_append.mpr ⟨hobs, forall_mem_cons.mpr ⟨hissued, hrolled⟩⟩
    · exact nodup_middle.mpr (nodup_cons.mpr ⟨hopen, h.nodup⟩)
    · intro other hmem
      obtain rfl | hmem := mem_cons.mp hmem
      · exact .inr (.inr ⟨hwindow.trans hsame.symm, hplace ▸ Nat.le_refl _⟩)
      · -- another one has a smaller number, since the latest is the one rolled back now
        have hother := h.settled other (mem_append_right _ hmem)
        have hne : other.reservationSequence ≠ certificate.reservationSequence := fun heq =>
          hfirst (inj_on_of_nodup_map h.numbered hother hissued heq ▸ hmem)
        have hle := h.le_sequence other hother
        rw [hsequence, Ne, ← UInt64.toNat_inj] at hne
        refine .inl ?_
        change _ < t.reservationSequence.toNat
        rw [hlast]
        omega
    · change t.accepted.toNat + (j.rolledBack.length + 1) = j.issued.length
      rw [haccepted, toNat_saturatingSub, UInt64.toNat_one]
      omega
  · rw [step, hx, enter]
    exact h

theorem Balanced.step_observeCompletion {completionTick : UInt64}
    (hpermitted : j.Permitted (.observeCompletion certificate completionTick)) :
    Balanced (step j (.observeCompletion certificate completionTick)).2 := by
  obtain ⟨guard, t, hx, hverify, hlater⟩ | ⟨fault, t, hx, hlater⟩ :=
    (ensures_observeCompletion certificate completionTick j.controller).cases
  · obtain ⟨hissued, hunobserved, hkept⟩ := hpermitted hverify
    have hopen : certificate ∉ j.observed ++ j.rolledBack := by simp [hunobserved, hkept]
    have hroom := h.length_lt hissued hopen
    have htotal := h.length_issued
    have hlt := j.controller.reservationSequence.toNat_lt
    have hcount := h.observed
    rw [step, hx, enter]
    have hnext : Balanced
        { j with
          controller := { j.controller with observed := saturatingAdd j.controller.observed 1 }
          observed := certificate :: j.observed } := by
      refine ⟨h.length_issued, h.numbered, h.le_sequence, h.small,
        forall_mem_cons.mpr ⟨hissued, h.settled⟩, nodup_cons.mpr ⟨hopen, h.nodup⟩, h.spent,
        h.accepted, ?_⟩
      change (saturatingAdd j.controller.observed 1).toNat = _
      rw [toNat_saturatingAdd, UInt64.toNat_one, length_cons]
      omega
    exact hnext.later hlater
  · rw [step, hx, enter]
    exact h.later hlater

theorem Balanced.step {request : Request} (hpermitted : j.Permitted request) :
    Balanced (step j request).2 := by
  cases request with
  | admitRequest nowTick deadlineTick backlogBefore => exact h.step_admitRequest _ _ _
  | rollback certificate => exact h.step_rollback hpermitted
  | observeCompletion certificate completionTick => exact h.step_observeCompletion hpermitted
  | advance nowTick =>
    obtain ⟨_, t, hx, hlater⟩ | ⟨fault, t, hx, hlater⟩ :=
      (ensures_advance nowTick j.controller).cases
    all_goals
      rw [Journal.step, hx, enter]
      exact h.later hlater

end

theorem balanced_start {curve : ServiceCurve} {nowTick secret : UInt64} {c : ServiceController N}
    (hnew : new N curve nowTick secret = .ok c) : Balanced (start c) := by
  obtain ⟨-, hsequence, haccepted, hobserved⟩ := new_eq_ok hnew
  refine ⟨?_, .nil, by simp [start], by simp [start], by simp [start], by simp [start],
    by simp [start], ?_, ?_⟩
  · simp [start, hsequence]
  · simp [start, haccepted]
  · simp [start, hobserved]

/-- **Single use.**  In every run whose requests keep to `Permitted`, every certificate takes effect
at most once, observations and rollbacks together are at most as many as the admissions, the
controller has counted no more observations than admissions that stand, and a rolled-back
certificate is refused without a change to the controller. -/
theorem settled_at_most_once {curve : ServiceCurve} {nowTick secret : UInt64}
    {c : ServiceController N} (hnew : ServiceController.new N curve nowTick secret = .ok c)
    {requests : List Request} (hrun : EveryStep step Permitted (start c) requests) :
    let j := final step (start c) requests
    (j.observed ++ j.rolledBack).Nodup ∧ j.observed.length + j.rolledBack.length ≤ j.issued.length ∧
      j.controller.observed.toNat ≤ j.controller.accepted.toNat ∧
      ∀ certificate ∈ j.rolledBack,
        ServiceController.rollback certificate j.controller =
          .error .staleReservation j.controller := by
  have h : Balanced (final step (start c) requests) :=
    hrun.invariant (fun _ _ hpermitted h => h.step hpermitted) (balanced_start hnew)
  have hlength := h.length_le
  have haccepted := h.accepted
  have hobserved := h.observed
  refine ⟨h.nodup, hlength, by omega, fun certificate hmem => ?_⟩
  exact (h.spent certificate hmem).rollback_eq
    (h.small certificate (h.settled certificate (List.mem_append_right _ hmem)))

/-! ### A certificate observed twice -/

open ServiceController (sampleController)

/-- The certificate of an admission at tick 1000. -/
def sampleCertificate : AdmissionCertificate :=
  ((ServiceController.admitRequest 1000 2000 0).run' sampleController).get (by decide +kernel)

theorem settled_once_after_rollback :
    let j := final step (start sampleController)
      [.admitRequest 1000 2000 0, .rollback sampleCertificate, .admitRequest 1010 2000 0,
        .rollback sampleCertificate]
    j.issued.length = 2 ∧ j.rolledBack = [sampleCertificate] ∧
      (j.observed ++ j.rolledBack).Nodup := by
  refine ⟨by decide +kernel, by decide +kernel, ?_⟩
  exact (settled_at_most_once ServiceController.new_eq_sampleController (by decide +kernel)).1

/-- An observed certificate is accepted again: one admission, two completions. -/
theorem certificate_observed_twice :
    let j := final step (start sampleController)
      [.admitRequest 1000 2000 0, .observeCompletion sampleCertificate 1100,
        .observeCompletion sampleCertificate 1100]
    j.issued = [sampleCertificate] ∧ j.observed = [sampleCertificate, sampleCertificate] ∧
      j.controller.observed = 2 ∧ j.controller.accepted = 1 := by
  decide +kernel

end Journal

end Sisyphus.Slope
