import Sisyphus.CertifiedMath.Sheaf

/-!
# What an actuation is bound to

A model of `ProofCarryingController::certify` in `certificate.rs`, with the seals of
`primal_dual.rs` and `persistent.rs`.  The seal of an optimization certificate covers the root of
the primal vector but not the vector, which travels beside it; the seal of a persistence report
covers the bars but not the counts, which are what the policy is tested against.  `certify` checks
the seals and nothing more.  Its decision is the same whatever vector comes with a seal (`Agrees`),
so an actuation is `Bound` to what was sealed only if there was no such certificate at all.

Of the other domains `certify` reads whether the certificate verifies and conforms, and its roots;
these are `Evidence`, with arbitrary answers.
-/

set_option autoImplicit false

namespace Sisyphus.CertifiedMath

open List

/-! ## The optimization seal -/

/-- Signed numbers are their words. -/
structure OptimizationCertificate where
  variableCount : UInt8
  constraints : UInt8
  iterations : UInt16
  objectiveQ32 : UInt64
  maximumPrimalViolationQ32 : UInt64
  maximumDualViolationQ32 : UInt64
  stationarityResidualQ32 : UInt64
  complementarityResidualQ32 : UInt64
  primalRoot : UInt64
  dualRoot : UInt64
  root : UInt64

abbrev Allocation := Fin 16 → UInt64

structure OptimizationResult where
  primalQ32 : Allocation
  certificate : OptimizationCertificate

/-- The leading entries of a vector. -/
def leading (vector : Allocation) (length : Nat) : List UInt64 :=
  ((List.finRange 16).take length).map vector

def vectorRoot (secret : UInt64) (vector : Allocation) (length : Nat) : UInt64 :=
  (leading vector length).foldl mix (mix secret (UInt64.ofNat length))

/-- `certificate_root` of `primal_dual.rs`. -/
def optimizationRoot (secret : UInt64) (c : OptimizationCertificate) : UInt64 :=
  [c.variableCount.toUInt64 ||| (c.constraints.toUInt64 <<< 8) ||| (c.iterations.toUInt64 <<< 16),
    c.objectiveQ32, c.maximumPrimalViolationQ32, c.maximumDualViolationQ32,
    c.stationarityResidualQ32, c.complementarityResidualQ32, c.primalRoot,
    c.dualRoot].foldl mix secret

structure CertificationPolicy where
  requiredProofs : UInt32
  primalLimitQ32 : UInt64
  dualLimitQ32 : UInt64
  stationarityLimitQ32 : UInt64
  complementarityLimitQ32 : UInt64
  maximumEssentialH1 : UInt16

def OptimizationCertificate.verify (self : OptimizationCertificate) (secret : UInt64)
    (policy : CertificationPolicy) : Bool :=
  self.maximumPrimalViolationQ32 ≤ policy.primalLimitQ32 &&
    self.maximumDualViolationQ32 ≤ policy.dualLimitQ32 &&
    self.stationarityResidualQ32 ≤ policy.stationarityLimitQ32 &&
    self.complementarityResidualQ32 ≤ policy.complementarityLimitQ32 &&
    self.root == optimizationRoot secret self

/-! ## The persistence seal -/

structure PersistenceBar where
  dimension : UInt8
  birth : UInt64
  death : UInt64
  birthSimplex : UInt16
  deathSimplex : UInt16
  representativeRoot : UInt64

def PersistenceBar.essential (self : PersistenceBar) : Bool := self.death == 0xffffffffffffffff

structure PersistenceReport where
  bars : Fin 160 → PersistenceBar
  barCount : Nat
  simplexCount : Nat
  finiteCount : Fin 3 → UInt16
  essentialCount : Fin 3 → UInt16
  complexRoot : UInt64
  barcodeRoot : UInt64

namespace PersistenceReport

variable (self : PersistenceReport)

/-- `bars`. -/
def barcode : List PersistenceBar := ((List.finRange 160).take self.barCount).map self.bars

def words (bar : PersistenceBar) : List UInt64 :=
  [bar.dimension.toUInt64, bar.birth, bar.death,
    bar.birthSimplex.toUInt64 ||| (bar.deathSimplex.toUInt64 <<< 16), bar.representativeRoot]

/-- `barcode_root`. -/
def sealedRoot (secret : UInt64) : UInt64 :=
  ([self.complexRoot, UInt64.ofNat self.simplexCount, UInt64.ofNat self.barCount] ++
    self.barcode.flatMap words).foldl mix secret

def verify (secret : UInt64) : Bool :=
  self.barCount ≤ 160 && self.simplexCount ≤ 160 && self.barcodeRoot == self.sealedRoot secret

end PersistenceReport

/-- The bars that the first homology counts. -/
def PersistenceBar.essentialH1 (bar : PersistenceBar) : Bool := bar.dimension == 1 && bar.essential

/-! ## The certifier -/

structure Evidence where
  root : UInt64
  verifies : Bool
  conforms : Bool
  carried : UInt64
  queueClass : UInt8

structure ProofArtifacts where
  hodge : Option Evidence
  optimization : Option OptimizationResult
  sheaf : Option GlueCertificate
  stabilizer : Option Evidence
  persistence : Option PersistenceReport
  spectral : Option Evidence
  tropical : Option Evidence
  density : Option Evidence

structure CertifiedActuation where
  sequence : UInt64
  queueClass : UInt8
  allocationQ32 : Allocation
  allocationCount : UInt8
  proofMask : UInt32
  hodgeStateRoot : UInt64
  optimizationRoot : UInt64
  sheafRoot : UInt64
  stabilizerRoot : UInt64
  persistenceRoot : UInt64
  spectralRoot : UInt64
  tropicalRoot : UInt64
  densityRoot : UInt64
  root : UInt64

def actuationRoot (secret : UInt64) (a : CertifiedActuation) : UInt64 :=
  ([a.sequence, a.queueClass.toUInt64, a.allocationCount.toUInt64, a.proofMask.toUInt64] ++
    leading a.allocationQ32 a.allocationCount.toNat ++
    [a.hodgeStateRoot, a.optimizationRoot, a.sheafRoot, a.stabilizerRoot, a.persistenceRoot,
      a.spectralRoot, a.tropicalRoot, a.densityRoot]).foldl mix secret

structure ActuationRejection where
  sequence : UInt64
  missingProofs : UInt32
  invalidProofs : UInt32
  policyViolations : UInt32
  observedProofs : UInt32
  evidenceRoot : UInt64
  root : UInt64

def rejectionRoot (secret : UInt64) (r : ActuationRejection) : UInt64 :=
  [r.sequence, r.missingProofs.toUInt64, r.invalidProofs.toUInt64, r.policyViolations.toUInt64,
    r.observedProofs.toUInt64, r.evidenceRoot].foldl mix secret

/-- The secrets whose seals are checked here. -/
structure ProofCarryingController where
  controller : UInt64
  optimization : UInt64
  sheaf : UInt64
  persistence : UInt64
  policy : CertificationPolicy
  nextSequence : UInt64

/-- The local variables of `certify`. -/
structure Tally where
  observed : UInt32
  invalid : UInt32
  policyViolations : UInt32
  evidenceRoot : UInt64
  actuation : CertifiedActuation

/-- What `certify` does with one artifact that is present. -/
def Tally.weigh (t : Tally) (proof : UInt32) (root : UInt64) (verifies conforms : Bool)
    (accept : CertifiedActuation → CertifiedActuation) : Tally :=
  let t := { t with observed := t.observed ||| proof, evidenceRoot := mix t.evidenceRoot root }
  if !verifies then { t with invalid := t.invalid ||| proof }
  else if !conforms then { t with policyViolations := t.policyViolations ||| proof }
  else { t with actuation := accept t.actuation }

namespace ProofCarryingController

variable (self : ProofCarryingController)

def weighOptimization (t : Tally) (result : OptimizationResult) : Tally :=
  t.weigh 2 result.certificate.root (result.certificate.verify self.optimization self.policy) true
    fun a => { a with
      allocationQ32 := result.primalQ32
      allocationCount := result.certificate.variableCount
      optimizationRoot := result.certificate.root }

/-- The artifacts after the optimization. -/
def weighRest (artifacts : ProofArtifacts) (t : Tally) : Tally :=
  let t := artifacts.sheaf.elim t fun c =>
    t.weigh 4 c.root (c.verify self.sheaf) c.glued fun a => { a with sheafRoot := c.root }
  let t := artifacts.stabilizer.elim t fun e =>
    t.weigh 8 e.root e.verifies e.conforms fun a => { a with stabilizerRoot := e.root }
  let t := artifacts.persistence.elim t fun report =>
    t.weigh 16 report.barcodeRoot (report.verify self.persistence)
      (report.essentialCount 1 ≤ self.policy.maximumEssentialH1)
      fun a => { a with persistenceRoot := report.barcodeRoot }
  let t := artifacts.spectral.elim t fun e =>
    t.weigh 32 e.root e.verifies true fun a =>
      { a with queueClass := e.queueClass, spectralRoot := e.root }
  let t := artifacts.tropical.elim t fun e =>
    t.weigh 64 e.root e.verifies true fun a => { a with tropicalRoot := e.root }
  artifacts.density.elim t fun e =>
    t.weigh 128 e.root e.verifies true fun a => { a with densityRoot := e.carried }

def weighAll (artifacts : ProofArtifacts) (t : Tally) : Tally :=
  let t := artifacts.hodge.elim t fun e =>
    t.weigh 1 e.root e.verifies true fun a => { a with hodgeStateRoot := e.carried }
  let t := artifacts.optimization.elim t (self.weighOptimization t)
  self.weighRest artifacts t

/-- `certify`.  There is no result when `actuation_root` slices past the end of the allocation. -/
def certify (artifacts : ProofArtifacts) :
    Option (Except ActuationRejection CertifiedActuation) × ProofCarryingController :=
  let sequence := self.nextSequence
  let empty : CertifiedActuation := ⟨sequence, 0, fun _ => 0, 0, 0, 0, 0, 0, 0, 0, 0, 0, 0, 0⟩
  let t := self.weighAll artifacts ⟨0, 0, 0, mix self.controller sequence, empty⟩
  let missing := self.policy.requiredProofs &&& ~~~t.observed
  let rejection : ActuationRejection :=
    ⟨sequence, missing, t.invalid, t.policyViolations, t.observed, t.evidenceRoot, 0⟩
  let actuation : CertifiedActuation := { t.actuation with proofMask := t.observed }
  (if missing ≠ 0 ∨ t.invalid ≠ 0 ∨ t.policyViolations ≠ 0 then
      some (.error { rejection with root := rejectionRoot self.controller rejection })
    else if 16 < actuation.allocationCount then none
    else some (.ok { actuation with root := actuationRoot self.controller actuation }),
    { self with nextSequence := nextEpoch sequence })

end ProofCarryingController

/-! ## What the decision depends on -/

/-- Two runs of `certify` with the same decision so far. -/
structure Tally.Agrees (t t' : Tally) : Prop where
  observed : t'.observed = t.observed
  invalid : t'.invalid = t.invalid
  policyViolations : t'.policyViolations = t.policyViolations
  allocationCount : t'.actuation.allocationCount = t.actuation.allocationCount

section

variable {t t' : Tally} {proof : UInt32}

theorem Tally.Agrees.weigh (h : t.Agrees t') {root : UInt64} {verifies conforms : Bool}
    {accept accept' : CertifiedActuation → CertifiedActuation}
    (haccept : (accept' t'.actuation).allocationCount = (accept t.actuation).allocationCount) :
    (t.weigh proof root verifies conforms accept).Agrees
      (t'.weigh proof root verifies conforms accept') := by
  obtain ⟨hobserved, hinvalid, hviolations, hcount⟩ := h
  cases verifies <;> cases conforms <;> constructor
  all_goals first | assumption | exact congrArg (· ||| proof) ‹_›

/-- An artifact that changes nothing about the number of variables. -/
theorem Tally.Agrees.consider {α : Type} (h : t.Agrees t') (o : Option α) {root : α → UInt64}
    {verifies conforms : α → Bool} {accept : α → CertifiedActuation → CertifiedActuation}
    (haccept : ∀ x a, (accept x a).allocationCount = a.allocationCount) :
    (o.elim t fun x => t.weigh proof (root x) (verifies x) (conforms x) (accept x)).Agrees
      (o.elim t' fun x => t'.weigh proof (root x) (verifies x) (conforms x) (accept x)) := by
  cases o with
  | none => exact h
  | some x => exact h.weigh (by rw [haccept, haccept, h.allocationCount])

variable {self : ProofCarryingController} {artifacts artifacts' : ProofArtifacts}

theorem Tally.Agrees.weighRest (h : t.Agrees t') :
    (self.weighRest artifacts t).Agrees (self.weighRest artifacts t') := by
  dsimp only [ProofCarryingController.weighRest]
  iterate 6 refine consider ?_ _ fun _ _ => rfl
  exact h

variable {actuation : CertifiedActuation}

/-- `certify` decides by what `Agrees` compares. -/
theorem exists_certify_of_agrees
    (hagrees : ∀ t, (self.weighAll artifacts t).Agrees (self.weighAll artifacts' t))
    (h : (self.certify artifacts).1 = some (.ok actuation)) :
    ∃ actuation', (self.certify artifacts').1 = some (.ok actuation') := by
  dsimp only [ProofCarryingController.certify] at h ⊢
  rw [(hagrees _).observed, (hagrees _).invalid, (hagrees _).policyViolations,
    (hagrees _).allocationCount]
  split_ifs at h ⊢ with hreject hlong
  · cases h
  · exact ⟨_, rfl⟩

/-- The entries of the vector beside the seal have no part in the decision. -/
theorem exists_certify_of_primal {result : OptimizationResult}
    (hresult : artifacts.optimization = some result) (primal : Allocation)
    (h : (self.certify artifacts).1 = some (.ok actuation)) :
    ∃ actuation', (self.certify { artifacts with
      optimization := some { result with primalQ32 := primal } }).1 = some (.ok actuation') := by
  refine exists_certify_of_agrees (fun t => ?_) h
  rw [ProofCarryingController.weighAll, ProofCarryingController.weighAll, hresult]
  simp only [Option.elim_some, ProofCarryingController.weighOptimization]
  refine Tally.Agrees.weighRest (.weigh ⟨rfl, rfl, rfl, rfl⟩ ?_)
  rfl

end

/-! ## Binding -/

/-- The vector is the one whose root the optimization certificate has sealed. -/
def Sealed (secret : UInt64) (vector : Allocation) (result : OptimizationResult) : Prop :=
  vectorRoot secret vector result.certificate.variableCount.toNat = result.certificate.primalRoot

instance (secret : UInt64) (vector : Allocation) (result : OptimizationResult) :
    Decidable (Sealed secret vector result) :=
  inferInstanceAs (Decidable (_ = _))

/-- Another bundle with the same seals: an entry of the allocation or a count of bars has been
changed. -/
inductive Tampers (artifacts : ProofArtifacts) : ProofArtifacts → Prop
  | allocation {result : OptimizationResult} (hresult : artifacts.optimization = some result)
      (i : Fin 16) (value : UInt64) (hvalue : value ≠ result.primalQ32 i) :
    Tampers artifacts { artifacts with
      optimization := some { result with
        primalQ32 := Function.update result.primalQ32 i value } }
  | essentialCount {report : PersistenceReport} (hreport : artifacts.persistence = some report)
      (dimension : Fin 3) (count : UInt16) (hcount : count ≠ report.essentialCount dimension) :
    Tampers artifacts { artifacts with
      persistence := some { report with
        essentialCount := Function.update report.essentialCount dimension count } }
  | finiteCount {report : PersistenceReport} (hreport : artifacts.persistence = some report)
      (dimension : Fin 3) (count : UInt16) (hcount : count ≠ report.finiteCount dimension) :
    Tampers artifacts { artifacts with
      persistence := some { report with
        finiteCount := Function.update report.finiteCount dimension count } }

/-- What the actuation of a bundle is bound to. -/
structure Bound (controller : ProofCarryingController) (artifacts : ProofArtifacts)
    (actuation : CertifiedActuation) : Prop where
  /-- The allocation is the vector that the optimization certificate has sealed. -/
  allocation : ∀ result ∈ artifacts.optimization,
    Sealed controller.optimization actuation.allocationQ32 result
  /-- The homology policy was tested against the essential bars of the sealed barcode. -/
  homology : ∀ report ∈ artifacts.persistence,
    (report.essentialCount 1).toNat = report.barcode.countP PersistenceBar.essentialH1
  /-- With the seals kept, nothing else is certified. -/
  exclusive : ∀ artifacts', Tampers artifacts artifacts' →
    ∀ actuation', (controller.certify artifacts').1 ≠ some (.ok actuation')

/-- **What travels beside a seal is not bound by it**: the actuation of a certified bundle is bound
exactly when the bundle brought neither an optimization result nor a persistence report. -/
theorem actuation_bound_iff (self : ProofCarryingController) (artifacts : ProofArtifacts)
    (actuation : CertifiedActuation) (h : (self.certify artifacts).1 = some (.ok actuation)) :
    Bound self artifacts actuation ↔
      artifacts.optimization = none ∧ artifacts.persistence = none := by
  constructor
  · intro hbound
    rw [Option.eq_none_iff_forall_ne_some, Option.eq_none_iff_forall_ne_some]
    refine ⟨fun result hresult => ?_, fun report hreport => ?_⟩
    · obtain ⟨actuation', h'⟩ := exists_certify_of_primal hresult
        (Function.update result.primalQ32 0 (result.primalQ32 0 + 1)) h
      exact hbound.exclusive _ (.allocation hresult 0 _ (by simp)) actuation' h'
    · -- nothing reads the finite counts
      refine hbound.exclusive _ (.finiteCount hreport 0 (report.finiteCount 0 + 1) (by simp))
        actuation (h ▸ ?_)
      obtain ⟨_, _, _, _, persistence, _, _, _⟩ := artifacts
      obtain rfl : persistence = some report := hreport
      rfl
  · rintro ⟨hresult, hreport⟩
    refine ⟨fun _ h => ?_, fun _ h => ?_, fun _ htampers => ?_⟩
    · cases hresult.symm.trans h
    · cases hreport.symm.trans h
    · cases htampers with
      | allocation h => cases hresult.symm.trans h
      | essentialCount h | finiteCount h => cases hreport.symm.trans h

def sampleController : ProofCarryingController :=
  ⟨1, 2, 3, 4, ⟨18, 0, 0, 0, 0, 0⟩, 1⟩

/-- One variable, at 5. -/
def sampleResult : OptimizationResult :=
  let primal : Allocation := fun i => if i.val = 0 then 5 else 0
  let certificate : OptimizationCertificate :=
    ⟨1, 0, 0, 0, 0, 0, 0, 0, vectorRoot 2 primal 1, 0, 0⟩
  ⟨primal, { certificate with root := optimizationRoot 2 certificate }⟩

/-- A barcode of one bar of the given dimension, which is essential. -/
def sampleReport (dimension : UInt8) : PersistenceReport :=
  let report : PersistenceReport :=
    ⟨fun _ => ⟨dimension, 0, 0xffffffffffffffff, 0, 0, 0⟩, 1, 1, fun _ => 0, fun _ => 0, 0, 0⟩
  { report with barcodeRoot := report.sealedRoot 4 }

def sampleArtifacts (result : OptimizationResult) (report : PersistenceReport) : ProofArtifacts :=
  ⟨none, some result, none, none, some report, none, none, none⟩

/-- A bundle with the vector and the counts that its seals were made for is certified, but not bound
to them. -/
theorem sample_not_bound : ∃ actuation,
    (sampleController.certify (sampleArtifacts sampleResult (sampleReport 0))).1 =
      some (.ok actuation) ∧
    ¬ Bound sampleController (sampleArtifacts sampleResult (sampleReport 0)) actuation :=
  ⟨_, rfl, fun hbound => by cases ((actuation_bound_iff _ _ _ rfl).1 hbound).1⟩

/-- With the seals kept, another allocation and a barcode with a cycle too many are certified. -/
theorem tampered_bundle_certified :
    let tampered := { sampleResult with primalQ32 := fun _ => 6 }
    ∃ actuation, (sampleController.certify (sampleArtifacts tampered (sampleReport 1))).1 =
      some (.ok actuation) ∧ ¬ Sealed 2 actuation.allocationQ32 tampered ∧
      (sampleReport 1).essentialCount 1 = 0 ∧
      (sampleReport 1).barcode.countP PersistenceBar.essentialH1 = 1 :=
  ⟨_, rfl, by decide +kernel, rfl, by decide +kernel⟩

end Sisyphus.CertifiedMath
