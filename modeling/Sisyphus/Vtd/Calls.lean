import Sisyphus.Foundation.Run
import Sisyphus.Vtd.Mapping
import Sisyphus.Vtd.Unmapping

/-!
# Runs of a core

The five calls a client makes, from a core that was just attached to an empty root.  Every call
leaves the ledger and the tables in agreement (`Call.step`), so they agree in every state that can
be reached (`sound_run`), whatever the page memory and the invalidator do within their contracts.
-/

set_option autoImplicit false

namespace Sisyphus.Slpt

open Fallible SlptPageMemory SlptInvalidator Radix

inductive Call where
  | mapPage (iova physicalAddress : UInt64) (permissions : DmaPermissions)
  | finishMap (receipt : MapReceipt)
  | unmapPage (handle : MappingHandle)
  | cancelPendingMap (receipt : MapReceipt)
  | finishUnmap (receipt : UnmapReceipt)

inductive Reply where
  | map (outcome : MapOutcome)
  | unmap (outcome : UnmapOutcome)
  | failed (fault : SlptFault)
  deriving DecidableEq

section

variable {n : Nat} {M I α : Type}

/-- The answer of an operation as a reply. -/
def reply (ok : α → Reply) (x : Op n M I SlptFault α) (w : World n M I) : Reply × World n M I :=
  match x w with
  | .ok a w => (ok a, w)
  | .error e w => (.failed e, w)

theorem reply_of_ensures {f : α → Reply} {x : Op n M I SlptFault α} {w : World n M I}
    {P : World n M I → Prop} (h : Ensures x w (fun _ w' => P w') fun _ w' => P w') :
    P (reply f x w).2 := by
  rw [Ensures] at h
  rw [reply]
  cases hx : x w with
  | ok a t | error e t => simpa only [hx] using h

end

variable {n : Nat} {M I : Type} [SlptPageMemory M] [SlptInvalidator I]

def Call.perform (w : World n M I) : Call → Reply × World n M I
  | .mapPage iova physicalAddress permissions =>
    reply .map (Slpt.mapPage iova physicalAddress permissions) w
  | .finishMap receipt => reply .map (Slpt.finishMap receipt) w
  | .unmapPage handle => reply .unmap (Slpt.unmapPage handle) w
  | .cancelPendingMap receipt => reply .unmap (Slpt.cancelPendingMap receipt) w
  | .finishUnmap receipt => reply .unmap (Slpt.finishUnmap receipt) w

/-- The handle of the record that a call may take out. -/
def Call.target : Call → Option MappingHandle
  | .mapPage .. => none
  | .finishMap _ => none
  | .unmapPage handle => some handle
  | .cancelPendingMap receipt => some receipt.handle
  | .finishUnmap receipt => some receipt.handle

/-- The world after a list of calls. -/
def run (w : World n M I) (calls : List Call) : World n M I := Run.final Call.perform w calls

variable {c : Contract M} {μ : Monitor c I} {strict : Prop} {w : World n M I} {w' : World n M I}

/-! ## One call -/

theorem Sound.step_self (h : Sound c strict w) : Step μ strict 0 0 w w :=
  ⟨h, .refl _, .refl _, fun _ hp => .inl hp⟩

theorem MapAnswered.step {handle : MappingHandle} {r : MappingRecord} {outcome : MapOutcome}
    (h : MapAnswered μ strict w w' handle r outcome) :
    ∃ d e, Step μ strict d e w w' := by
  cases outcome with
  | active _ => exact ⟨0, 0, h.2.2⟩
  | pending _ _ => exact ⟨0, 1, h.2.2⟩

theorem UnmapAnswered.step {k : Fin n} {r : MappingRecord} {receipt : UnmapReceipt}
    {outcome : UnmapOutcome}
    (h : UnmapAnswered μ strict k r receipt w outcome w') : ∃ d e, Step μ strict d e w w' := by
  cases outcome with
  | complete => exact ⟨0, 0, h.1⟩
  | pending _ cause =>
    cases cause with
    | invalidation _ => exact ⟨0, 1, h.2.2⟩
    | cleanup _ => exact ⟨1, 0, h.2.2⟩

theorem UnmapFailed.step (h : UnmapFailed μ strict w w') : ∃ d e, Step μ strict d e w w' := by
  rcases h with ⟨d, e, hstep, -⟩ | ⟨hstep, -⟩
  · exact ⟨d, e, hstep⟩
  · exact ⟨1, 0, hstep⟩

/-- What the record of a handle has to satisfy for a call that takes it out. -/
def Call.Sparing (call : Call) (core : Core n) (T : TableTree) : Prop :=
  ∀ handle k r, call.target = some handle → core.recordIndex handle = .ok (k, r) →
    Spared core T k r

/-- **Every call keeps the ledger and the tables in agreement.** -/
theorem Call.step (μ : Monitor c I) (call : Call) (hw : Sound c strict w)
    (hspare : strict → ∀ T, Ledger strict w.core T → Stored c.toView w.core w.memory T →
      call.Sparing w.core T) :
    ∃ d e, Step μ strict d e w (call.perform w).2 := by
  have hself : ∃ d e, Step μ strict d e w w := ⟨0, 0, hw.step_self⟩
  have hreply {α : Type} {f : α → Reply} {x : Op n M I SlptFault α} :=
    reply_of_ensures (f := f) (x := x) (w := w) (P := fun w' => ∃ d e, Step μ strict d e w w')
  cases call with
  | mapPage iova physicalAddress permissions =>
    refine hreply ?_
    refine (ensures_mapPage (μ := μ) hw).mono ?_ ?_
    · rintro outcome w' ⟨-, k, r, -, -, -, h⟩
      exact h.step
    · rintro fault w' ⟨-, -, d, hstep, -⟩
      exact ⟨d, 0, hstep⟩
  | finishMap receipt =>
    refine hreply ?_
    simp only [Slpt.finishMap, ensureOperational, ensures_rules, hself, bne_eq_false_iff_eq]
    rintro hop ⟨k, r⟩ hindex hphase
    obtain ⟨T, hL, hst⟩ := hw hop
    exact (ensures_completeMap (μ := μ) hL hst (Core.recordIndex_eq_ok.mp hindex).2.1 hphase
      hop).mono (fun outcome w' h => h.choose_spec.2.2.step) fun e w' h => h.elim
  | unmapPage handle =>
    refine hreply ?_
    simp only [Slpt.unmapPage, ensureOperational, ensures_rules, hself, bne_eq_false_iff_eq]
    rintro hop ⟨k, r⟩ hindex hphase
    obtain ⟨T, hL, hst⟩ := hw hop
    exact (ensures_clearLeaf (μ := μ) hop hL hst
      (fun hs => hspare hs T hL hst handle k r rfl hindex) hindex
      (isLive_iff.mpr (.inr hphase))).mono (fun o w' h => h.step) fun e w' h => h.step
  | cancelPendingMap receipt =>
    refine hreply ?_
    simp only [Slpt.cancelPendingMap, ensureOperational, ensures_rules, hself, bne_eq_false_iff_eq]
    rintro hop ⟨k, r⟩ hindex hphase
    obtain ⟨T, hL, hst⟩ := hw hop
    exact (ensures_clearLeaf (μ := μ) hop hL hst
      (fun hs => hspare hs T hL hst receipt.handle k r rfl hindex) hindex
      (isLive_iff.mpr (.inl hphase))).mono (fun o w' h => h.step) fun e w' h => h.step
  | finishUnmap receipt =>
    refine hreply ?_
    by_cases hacc : ∃ k r, w.core.state = .operational ∧
        w.core.recordIndex receipt.handle = .ok (k, r) ∧
        (r.phase = .awaitingUnmapInvalidation ∨ r.phase = .awaitingCleanup)
    · obtain ⟨k, r, hop, hindex, hphase⟩ := hacc
      obtain ⟨T, hL, hst⟩ := hw hop
      exact (ensures_finishUnmap (μ := μ) hop hL hst
        (fun hs => hspare hs T hL hst receipt.handle k r rfl hindex) hindex hphase).mono
        (fun o w' h => h.step) fun e w' h => UnmapFailed.step (.inl h)
    · -- the receipt is refused
      simp only [Slpt.finishUnmap, ensureOperational, ensures_rules, hself, bne_eq_false_iff_eq]
      rintro hop ⟨k, r⟩ hindex
      rw [ensures_ite]
      refine ⟨fun hphase => absurd ⟨k, r, hop, hindex, .inl hphase⟩ hacc, fun _ => ?_⟩
      simp only [ensures_rules, hself, bne_eq_false_iff_eq]
      exact fun hphase => absurd ⟨k, r, hop, hindex, .inr hphase⟩ hacc

/-! ## Attaching -/

variable {config : SlptConfig}

theorem SlptConfig.validate_ok {width : Nat} (h : config.validate = .ok width) :
    2 ≤ (width - pageShift + 8) / 9 ∧ (width - pageShift + 8) / 9 ≤ maximumLevels ∧
      width = pageShift + 9 * ((width - pageShift + 8) / 9) := by
  have hw : width = 30 ∨ width = 39 ∨ width = 48 ∨ width = 57 := by
    rw [SlptConfig.validate] at h
    split at h
    · cases h
    · next w hw =>
      obtain ⟨-, ⟨⟩⟩ := ite_error_eq_ok.mp h
      rw [SlptConfig.adjustedGuestAddressWidth] at hw
      split at hw <;> simp_all
  rcases hw with rfl | rfl | rfl | rfl <;> decide

theorem ensures_checkEmpty (μ : Monitor c I) (strict : Prop) {root : SlptFrame}
    (l : List TableIndex) (m : M)
    (hroot : c.owned m root) {m' : M} (h : attach.checkEmpty root m l = (.ok (), m')) :
    c.Same m m' ∧ μ.Ran strict 0 m m' ∧ ∀ i ∈ l, c.entry m root i = 0 := by
  induction l generalizing m with
  | nil =>
    cases h
    exact ⟨.refl _ _, .refl _, by simp⟩
  | cons i l ih =>
    rw [attach.checkEmpty] at h
    have hread := μ.ensures_read strict i fun _ => hroot
    split at h
    · cases h
    · next entry m₁ hx =>
      obtain ⟨⟨hs, he⟩, hran⟩ := hread.of_ok hx
      split at h
      · cases h
      · next hzero =>
        obtain ⟨hs', hran', hrest⟩ := ih m₁ ((hs.owned root).mpr hroot) h
        refine ⟨hs.trans hs', hran.zero_trans hran', fun j hj => ?_⟩
        rcases List.mem_cons.mp hj with rfl | hj
        · rw [← he hroot]
          simpa using hzero
        · rw [← hs.entry root j hroot]
          exact hrest j hj

/-- A core that was just attached to an empty root has an empty ledger and no tables. -/
theorem attach_ok (μ : Monitor c I) (strict : Prop) {m m' : M} {root : SlptFrame} {core : Core n}
    (h : attach n m root config = (.ok core, m')) (hroot : ∀ f, c.owned m f ↔ f = root) :
    core.state = .operational ∧ μ.Ran strict 0 m m' ∧
      (∀ k, (core.slots k).record = none) ∧
      Ledger strict core (Tree.bare root) ∧ Stored c.toView core m' (Tree.bare root) := by
  obtain ⟨-, h⟩ := ite_error_prod_eq_ok.mp h
  split at h
  · cases h
  next width hwidth =>
  obtain ⟨h2, h5, hw⟩ := SlptConfig.validate_ok hwidth
  split at h
  · cases h
  next m₁ hempty =>
  cases h
  obtain ⟨hs, hran, hzero⟩ := ensures_checkEmpty μ strict _ m ((hroot root).mpr rfl) hempty
  have hhas : ∀ f, (Tree.bare root : TableTree).Has f ↔ f = root := by
    intro f
    constructor
    · rintro ⟨path, hpath⟩
      simp only [Tree.bare] at hpath
      split at hpath
      · exact (Option.some.inj hpath).symm
      · cases hpath
    · rintro rfl
      exact ⟨[], rfl⟩
  have hnone : ∀ {k r}, ¬Core.At (⟨root, width, (width - pageShift + 8) / 9,
      fun _ => MappingSlot.empty, .operational⟩ : Core n) k r := by
    intro k r hk
    cases hk
  refine ⟨rfl, hran, fun _ => rfl, ⟨⟨h2, h5⟩, hw, fun k r hk => (hnone hk).elim,
    fun k r hk => (hnone hk).elim, fun j k r s hj => (hnone hj).elim,
    fun k r hk => (hnone hk).elim, fun path hne => absurd rfl hne, fun _ path f hf => ?_⟩, ?_, ?_⟩
  · rw [(hhas f).mp ⟨path, hf⟩]
    exact Core.frameIsKnown_iff.mpr (.inl rfl)
  · refine .bare (show 0 < (width - pageShift + 8) / 9 by omega) fun i _ => ?_
    rw [hs.entry root i ((hroot root).mpr rfl)]
    exact hzero i (List.mem_finRange i)
  · intro f
    rw [hs.owned f, hroot f, hhas f]

/-! ## All calls -/

/-- **The ledger and the tables agree in every state of every run.** -/
theorem sound_run (hw : Sound c False w) (calls : List Call) : Sound c False (run w calls) := by
  refine Run.invariant_final (fun w call hw => ?_) hw
  obtain ⟨d, e, hstep⟩ := call.step (Monitor.blind c I) hw False.elim
  exact hstep.sound

end Sisyphus.Slpt
