import Sisyphus.Crest.Scene

/-!
# What an attenuated scene lease binds

`attenuate` returns a lease with fewer rights or an earlier expiry, but under the parent's token,
and the token's tag covers only the rights stored in the slot.  Whoever holds the attenuated lease
can therefore write the stored rights and the stored expiry back into it, and `validateLease` has
nothing to object.

`Exercises s lease right` says that in the scene `s` one of the four operations lets the lease
exercise a right: `node` and `destroy` the right they ask for, `commit` the right that a mutation
needs, `attenuate` the rights it passes on.  A lease is `Binding` when no lease value with its
token exercises a right that it does not have, or any right after its expiry.  In a reachable scene
that is so exactly when the stored rights and expiry leave nothing to write back (`Covered`,
`binding_iff_covered`), and so an attenuated lease is binding for as long as its node lives exactly
when nothing was attenuated (`binding_throughout_iff`).
-/

set_option autoImplicit false

namespace Sisyphus.Crest

open Fallible Function Run UInt64 Words

variable {n : Nat}

/-! ## Masks -/

/-- Every bit of `a` is a bit of `b`. -/
def Within (a b : UInt32) : Prop := a &&& ~~~b = 0

instance (a b : UInt32) : Decidable (Within a b) := inferInstanceAs (Decidable (_ = _))

variable {a b : UInt32}

theorem within_iff : Within a b ↔ a &&& b = a := by
  have hsplit : (a &&& b) ||| (a &&& ~~~b) = a := by
    calc (a &&& b) ||| (a &&& ~~~b) = a &&& (b ||| ~~~b) :=
          UInt32.toBitVec_inj.mp BitVec.and_or_distrib_left.symm
      _ = a := by simp
  constructor
  · intro h
    rwa [h, UInt32.or_zero] at hsplit
  · intro h
    rw [Within, ← h, UInt32.and_assoc]
    simp

theorem Within.refl (a : UInt32) : Within a a := within_iff.mpr UInt32.and_self

theorem Within.trans {c : UInt32} (hab : Within a b) (hbc : Within b c) : Within a c := by
  rw [within_iff] at *
  calc a &&& c = a &&& b &&& c := by rw [hab]
    _ = a &&& (b &&& c) := UInt32.and_assoc ..
    _ = a := by rw [hbc, hab]

theorem Within.antisymm (hab : Within a b) (hba : Within b a) : a = b := by
  rw [within_iff] at *
  rw [← hab, UInt32.and_comm, hba]

namespace QuantumScene

variable {s : QuantumScene n}

/-! ## What the checks say -/

variable {i : Fin n}

theorem val_of_validateTokenIn {slots : Fin n → SceneSlot} {secret : UInt64} {token : SceneToken}
    (h : validateTokenIn slots secret token = .ok i) :
    i.val = token.slot ∧ (slots i).occupied = true := by
  simp only [validateTokenIn, ite_error_eq_ok, dite_eq_ok_error, not_or, Bool.not_eq_false] at h
  obtain ⟨-, _, ⟨hlive, -⟩, -, ⟨⟩⟩ := h
  exact ⟨rfl, hlive⟩

variable {lease : SceneLease}

theorem validateLease_eq_ok {required : UInt32} :
    s.validateLease lease required = .ok i ↔
      validateTokenIn s.slots s.secret lease.token = .ok i ∧ s.epoch < lease.expiresEpoch ∧
        lease.expiresEpoch ≤ (s.slots i).expiresEpoch ∧ Within lease.rights (s.slots i).rights ∧
        Within required lease.rights := by
  have hrequired : lease.rights &&& required = required ↔ Within required lease.rights := by
    rw [within_iff, UInt32.and_comm]
  rw [validateLease]
  cases htoken : validateTokenIn s.slots s.secret lease.token with
  | error e => simp
  | ok index =>
    simp only [ite_error_eq_ok, Except.ok.injEq, not_or, UInt64.not_le, UInt64.not_lt, ne_eq,
      Classical.not_not, hrequired]
    constructor
    · rintro ⟨⟨hearly, hlate⟩, hrights, hmissing, rfl⟩
      exact ⟨rfl, hearly, hlate, hrights, hmissing⟩
    · rintro ⟨rfl, hearly, hlate, hrights, hmissing⟩
      exact ⟨⟨hearly, hlate⟩, hrights, hmissing, rfl⟩

variable {parent : SceneLease} {expires : UInt64} {rights : UInt32}

theorem attenuate_eq_ok :
    s.attenuate parent rights expires = .ok lease ↔
      lease = ⟨parent.token, rights, expires⟩ ∧ ∃ i, s.validateLease parent 0 = .ok i ∧
        rights ≠ 0 ∧ Within rights parent.rights ∧ expires ≤ (s.slots i).expiresEpoch ∧
        s.epoch < expires := by
  rw [attenuate]
  cases hparent : s.validateLease parent 0 with
  | error e => simp
  | ok index =>
    simp only [ite_error_eq_ok, Except.ok.injEq, exists_eq_left', not_or, UInt64.not_le,
      UInt64.not_lt, ne_eq, Classical.not_not]
    constructor
    · rintro ⟨⟨hzero, hrights⟩, ⟨hlate, hearly⟩, rfl⟩
      exact ⟨rfl, hzero, hrights, hlate, hearly⟩
    · rintro ⟨rfl, hzero, hrights, hlate, hearly⟩
      exact ⟨⟨hzero, hrights⟩, ⟨hlate, hearly⟩, rfl⟩

variable {leases : List SceneLease} {staged : Fin n → SceneSlot} {mutations : List SceneMutation}
  {result : (Fin n → SceneSlot) × List DirtyRectangle} {m : SceneMutation}

/-- A mutation that was staged was allowed by the first lease with its token. -/
theorem validateLease_of_stageAll (h : s.stageAll leases staged mutations = .ok result)
    (hm : m ∈ mutations) (hlease : leases.find? (fun lease => lease.token = m.token) = some lease) :
    ∃ i, s.validateLease lease m.requiredRight = .ok i := by
  induction mutations generalizing staged result with
  | nil => cases hm
  | cons head rest ih =>
    obtain ⟨next, hhead, htail⟩ := except_bind_eq_ok.mp h
    obtain ⟨tail, htail, -⟩ := except_bind_eq_ok.mp htail
    rcases List.mem_cons.mp hm with rfl | hrest
    · obtain ⟨found, hfound, hhead⟩ := except_bind_eq_ok.mp hhead
      obtain ⟨i, hvalid, -⟩ := except_bind_eq_ok.mp hhead
      rw [leaseFor, hlease] at hfound
      cases hfound
      exact ⟨i, hvalid⟩
    · exact ih htail hrest

/-! ## Exercising a right -/

/-- In this scene one of the operations lets the lease exercise the right. -/
inductive Exercises (s : QuantumScene n) (lease : SceneLease) : UInt32 → Prop
  | node {node : SceneNode} (h : s.node lease = .ok node) : Exercises s lease sceneRightObserve
  | destroy {node : SceneNode} {t : QuantumScene n}
      (h : QuantumScene.destroy lease s = .ok node t) : Exercises s lease sceneRightDestroy
  | attenuate {rights : UInt32} {expires : UInt64} {result : SceneLease}
      (h : s.attenuate lease rights expires = .ok result) : Exercises s lease rights
  | commit {transaction : SceneTransaction} {leases : List SceneLease} {m : SceneMutation}
      {result : SceneCommit} {t : QuantumScene n} (hm : m ∈ transaction.mutations)
      (hlease : leases.find? (fun lease => lease.token = m.token) = some lease)
      (h : QuantumScene.commit transaction leases s = .ok result t) :
      Exercises s lease m.requiredRight

/-- No lease value with this token exercises a right that the lease does not have, or any right
after the lease's expiry. -/
def Binding (s : QuantumScene n) (lease : SceneLease) : Prop :=
  ∀ formed : SceneLease, formed.token = lease.token → ∀ right, Exercises s formed right →
    Within right lease.rights ∧ s.epoch < lease.expiresEpoch

/-- If the token names a node whose stored lifetime is not over, then the lease has all the stored
rights and has not expired either. -/
def Covered (s : QuantumScene n) (lease : SceneLease) : Prop :=
  ∀ i, validateTokenIn s.slots s.secret lease.token = .ok i → s.epoch < (s.slots i).expiresEpoch →
    Within (s.slots i).rights lease.rights ∧ s.epoch < lease.expiresEpoch

/-- Whatever a lease exercises is stored with the node that its token names. -/
theorem Exercises.stored {right : UInt32} (h : Exercises s lease right) :
    ∃ i, validateTokenIn s.slots s.secret lease.token = .ok i ∧
      s.epoch < (s.slots i).expiresEpoch ∧ Within right (s.slots i).rights := by
  have hchecked {required : UInt32} {i : Fin n} (hi : s.validateLease lease required = .ok i)
      (hright : Within required lease.rights → Within right lease.rights) :
      ∃ i, validateTokenIn s.slots s.secret lease.token = .ok i ∧
        s.epoch < (s.slots i).expiresEpoch ∧ Within right (s.slots i).rights := by
    obtain ⟨htoken, hearly, hlate, hrights, hrequired⟩ := validateLease_eq_ok.mp hi
    exact ⟨i, htoken, UInt64.lt_of_lt_of_le hearly hlate, (hright hrequired).trans hrights⟩
  cases h with
  | node h =>
    rw [QuantumScene.node] at h
    cases hlease : s.validateLease lease sceneRightObserve with
    | error e => simp [hlease] at h
    | ok i => exact hchecked hlease id
  | destroy h =>
    simp only [QuantumScene.destroy, bind_get, bind_propagate_eq_ok] at h
    obtain ⟨i, hlease, -⟩ := h
    exact hchecked hlease id
  | attenuate h =>
    obtain ⟨-, i, hlease, -, hwithin, -⟩ := attenuate_eq_ok.mp h
    exact hchecked hlease fun _ => hwithin
  | commit hm hlease h =>
    simp only [QuantumScene.commit, bind_get, bind_refuse_eq_ok, bind_propagate_eq_ok] at h
    obtain ⟨-, result, hstaged, -⟩ := h
    obtain ⟨i, hlease⟩ := validateLease_of_stageAll hstaged hm hlease
    exact hchecked hlease id

/-! ## What a call does to a slot -/

/-- The same node lives in the slot, with the same stored rights and expiry. -/
structure Kept (before after : SceneSlot) : Prop where
  occupied : after.occupied = before.occupied
  rights : after.rights = before.rights
  expiresEpoch : after.expiresEpoch = before.expiresEpoch

theorem Kept.refl (slot : SceneSlot) : Kept slot slot := ⟨rfl, rfl, rfl⟩

theorem Kept.trans {a b c : SceneSlot} (hab : Kept a b) (hbc : Kept b c) : Kept a c :=
  ⟨hbc.occupied.trans hab.occupied, hbc.rights.trans hab.rights,
    hbc.expiresEpoch.trans hab.expiresEpoch⟩

/-- What a call can do to a slot: leave its node there, fill it or empty it. -/
inductive Changed (before after : SceneSlot) : Prop
  | kept (h : Kept before after)
  | filled (hbefore : before.occupied = false) (hrights : after.rights ≠ 0)
  | emptied (hafter : after.occupied = false)

theorem kept_stage {result : (Fin n → SceneSlot) × DirtyRectangle}
    (h : s.stage leases staged m = .ok result) (j : Fin n) : Kept (staged j) (result.1 j) := by
  obtain ⟨lease, -, h⟩ := except_bind_eq_ok.mp h
  obtain ⟨_, -, h⟩ := except_bind_eq_ok.mp h
  obtain ⟨i, -, h⟩ := except_bind_eq_ok.mp h
  obtain ⟨node, -, h⟩ := except_bind_eq_ok.mp h
  cases h
  refine (forall_update_iff staged fun j slot => Kept (staged j) slot).mpr
    ⟨?_, fun _ _ => Kept.refl _⟩ j
  exact ⟨rfl, rfl, rfl⟩

theorem kept_stageAll (h : s.stageAll leases staged mutations = .ok result) (j : Fin n) :
    Kept (staged j) (result.1 j) := by
  induction mutations generalizing staged result with
  | nil =>
    cases h
    exact Kept.refl _
  | cons head rest ih =>
    obtain ⟨next, hhead, htail⟩ := except_bind_eq_ok.mp h
    obtain ⟨tail, hrest, hresult⟩ := except_bind_eq_ok.mp htail
    cases hresult
    have hkept := ih hrest
    exact (kept_stage hhead j).trans hkept

theorem changed_step (s : QuantumScene n) (call : Call) (j : Fin n) :
    Changed (s.slots j) ((s.step call).2.slots j) := by
  have hafter : ∀ {α : Type} {x : Action n α},
      Ensures x s (fun _ t => Changed (s.slots j) (t.slots j)) (fun _ t => t = s) →
        Changed (s.slots j) ((after (x s)).slots j) := by
    intro α x hx
    rcases hx.cases with ⟨a, t, hcall, ht⟩ | ⟨e, t, hcall, rfl⟩
    · rw [hcall]
      exact ht
    · rw [hcall]
      exact .kept (Kept.refl _)
  have hupdate {i : Fin n} {slot : SceneSlot} (hslot : Changed (s.slots i) slot) :=
    (forall_update_iff s.slots fun j slot => Changed (s.slots j) slot).mpr
      ⟨hslot, fun _ _ => .kept (Kept.refl _)⟩ j
  cases call with
  | spawn node rights expires =>
    refine hafter ?_
    simp only [spawn, ensures_rules]
    intro _ _ hrights _ i hi
    rw [Bool.or_eq_false_iff, beq_eq_false_iff_ne] at hrights
    exact hupdate (.filled (by simpa using List.find?_some hi) hrights.1)
  | destroy lease =>
    refine hafter ?_
    simp only [destroy, ensures_rules]
    exact fun i _ => hupdate (.emptied rfl)
  | commit transaction leases =>
    refine hafter ?_
    simp only [commit, ensures_rules]
    intro _ staged hstaged
    exact .kept (kept_stageAll hstaged j)

/-- The rights stored with a node are not empty. -/
def Granted (s : QuantumScene n) : Prop :=
  ∀ i, (s.slots i).occupied = true → (s.slots i).rights ≠ 0

theorem granted_step (hs : s.Granted) (call : Call) : (s.step call).2.Granted := by
  intro j hoccupied
  cases changed_step s call j with
  | kept h =>
    rw [h.rights]
    exact hs j (h.occupied ▸ hoccupied)
  | filled hbefore hrights => exact hrights
  | emptied hafter =>
    rw [hafter] at hoccupied
    cases hoccupied

theorem granted_final (hs : s.Granted) (calls : List Call) : (final step s calls).Granted :=
  invariant_final (fun _ call h => granted_step h call) hs

theorem Reachable.granted (hs : s.Reachable) : s.Granted := by
  obtain ⟨secret, start, calls, hnew, rfl⟩ := hs
  refine granted_final ?_ calls
  obtain ⟨-, ⟨⟩⟩ := ite_error_eq_ok.mp hnew
  intro i hi
  cases hi

/-- **A lease is binding exactly when the stored rights and expiry leave nothing to write back.** -/
theorem binding_iff_covered (hs : s.Granted) (lease : SceneLease) :
    s.Binding lease ↔ s.Covered lease := by
  constructor
  · intro h i htoken hearly
    -- the lease with the stored rights and expiry passes the stored rights on
    let full : SceneLease := ⟨lease.token, (s.slots i).rights, (s.slots i).expiresEpoch⟩
    have hvalid : s.validateLease full 0 = .ok i :=
      validateLease_eq_ok.mpr
        ⟨htoken, hearly, UInt64.le_refl _, Within.refl _, UInt32.zero_and⟩
    have hpass : s.attenuate full (s.slots i).rights (s.slots i).expiresEpoch = .ok full :=
      attenuate_eq_ok.mpr ⟨rfl, i, hvalid, hs i (val_of_validateTokenIn htoken).2, Within.refl _,
        UInt64.le_refl _, hearly⟩
    exact h full rfl _ (.attenuate hpass)
  · intro h formed htoken right hexercises
    obtain ⟨i, hi, hearly, hstored⟩ := hexercises.stored
    rw [htoken] at hi
    obtain ⟨hrights, hexpires⟩ := h i hi hearly
    exact ⟨hstored.trans hrights, hexpires⟩

/-! ## Over the life of a node -/

/-- The node in slot `i` is not destroyed. -/
def Keeps (i : Fin n) (s : QuantumScene n) (call : Call) : Prop :=
  ((s.step call).2.slots i).occupied = true

/-- A node that is not destroyed keeps its stored rights and expiry. -/
theorem kept_final {calls : List Call} (hoccupied : (s.slots i).occupied = true)
    (hcalls : EveryStep step (Keeps i) s calls) :
    Kept (s.slots i) ((final step s calls).slots i) := by
  induction calls generalizing s with
  | nil => exact Kept.refl _
  | cons call rest ih =>
    obtain ⟨hcall, hrest⟩ := hcalls
    have hkept : Kept (s.slots i) ((s.step call).2.slots i) := by
      cases changed_step s call i with
      | kept h => exact h
      | filled hbefore hrights =>
        rw [hbefore] at hoccupied
        cases hoccupied
      | emptied hafter =>
        rw [Keeps, hafter] at hcall
        cases hcall
    exact hkept.trans (ih hcall hrest)

/-- Empty transactions, to let `k` epochs go by. -/
def wait : Nat → UInt64 → List Call
  | 0, _ => []
  | k + 1, epoch => .commit (SceneTransaction.new 0 epoch) [] :: wait k (nextEpoch epoch)

theorem step_wait (s : QuantumScene n) :
    (s.step (.commit (SceneTransaction.new 0 s.epoch) [])).2 =
      { s with epoch := nextEpoch s.epoch } := by
  simp [step, commit, SceneTransaction.new, stageAll, after, propagate, refuse]
  rfl

/-- Waiting changes the epoch only, and destroys nothing. -/
theorem final_wait {k : Nat} {epoch : UInt64} (hepoch : epoch.toNat = s.epoch.toNat + k) :
    final step s (wait k s.epoch) = { s with epoch := epoch } := by
  induction k generalizing s with
  | zero =>
    have : epoch = s.epoch := UInt64.toNat_inj.mp hepoch
    rw [this]
    rfl
  | succ k ih =>
    have hlt := epoch.toNat_lt
    have hnext : (nextEpoch s.epoch).toNat = s.epoch.toNat + 1 := by
      rw [nextEpoch, toNat_wrappingSucc]
      omega
    rw [wait, final, step_wait]
    exact ih (s := { s with epoch := nextEpoch s.epoch }) (by simp only [hnext]; omega)

theorem keeps_wait (hoccupied : (s.slots i).occupied = true) (k : Nat) :
    EveryStep step (Keeps i) s (wait k s.epoch) := by
  induction k generalizing s with
  | zero => trivial
  | succ k ih =>
    refine ⟨?_, ?_⟩
    · rw [Keeps, step_wait]
      exact hoccupied
    · rw [step_wait]
      exact ih hoccupied

/-- **An attenuated lease is binding throughout the life of its node exactly when nothing was
attenuated.** -/
theorem binding_throughout_iff (hs : s.Granted) (h : s.attenuate parent rights expires = .ok lease)
    (hi : s.validateLease parent 0 = .ok i) :
    (∀ calls, EveryStep step (Keeps i) s calls → (final step s calls).Binding lease) ↔
      rights = (s.slots i).rights ∧ expires = (s.slots i).expiresEpoch := by
  obtain ⟨rfl, j, hj, -, hparent, hexpires, hearly⟩ := attenuate_eq_ok.mp h
  obtain rfl : j = i := Except.ok.inj (hj.symm.trans hi)
  obtain ⟨htoken, -, -, hstored, -⟩ := validateLease_eq_ok.mp hi
  have hlive := (val_of_validateTokenIn htoken).2
  constructor
  · intro hbinding
    have hcovered := (binding_iff_covered hs _).mp (hbinding [] trivial)
    have hfull := (hcovered j htoken (UInt64.lt_of_lt_of_le hearly hexpires)).1
    refine ⟨(hparent.trans hstored).antisymm hfull, UInt64.le_antisymm hexpires ?_⟩
    -- otherwise wait until the attenuated expiry, which the node outlives
    by_contra hlate
    rw [UInt64.not_le] at hlate
    have hle := UInt64.le_iff_toNat_le.mp (UInt64.le_of_lt hearly)
    have hwait : final step s (wait (expires.toNat - s.epoch.toNat) s.epoch) =
        { s with epoch := expires } := final_wait (by omega)
    have hbound := hbinding _ (keeps_wait hlive (expires.toNat - s.epoch.toNat))
    rw [hwait, binding_iff_covered (s := { s with epoch := expires }) hs] at hbound
    exact UInt64.lt_irrefl _ (hbound j htoken hlate).2
  · rintro ⟨rfl, rfl⟩ calls hcalls
    have hkept := kept_final hlive hcalls
    refine (binding_iff_covered (granted_final hs calls) _).mpr fun k hk hlater => ?_
    obtain rfl : k = j := Fin.ext ((val_of_validateTokenIn hk).1.trans
      (val_of_validateTokenIn htoken).1.symm)
    rw [hkept.expiresEpoch] at hlater
    rw [hkept.rights]
    exact ⟨Within.refl _, hlater⟩

/-- **When an attenuated lease binds its holder.**  In every scene that a run leads to from the one
in which the lease was attenuated, it is binding exactly when the rights and the expiry stored with
the node leave nothing to write back into it; and it is binding in all of them in which the node
still lives exactly when it has all the rights and the whole lifetime that are stored. -/
theorem attenuated_lease_binding_iff (hs : s.Reachable) {parent lease : SceneLease}
    {rights : UInt32} {expires : UInt64} (h : s.attenuate parent rights expires = .ok lease) :
    (∀ calls, (final step s calls).Binding lease ↔ (final step s calls).Covered lease) ∧
    ∃ i, s.validateLease parent 0 = .ok i ∧
      ((∀ calls, EveryStep step (Keeps i) s calls → (final step s calls).Binding lease) ↔
        rights = (s.slots i).rights ∧ expires = (s.slots i).expiresEpoch) := by
  refine ⟨fun calls => binding_iff_covered (granted_final hs.granted calls) lease, ?_⟩
  obtain ⟨-, i, hi, -⟩ := attenuate_eq_ok.mp h
  exact ⟨i, hi, binding_throughout_iff hs.granted h hi⟩

/-! ### A scene of one node -/

def sampleNode : SceneNode where
  surface := 1
  owner := 7
  rectangle := ⟨10, 20, 100, 80⟩
  z := 0
  opacityQ16 := 0xffff
  phaseQ16 := 0
  role := .application
  flags := 3
  colorHint := 0xff1e140a
  semanticTag := 9

/-- One node with all rights until epoch 100, in a table of eight. -/
def sampleScene : QuantumScene 8 :=
  final step ⟨0x9999, 1, fun _ => SceneSlot.empty, 0⟩ [.spawn sampleNode sceneRightAll 100]

/-- The lease that `spawn` returned for it. -/
def sampleLease : SceneLease := ⟨⟨6386900726051897344⟩, sceneRightAll, 100⟩

theorem sampleScene_reachable : sampleScene.Reachable := ⟨0x9999, _, _, rfl, rfl⟩

/-- The lease to observe, with the stored rights and expiry written back, destroys the node. -/
theorem observer_destroys : sampleScene.Reachable ∧
    sampleScene.attenuate sampleLease sceneRightObserve 50 =
      .ok ⟨sampleLease.token, sceneRightObserve, 50⟩ ∧
    (∃ node t, destroy ⟨sampleLease.token, sceneRightAll, 100⟩ sampleScene = .ok node t) ∧
    ¬sampleScene.Binding ⟨sampleLease.token, sceneRightObserve, 50⟩ := by
  have hvalid : sampleScene.validateLease ⟨sampleLease.token, sceneRightAll, 100⟩
      sceneRightDestroy = .ok 0 := by
    decide +kernel
  have hdestroy : ∃ node t,
      destroy ⟨sampleLease.token, sceneRightAll, 100⟩ sampleScene = .ok node t := by
    exact ⟨_, _, rfl⟩
  refine ⟨sampleScene_reachable, by decide +kernel, hdestroy, fun hbinding => ?_⟩
  obtain ⟨node, t, h⟩ := hdestroy
  have hwithin := (hbinding ⟨sampleLease.token, sceneRightAll, 100⟩ rfl _ (.destroy h)).1
  revert hwithin
  decide

/-- A node on another surface comes in. -/
def arrival : Call := .spawn { sampleNode with surface := 2 } sceneRightObserve 50

/-- Passing everything on binds the holder to everything, also when another node has come in. -/
theorem sampleLease_binding : EveryStep step (Keeps 0) sampleScene [arrival] ∧
    (final step sampleScene [arrival]).count = 2 ∧
    (final step sampleScene [arrival]).Binding sampleLease := by
  have hkept : EveryStep step (Keeps 0) sampleScene [arrival] :=
    ⟨by rw [Keeps]; decide +kernel, trivial⟩
  have hsame : sampleScene.attenuate sampleLease sceneRightAll 100 = .ok sampleLease := by
    decide +kernel
  have hslot : sampleScene.validateLease sampleLease 0 = .ok 0 := by
    decide +kernel
  obtain ⟨-, i, hi, hiff⟩ := attenuated_lease_binding_iff sampleScene_reachable hsame
  obtain rfl : i = 0 := Except.ok.inj (hi.symm.trans hslot)
  exact ⟨hkept, by decide +kernel, hiff.mpr (by decide +kernel) _ hkept⟩

end QuantumScene

end Sisyphus.Crest
