import Sisyphus.Vtd.Calls
import Sisyphus.Vtd.Pool

/-!
# Released tables

The core gives a table back as soon as it finds it empty, and must not touch it after that.  What
it does not look at is whether another record that waits for its cleanup still has the table in
its path: `finishUnmap_readsReleased` is a run in which it goes on to read such a table.

`run_disciplined` is what does hold: the log of page-memory calls is disciplined in every run in
which no call finds a table empty that such a record retains (`Call.Spares`), for every capacity,
every address width, every page memory that obeys the contract and every invalidator.
-/

set_option autoImplicit false

namespace Sisyphus.Slpt

open Fallible SlptPageMemory SlptInvalidator Radix

section

variable {n : Nat} {M I : Type} [SlptPageMemory M]

/-! ## The condition -/

/-- One of the tables that `r` retains, from position `p` down to the leaf, has an entry that is
not the page's own, so that the table at `p` will not be found empty.  In the lowest table, once
tables have been given back, the page's own entry is another page's. -/
def MappingRecord.Leaves (r : MappingRecord) (entry : SlptFrame → TableIndex → UInt64) (p : Nat) :
    Prop :=
  ∃ t < r.retainedDepth, p ≤ t ∧ ∃ i, (∃ f ∈ r.path.frames[t]?, entry f i ≠ 0) ∧
    (r.path.indices[t]? ≠ some i ∨ t + 1 = r.retainedDepth ∧ r.cleanupDepth ≠ 0)

instance (r : MappingRecord) (entry : SlptFrame → TableIndex → UInt64) (p : Nat) :
    Decidable (r.Leaves entry p) := by
  unfold MappingRecord.Leaves
  infer_instance

/-- Taking out the record `r` leaves every table that another record on its way out retains. -/
def Core.Spares (core : Core n) (entry : SlptFrame → TableIndex → UInt64) (k : Fin n)
    (r : MappingRecord) : Prop :=
  ∀ j, j ≠ k → ∀ s ∈ (core.slots j).record, s.isLive = false →
    ∀ p < r.retainedDepth, 1 ≤ p ∧ p < s.retainedDepth ∧
      r.path.frames[p]? = s.path.frames[p]? → r.Leaves entry p

instance (core : Core n) (entry : SlptFrame → TableIndex → UInt64) (k : Fin n)
    (r : MappingRecord) : Decidable (core.Spares entry k r) := by
  unfold Core.Spares
  infer_instance

/-- A call finds no table empty that another record on its way out retains. -/
def Call.Spares (v : View M) (w : World n M I) (call : Call) : Prop :=
  ∀ handle ∈ call.target,
    match w.core.recordIndex handle with
    | .ok (k, r) => w.core.Spares (v.entry w.memory) k r
    | .error _ => True

instance (v : View M) (w : World n M I) (call : Call) : Decidable (call.Spares v w) := by
  unfold Call.Spares
  have : ∀ handle, Decidable (match w.core.recordIndex handle with
      | .ok (k, r) => w.core.Spares (v.entry w.memory) k r
      | .error _ => True) := by
    intro handle
    split <;> infer_instance
  infer_instance

theorem Call.Spares.sparing {c : Contract M} {w : World n M I} {call : Call} {T : TableTree}
    (h : call.Spares c.toView w) (hL : Ledger True w.core T)
    (hst : Stored c.toView w.core w.memory T) : call.Sparing w.core T := by
  intro handle k r htarget hindex
  have h := h handle htarget
  simp only [hindex] at h
  intro j s p hjk hj hdead hp hpr hps hframes
  obtain ⟨t, ht, hpt, i, ⟨f, hf, hne⟩, hown⟩ := h j hjk s hj hdead p hpr
    ⟨hp, hps, hframes⟩
  refine ⟨t, i, hpt, ht, ?_, hown⟩
  have hk := (Core.recordIndex_eq_ok.mp hindex).2.1
  have hnode := ((hL.held k r hk).onTree (.inl trivial)).node_eq ht hf
  exact (hst.repr.entry_ne_zero_iff hnode trivial).mp hne

/-! ## Disciplined runs -/

/-- A core attached to a root, with the devices it runs on. -/
def launch (n : Nat) (memory : M) (root : SlptFrame) (config : SlptConfig) (invalidator : I) :
    Option (World n M I) :=
  match attach n memory root config with
  | (.ok core, m) => some ⟨core, m, invalidator⟩
  | (.error _, _) => none

theorem launch_eq_some {memory : M} {root : SlptFrame} {config : SlptConfig} {invalidator : I}
    {w : World n M I} (h : launch n memory root config invalidator = some w) :
    attach n memory root config = (.ok w.core, w.memory) := by
  rw [launch] at h
  split at h
  · next core m he =>
    cases h
    exact he
  · cases h

variable [SlptInvalidator I]

/-- **No released table is touched** in a run in which no call finds a table empty that another
record on its way out retains. -/
theorem run_disciplined (c : Contract M) {memory : M} {root : SlptFrame} {config : SlptConfig}
    {invalidator : I} {w : World n (Logged M) I} (hroot : ∀ f, c.owned memory f ↔ f = root)
    (hw : launch n (⟨memory, []⟩ : Logged M) root config invalidator = some w)
    (calls : List Call)
    (h : Run.EveryStep Call.perform
      (fun w call => call.Spares (Logged.contract c).toView w) w calls) :
    Disciplined (run w calls).memory.log := by
  let μ := Logged.monitor c I False (fun _ => 0) False.elim
  obtain ⟨-, hran, -, hL, hst⟩ := attach_ok μ True (launch_eq_some hw) hroot
  have hstart : Logged.Clean c w.memory :=
    (hran trivial ⟨.nil, fun _ _ => rfl⟩).1
  have hinv := h.invariant
    (I := fun w => Sound (Logged.contract c) True w ∧ Logged.Clean c w.memory)
    (fun w call hspare hinv => ?_) ⟨fun _ => ⟨_, hL, hst⟩, hstart⟩
  · exact hinv.2.1
  · obtain ⟨d, e, hstep⟩ := call.step μ hinv.1 fun _ T hL hst => hspare.sparing hL hst
    exact ⟨hstep.sound, (hstep.ran trivial hinv.2).1⟩

/-! ## Failed maps -/

omit [SlptPageMemory M] in
/-- What the tables of a tree hold is a matter of the tree. -/
theorem Stored.entry_eq {v : View M} {core : Core n} {m m' : M} {T : TableTree}
    (h : Stored v core m T) (h' : Stored v core m' T) {f : SlptFrame} (hf : v.owned m f)
    (i : TableIndex) : v.entry m' f i = v.entry m f i := by
  obtain ⟨path, hpath⟩ := (h.owned f).mp hf
  have hdepth := h.repr.depth hpath
  by_cases hlast : path.length + 1 = (layout core.levels).levels
  · rw [h'.repr.last hpath hlast i trivial, h.repr.last hpath hlast i trivial]
  · have hinner : path.length + 1 < (layout core.levels).levels := by omega
    rw [h'.repr.inner hpath hinner i trivial, h.repr.inner hpath hinner i trivial]

/-- **A failed map leaves no trace** unless it poisons the core: the tables spell out the same tree,
each of them holds what it held, and the core owns no others. -/
theorem failed_map_rolls_back (c : Contract M) {memory : M} {root : SlptFrame} {config : SlptConfig}
    {invalidator : I} {w w' : World n M I} (hroot : ∀ f, c.owned memory f ↔ f = root)
    (hw : launch n memory root config invalidator = some w) (calls : List Call)
    {iova physicalAddress : UInt64} {permissions : DmaPermissions} {fault : SlptFault}
    (hfail : (Call.mapPage iova physicalAddress permissions).perform (run w calls) =
      (.failed fault, w'))
    (hop : w'.core.state = .operational) :
    w'.core = (run w calls).core ∧
      (∃ T, Stored c.toView w'.core (run w calls).memory T ∧ Stored c.toView w'.core w'.memory T) ∧
      (∀ f, c.owned w'.memory f ↔ c.owned (run w calls).memory f) ∧
      ∀ f, c.owned w'.memory f → ∀ i, c.entry w'.memory f i = c.entry (run w calls).memory f i := by
  obtain ⟨-, -, -, hL₀, hst₀⟩ := attach_ok (Monitor.blind c I) False (launch_eq_some hw) hroot
  have hsound := sound_run (fun _ => ⟨_, hL₀, hst₀⟩) calls
  rw [Call.perform, reply] at hfail
  split at hfail
  · cases hfail
  · next e w' hx =>
    cases hfail
    obtain ⟨T, hbefore, -, -, -, -, hback⟩ :=
      (ensures_mapPage (μ := Monitor.blind c I) hsound).of_error hx
    obtain ⟨hcore, hafter⟩ := hback hop
    have hbefore := hbefore (hcore ▸ hop)
    rw [← hcore] at hbefore hafter
    exact ⟨hcore, ⟨T, hbefore, hafter⟩, fun f => (hafter.owned f).trans (hbefore.owned f).symm,
      fun f hf i => (hafter.entry_eq hbefore hf i).symm⟩

end

/-! ## Sample runs -/

/-- The first page of the pool. -/
def sampleRoot : SlptFrame := ⟨0x1000, by decide, by decide⟩

/-- Two levels of tables, for addresses of 30 bits. -/
def sampleConfig : SlptConfig := ⟨1, 30, 0⟩

def samplePool : Logged Pool := ⟨⟨[sampleRoot], fun _ _ => 0, []⟩, []⟩

def readWrite : DmaPermissions := ⟨true, true⟩

/-- Two pages in the same leaf table.  The first one is unmapped, and then the second. -/
def sharedTable : List Call :=
  [.mapPage 0x0000 0x100000 readWrite, .mapPage 0x1000 0x101000 readWrite, .unmapPage ⟨0, 1⟩,
    .unmapPage ⟨1, 1⟩, .finishUnmap ⟨⟨0, 1⟩⟩]

theorem isSome_launch (failures : List Bool) :
    (launch 2 samplePool sampleRoot sampleConfig (⟨failures⟩ : Script)).isSome = true := by
  have : ∀ i : Script, (launch 2 samplePool sampleRoot sampleConfig i).isSome =
      (launch 2 samplePool sampleRoot sampleConfig (⟨[]⟩ : Script)).isSome := by
    intro i
    simp only [launch]
    split <;> rfl
  rw [this]
  decide +kernel

/-- The core on the pool, with an invalidator of which some calls fail. -/
def sampleWorld (failures : List Bool) : World 2 (Logged Pool) Script :=
  (launch 2 samplePool sampleRoot sampleConfig (⟨failures⟩ : Script)).get (isSome_launch failures)

theorem launch_sampleWorld (failures : List Bool) :
    launch 2 samplePool sampleRoot sampleConfig (⟨failures⟩ : Script) =
      some (sampleWorld failures) := (Option.some_get _).symm

theorem owned_samplePool (f : SlptFrame) : Pool.contract.owned samplePool.memory f ↔
    f = sampleRoot := by
  simp [samplePool, Pool.contract, Pool.view]

/-- The pool on which, once the root has been looked through, the fourth call fails. -/
def brokenPool : Pool := ⟨[sampleRoot], fun _ _ => 0, List.replicate 512 false ++
  [false, false, false, true]⟩

/-- A new table has been cleared and the link to it cannot be written: the table goes back. -/
theorem brokenPool_rolls_back :
    ∃ w, launch 2 brokenPool sampleRoot sampleConfig (⟨[]⟩ : Script) = some w ∧
      ∃ w', (Call.mapPage 0x3000 0x100000 readWrite).perform w = (.failed (.memory 7), w') ∧
        w'.core.state = .operational ∧ ∀ f, f ∈ w'.memory.used ↔ f ∈ w.memory.used := by
  have hanswer : ((launch 2 brokenPool sampleRoot sampleConfig (⟨[]⟩ : Script)).map fun w =>
      (((Call.mapPage 0x3000 0x100000 readWrite).perform w).1,
        ((Call.mapPage 0x3000 0x100000 readWrite).perform w).2.core.state)) =
      some (.failed (.memory 7), .operational) := by decide +kernel
  obtain ⟨w, hw, h⟩ := Option.map_eq_some_iff.mp hanswer
  obtain ⟨hfailed, hop⟩ := Prod.ext_iff.mp h
  have hpair : (Call.mapPage 0x3000 0x100000 readWrite).perform w = (.failed (.memory 7), _) :=
    Prod.ext hfailed rfl
  exact ⟨w, hw, _, hpair, hop, (failed_map_rolls_back Pool.contract
    (fun _ => List.mem_singleton) hw [] hpair hop).2.2.1⟩

/-- With an invalidation that fails while the second page is unmapped, its table waits for it. -/
theorem sharedTable_disciplined :
    (run (sampleWorld [false, false, false, true]) sharedTable).core.state = .operational ∧
      Disciplined (run (sampleWorld [false, false, false, true]) sharedTable).memory.log :=
  ⟨by decide +kernel, run_disciplined Pool.contract owned_samplePool (launch_sampleWorld _)
    sharedTable (by decide +kernel)⟩

/-- With an invalidation that fails while the first page is unmapped, the second one gives their
table back, and the retry for the first reads it. -/
theorem finishUnmap_readsReleased :
    let w := run (sampleWorld [false, false, true]) sharedTable
    ¬Disciplined w.memory.log ∧ w.core.state = .poisoned := by
  decide +kernel

end Sisyphus.Slpt
