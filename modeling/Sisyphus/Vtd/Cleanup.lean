import Sisyphus.Vtd.Tracking

/-!
# Cleaning up batches

What the loops of the backend do to `Backend.Inv`, and with it every request.  The one thing a
cleanup promises is in `Backend.ensures_cleanupBatch`: either all pages of the batch are gone, from
both books, or a page call failed, and then the batch is still there to be cleaned up again.

The invariant carries a property `P` of the engine along.  It may be anything that survives an
invalidation and a `disable`, whether they work or not (`Survives`).
-/

set_option autoImplicit false

namespace Sisyphus.Vtd

open Fallible Function List Slpt SlptInvalidator SlptPageMemory

/-! ## Batches and their pages -/

variable {record : PageRecord}

section Covered

variable {n m : Nat} {batches : Fin m → BatchSlot n} {records : Fin n → PageRecord} {p : Fin n}

/-- A page record that is in use belongs to a batch. -/
def Covered (batches : Fin m → BatchSlot n) (records : Fin n → PageRecord) : Prop :=
  ∀ p, records p ≠ .empty → ∃ i, (batches i).phase ≠ .empty ∧ p ∈ (batches i).pageSlots

namespace Covered

theorem setRecord (h : Covered batches records)
    (hp : record = .empty ∨ ∃ i, (batches i).phase ≠ .empty ∧ p ∈ (batches i).pageSlots) :
    Covered batches (update records p record) := by
  intro q hq
  by_cases hqp : q = p
  · subst hqp
    rw [update_self] at hq
    exact hp.resolve_left hq
  · rw [update_of_ne hqp] at hq
    exact h q hq

variable {batch : BatchSlot n} {index : Fin m}

/-- A batch changes that is in use, and keeps its pages. -/
theorem setBatch (h : Covered batches records) (hphase : batch.phase ≠ .empty)
    (hslots : (batches index).phase ≠ .empty → batch.pageSlots = (batches index).pageSlots) :
    Covered (update batches index batch) records := by
  intro q hq
  obtain ⟨i, hi, hqi⟩ := h q hq
  by_cases hindex : i = index
  · subst hindex
    refine ⟨i, ?_⟩
    rw [update_self, hslots hi]
    exact ⟨hphase, hqi⟩
  · refine ⟨i, ?_⟩
    rw [update_of_ne hindex]
    exact ⟨hi, hqi⟩

/-- A batch goes that has no pages left. -/
theorem retire (h : Covered batches records)
    (hgone : ∀ q ∈ (batches index).pageSlots, records q = .empty) :
    Covered (update batches index batch) records := by
  intro q hq
  obtain ⟨i, hi, hqi⟩ := h q hq
  refine ⟨i, ?_⟩
  rw [update_of_ne]
  · exact ⟨hi, hqi⟩
  · rintro rfl
    exact hq (hgone q hqi)

end Covered

end Covered

namespace Backend

variable {pages batches maxBatchPages : Nat} {M R : Type} [SlptPageMemory M]
  [VtdRegisterBackend R]

/-! ## The invariant -/

/-- Every page call so far was gentle. -/
def Gently (c : Contract M) (b : Backend pages batches maxBatchPages (Logged M) R) : Prop :=
  ∀ e ∈ b.log, Gentle c e.1 e.2

/-- The property outlives whatever the backend does to the engine. -/
structure Survives (P : EngineInvalidator R → Prop) : Prop where
  invalidate : ∀ iova i, P i →
    Ensures (invalidateAfterPageTableChange iova) i (fun _ i' => P i') fun _ i' => P i'
  disable : ∀ i, P i → Ensures (Engine.disable i.pollLimit) i.engine
    (fun _ engine => P { i with engine })
    fun fault engine => P { i with engine, lastFault := some fault }

structure Inv (c : Contract M) (P : EngineInvalidator R → Prop)
    (b : Backend pages batches maxBatchPages (Logged M) R) : Prop where
  device : P b.world.invalidator
  covered : Covered b.batches b.pageRecords
  settled : b.Gently c → Healthy c b.world ∧ Tracks b.world.core b.pageRecords

/-- `t` comes after `b`. -/
structure Later (c : Contract M) (b t : Backend pages batches maxBatchPages (Logged M) R) :
    Prop where
  gently : t.Gently c → b.Gently c
  count : t.Gently c → failures b.world ≤ failures t.world

variable {c : Contract M} {P : EngineInvalidator R → Prop} {ε : Type}
  {b b' t : Backend pages batches maxBatchPages (Logged M) R}

theorem Later.refl (b : Backend pages batches maxBatchPages (Logged M) R) : Later c b b :=
  ⟨fun h => h, fun _ => le_rfl⟩

theorem Later.trans (h : Later c b b') (h' : Later c b' t) : Later c b t :=
  ⟨fun ht => h.gently (h'.gently ht), fun ht => (h.count (h'.gently ht)).trans (h'.count ht)⟩

/-- Neither page calls nor failures in between. -/
theorem Later.of_eq (hlog : t.log = b.log) (hcount : failures t.world = failures b.world) :
    Later c b t :=
  ⟨fun ht e he => ht e (hlog ▸ he), fun _ => hcount.ge⟩

/-- The page calls are those of `b` and one more. -/
theorem gently_of_log {call : Call} (ht : t.Gently c) (hlog : t.log = (b.world, call) :: b.log) :
    b.Gently c ∧ Gentle c b.world call := by
  rw [Gently, hlog] at ht
  exact ⟨fun e he => ht e (mem_cons_of_mem _ he), ht _ (mem_cons_self ..)⟩

variable {w' : World pages (Logged M) (EngineInvalidator R)}

/-- After one more page call. -/
theorem Inv.called {call : Call}
    (hdevice : P w'.invalidator) (hworld : t.world = w') (hlog : t.log = (b.world, call) :: b.log)
    (hcovered : Covered t.batches t.pageRecords)
    (h : b.Gently c → Gentle c b.world call → Healthy c w' ∧ failures b.world ≤ failures w' ∧
      Tracks w'.core t.pageRecords) : t.Inv c P ∧ Later c b t := by
  subst hworld
  refine ⟨⟨hdevice, hcovered, fun ht => ?_⟩, fun ht => (gently_of_log ht hlog).1, fun ht => ?_⟩
  · obtain ⟨hb, hcall⟩ := gently_of_log ht hlog
    exact ⟨(h hb hcall).1, (h hb hcall).2.2⟩
  · obtain ⟨hb, hcall⟩ := gently_of_log ht hlog
    exact (h hb hcall).2.1

/-! ## Taking pages out -/

variable {E : ε → Backend pages batches maxBatchPages (Logged M) R → Prop} {batch : BatchSlot pages}

theorem ne_empty_of_discharge {found : Discharge pages M R} (h : discharge record = some found) :
    record ≠ .empty := by
  rintro rfl
  cases h

/-- One turn of the loop of `cleanup_batch`. -/
theorem ensures_cleanPage {p : Fin pages} {call : Call}
    {x : Slpt.Op pages (Logged M) (EngineInvalidator R) SlptFault UnmapOutcome}
    (hP : Survives P)
    (hinv : b.Inv c P) (hdis : discharge (b.pageRecords p) = some (call, x)) :
    Ensures (onSlpt call x) b
      (fun result t => ∃ w', t = { b with world := w', log := (b.world, call) :: b.log } ∧
        P w'.invalidator ∧ (b.Gently c → Gentle c b.world call → Healthy c w' ∧
          Tracks b.world.core b.pageRecords ∧ ∃ k r, Names b.world.core (b.pageRecords p) k r ∧
            Discharged b.world (b.pageRecords p) k w' result)) E := by
  have hkeep := call.keeps hP.invalidate hinv.device
  have hfacts : b.Gently c → Gentle c b.world call → Tracks b.world.core b.pageRecords ∧
      ∃ k r, Names b.world.core (b.pageRecords p) k r ∧ Ensures x b.world
        (fun outcome w' => Healthy c w' ∧ Discharged b.world (b.pageRecords p) k w' (.ok outcome))
        (fun fault w' => Healthy c w' ∧
          Discharged b.world (b.pageRecords p) k w' (.error fault)) := by
    intro hb hcall
    obtain ⟨hhealthy, htracks⟩ := hinv.settled hb
    obtain ⟨k, r, hnames⟩ := htracks.named p (ne_empty_of_discharge hdis)
    exact ⟨htracks, k, r, hnames, ensures_discharge hhealthy hnames hdis hcall⟩
  rw [perform_discharge hdis, reply] at hkeep
  rw [onSlpt, ensures_within, Ensures]
  cases hx : x b.world with
  | ok outcome w' =>
    rw [hx] at hkeep
    refine ⟨w', rfl, hkeep, fun hb hcall => ?_⟩
    obtain ⟨htracks, k, r, hnames, hens⟩ := hfacts hb hcall
    obtain ⟨hhealthy, hdone⟩ := hens.of_ok hx
    exact ⟨hhealthy, htracks, k, r, hnames, hdone⟩
  | error fault w' =>
    rw [hx] at hkeep
    refine ⟨w', rfl, hkeep, fun hb hcall => ?_⟩
    obtain ⟨htracks, k, r, hnames, hens⟩ := hfacts hb hcall
    obtain ⟨hhealthy, hdone⟩ := hens.of_error hx
    exact ⟨hhealthy, htracks, k, r, hnames, hdone⟩

/-- What a cleanup of the pages `l` of a batch changes. -/
structure Cleaned (c : Contract M) (P : EngineInvalidator R → Prop) (index : Fin batches)
    (l : List (Fin pages)) (b t : Backend pages batches maxBatchPages (Logged M) R) : Prop where
  inv : t.Inv c P
  later : Later c b t
  batches : ∀ j, j ≠ index → t.batches j = b.batches j
  records : ∀ q, q ∉ l → t.pageRecords q = b.pageRecords q

/-- The pages `l` are gone, and with them everything the ledger had about them. -/
structure Done (c : Contract M) (index : Fin batches) (l : List (Fin pages))
    (b t : Backend pages batches maxBatchPages (Logged M) R) : Prop where
  phase : (t.batches index).phase = .empty
  records : ∀ p ∈ l, t.pageRecords p = .empty
  ledger : t.Gently c → ∀ j s, t.world.core.At j s → b.world.core.At j s ∧
    ∀ p ∈ l, ∀ r, ¬Names b.world.core (b.pageRecords p) j r

/-- Something failed. -/
def Stuck (c : Contract M) (b t : Backend pages batches maxBatchPages (Logged M) R) : Prop :=
  t.Gently c → failures b.world < failures t.world

theorem Stuck.after (hlater : Later c b b') (hlater' : Later c b' t) (h : Stuck c b' t) :
    Stuck c b t := fun ht => (hlater.count (hlater'.gently ht)).trans_lt (h ht)

section Loop

variable {index : Fin batches} {p : Fin pages} {rest : List (Fin pages)}

theorem discharge_eq_none (h : (discharge record : Option (Discharge pages M R)) = none) :
    record = .empty := by
  cases record with
  | empty => rfl
  | active _ | mapPending _ | unmapPending _ => cases h

/-- The first page has nothing to clean up. -/
theorem Done.cons_empty (hp : b.pageRecords p = .empty) (hclean : Cleaned c P index rest b t)
    (h : Done c index rest b t) : Done c index (p :: rest) b t := by
  refine ⟨h.phase, fun q hq => ?_, fun ht j s hj => ?_⟩
  · by_cases hqr : q ∈ rest
    · exact h.records q hqr
    · obtain rfl := (mem_cons.mp hq).resolve_right hqr
      rw [hclean.records q hqr, hp]
  · obtain ⟨hat, hnot⟩ := h.ledger ht j s hj
    refine ⟨hat, fun q hq r hnames => ?_⟩
    rcases mem_cons.mp hq with rfl | hq
    · exact hnames.ne_empty hp
    · exact hnot q hq r hnames

/-- The first page was taken out of both books. -/
theorem Done.cons_complete (hrecords : b'.pageRecords = update b.pageRecords p .empty)
    (hcore : b'.Gently c → ∃ k r, Names b.world.core (b.pageRecords p) k r ∧
      b'.world.core = b.world.core.retireSlot k)
    (hclean : Cleaned c P index rest b' t) (h : Done c index rest b' t) :
    Done c index (p :: rest) b t := by
  refine ⟨h.phase, fun q hq => ?_, fun ht j s hj => ?_⟩
  · by_cases hqr : q ∈ rest
    · exact h.records q hqr
    · obtain rfl := (mem_cons.mp hq).resolve_right hqr
      rw [hclean.records q hqr, hrecords, update_self]
  · obtain ⟨hat, hnot⟩ := h.ledger ht j s hj
    obtain ⟨k, r, hnames, hcore⟩ := hcore (hclean.later.gently ht)
    rw [hcore] at hat hnot
    obtain ⟨hjk, hat⟩ := Core.at_retireSlot.mp hat
    refine ⟨hat, fun q hq r' hr' => ?_⟩
    by_cases hqp : q = p
    · subst hqp
      exact hjk (hr'.slot_eq hnames)
    · refine hnot q ((mem_cons.mp hq).resolve_left hqp) r' ?_
      rw [hrecords, update_of_ne hqp]
      exact hr'.congr (Tracks.slots_retireSlot hjk)

/-- The cleanup stops at the first page, which keeps a record. -/
theorem Cleaned.stop {call : Call}
    (record : PageRecord) (hinv : b.Inv c P) (hused : b.pageRecords p ≠ .empty)
    (hdevice : P w'.invalidator) (hworld : t.world = w')
    (hlog : t.log = (b.world, call) :: b.log)
    (hbatches : t.batches = update b.batches index { b.batches index with phase := .quarantined })
    (hrecords : t.pageRecords = update b.pageRecords p record)
    (h : b.Gently c → Gentle c b.world call → Healthy c w' ∧
      failures w' = failures b.world + 1 ∧ Tracks w'.core t.pageRecords) :
    Cleaned c P index (p :: rest) b t ∧ Stuck c b t := by
  have hcovered : Covered t.batches t.pageRecords := by
    rw [hbatches, hrecords]
    exact (hinv.covered.setRecord (.inr (hinv.covered p hused))).setBatch (by simp) fun _ => rfl
  obtain ⟨hinv', hlater⟩ := Inv.called (P := P) hdevice hworld hlog hcovered fun hb hcall =>
    ⟨(h hb hcall).1, (h hb hcall).2.1.ge.trans' (by omega), (h hb hcall).2.2⟩
  refine ⟨⟨hinv', hlater, fun j hj => ?_, fun q hq => ?_⟩, fun ht => ?_⟩
  · rw [hbatches, update_of_ne hj]
  · rw [hrecords, update_of_ne (ne_of_not_mem_cons hq)]
  · obtain ⟨hb, hcall⟩ := gently_of_log ht hlog
    rw [hworld, (h hb hcall).2.1]
    exact Nat.lt_succ_self _

end Loop

/-- **The loop of `cleanup_batch`**, by induction on the pages still to go. -/
theorem ensures_cleanupPages (hP : Survives P) (index : Fin batches) (l : List (Fin pages))
    (b : Backend pages batches maxBatchPages (Logged M) R) (hinv : b.Inv c P)
    (hl : ∀ q ∈ (b.batches index).pageSlots, q ∈ l ∨ b.pageRecords q = .empty) :
    Ensures (cleanupPages index l) b (fun done t => Cleaned c P index l b t ∧
        (done = true → Done c index l b t) ∧ (done = false → Stuck c b t))
      (fun _ t => Cleaned c P index l b t ∧ Stuck c b t) := by
  induction l generalizing b with
  | nil =>
    refine ⟨⟨⟨hinv.device, hinv.covered.retire fun q hq => by simpa using hl q hq, hinv.settled⟩,
      .of_eq rfl rfl, fun j hj => update_of_ne hj .., fun _ _ => rfl⟩, fun _ => ⟨?_, by simp,
      fun _ j s hj => ⟨hj, by simp⟩⟩, fun h => by cases h⟩
    dsimp only
    rw [update_self]
    split <;> rfl
  | cons p rest ih =>
    -- once the record of `p` is empty, the pages after it are what is left
    have hrest : ∀ b' : Backend pages batches maxBatchPages (Logged M) R,
        b'.batches = b.batches → b'.pageRecords p = .empty →
        (∀ q, q ≠ p → b'.pageRecords q = b.pageRecords q) →
        ∀ q ∈ (b'.batches index).pageSlots, q ∈ rest ∨ b'.pageRecords q = .empty := by
      intro b' hbatches hp hother q hq
      by_cases hqp : q = p
      · exact .inr (hqp ▸ hp)
      · rw [hother q hqp]
        rw [hbatches] at hq
        exact (hl q hq).imp_left fun h => (mem_cons.mp h).resolve_left hqp
    rw [cleanupPages, ensures_bind, ensures_get]
    cases hdis : (discharge (b.pageRecords p) : Option (Discharge pages (Logged M) R)) with
    | none =>
      have hempty := discharge_eq_none hdis
      have hwiden : ∀ {t}, Cleaned c P index rest b t → Cleaned c P index (p :: rest) b t :=
        fun h => ⟨h.inv, h.later, h.batches, fun q hq => h.records q (not_mem_of_not_mem_cons hq)⟩
      refine (ih b hinv (hrest b rfl hempty fun _ _ => rfl)).mono ?_ fun _ t h => ⟨hwiden h.1, h.2⟩
      rintro done t ⟨hclean, hdone, hstuck⟩
      exact ⟨hwiden hclean, fun hd => (hdone hd).cons_empty hempty hclean, hstuck⟩
    | some found =>
      obtain ⟨call, x⟩ := found
      have hused := ne_empty_of_discharge hdis
      simp only [ensures_bind]
      refine (ensures_cleanPage hP hinv hdis).imp_ok ?_
      rintro result t₁ ⟨w', rfl, hdevice, hfacts⟩
      cases result with
      | error fault =>
        refine Cleaned.stop (b.pageRecords p) hinv hused hdevice rfl rfl rfl
          (update_eq_self ..).symm fun hb hcall => ?_
        obtain ⟨hhealthy, htracks, k, r, -, hcore, hcount⟩ := hfacts hb hcall
        exact ⟨hhealthy, hcount, htracks.congr (by rw [hcore])⟩
      | ok outcome =>
        cases outcome with
        | pending receipt cause =>
          refine (Cleaned.stop _ hinv hused hdevice rfl rfl rfl rfl fun hb hcall => ?_).imp_right
            fun hstuck => ⟨fun h => absurd h (by decide), fun _ => hstuck⟩
          obtain ⟨hhealthy, htracks, k, r, hnames, hhandle, ⟨s, hcore, hs⟩, hcount⟩ :=
            hfacts hb hcall
          rw [hcore]
          exact ⟨hhealthy, hcount, htracks.pending hnames hhandle hs⟩
        | complete =>
          simp only [setPageRecord, ensures_rules]
          generalize hb₂ : ({ b with
              world := w'
              log := (b.world, call) :: b.log
              pageRecords := update b.pageRecords p .empty } :
            Backend pages batches maxBatchPages (Logged M) R) = b₂
          obtain ⟨hworld, hlog, hbatches, hrecords⟩ : b₂.world = w' ∧
              b₂.log = (b.world, call) :: b.log ∧ b₂.batches = b.batches ∧
              b₂.pageRecords = update b.pageRecords p .empty := by
            rw [← hb₂]
            exact ⟨rfl, rfl, rfl, rfl⟩
          have hcovered : Covered b₂.batches b₂.pageRecords := by
            rw [hbatches, hrecords]
            exact hinv.covered.setRecord (.inl rfl)
          obtain ⟨hinv₂, hlater₂⟩ := Inv.called (P := P) hdevice hworld hlog hcovered
            fun hb hcall => by
              obtain ⟨hhealthy, htracks, k, r, hnames, hcore, hcount⟩ := hfacts hb hcall
              rw [hcore, hrecords]
              exact ⟨hhealthy, hcount.ge, htracks.complete hnames⟩
          have hwiden : ∀ {t}, Cleaned c P index rest b₂ t → Cleaned c P index (p :: rest) b t := by
            refine fun h => ⟨h.inv, hlater₂.trans h.later, fun j hj => ?_, fun q hq => ?_⟩
            · rw [h.batches j hj, hbatches]
            · rw [h.records q (not_mem_of_not_mem_cons hq), hrecords,
                update_of_ne (ne_of_not_mem_cons hq)]
          refine (ih b₂ hinv₂ (hrest b₂ hbatches (by rw [hrecords, update_self])
            fun q hq => by rw [hrecords, update_of_ne hq])).mono ?_
            fun _ t h => ⟨hwiden h.1, h.2.after hlater₂ h.1.later⟩
          rintro done t ⟨hclean, hdone, hstuck⟩
          refine ⟨hwiden hclean, fun hd => (hdone hd).cons_complete hrecords (fun h₂ => ?_) hclean,
            fun hd => (hstuck hd).after hlater₂ hclean.later⟩
          obtain ⟨hb, hcall⟩ := gently_of_log h₂ hlog
          obtain ⟨-, -, k, r, hnames, hcore, -⟩ := hfacts hb hcall
          exact ⟨k, r, hnames, by rw [hworld, hcore]⟩

/-- **A cleanup takes the batch out, or something failed.** -/
theorem ensures_cleanupBatch (hP : Survives P) (index : Fin batches) (hinv : b.Inv c P) :
    Ensures (cleanupBatch index) b
      (fun done t => Cleaned c P index (b.batches index).pageSlots b t ∧
        (done = true → Done c index (b.batches index).pageSlots b t) ∧
        (done = false → Stuck c b t))
      (fun _ t => Cleaned c P index (b.batches index).pageSlots b t ∧ Stuck c b t) := by
  exact ensures_cleanupPages hP index _ b hinv fun q hq => .inl hq

/-- The loop of `release_domain`: one batch after the other, whether or not they can be taken
out. -/
theorem ensures_cleanupBatches (hP : Survives P)
    (l : List (Fin batches)) (b : Backend pages batches maxBatchPages (Logged M) R)
    (hinv : b.Inv c P) :
    Ensures (cleanupBatches l) b
      (fun failed t => t.Inv c P ∧ Later c b t ∧ (failed = true → Stuck c b t) ∧
        (failed = false → ∀ i, i ∈ l ∨ (b.batches i).phase = .empty →
          (t.batches i).phase = .empty)) E := by
  induction l generalizing b with
  | nil => exact ⟨hinv, .refl b, by simp, fun _ i hi => hi.resolve_left (by simp)⟩
  | cons index rest ih =>
    rw [cleanupBatches, ensures_bind, ensures_get, ensures_ite]
    refine ⟨fun _ => ?_, fun hempty => ?_⟩
    · rw [ensures_bind, ensures_attempt]
      -- after a cleanup that failed, the others still have their turn
      have hfailed : ∀ t, Cleaned c P index (b.batches index).pageSlots b t → Stuck c b t →
          Ensures (do let _ ← cleanupBatches rest; return true) t
            (fun failed t => t.Inv c P ∧ Later c b t ∧ (failed = true → Stuck c b t) ∧
              (failed = false → ∀ i, i ∈ index :: rest ∨ (b.batches i).phase = .empty →
                (t.batches i).phase = .empty)) E := by
        intro t hclean hstuck
        rw [ensures_bind]
        refine (ih t hclean.inv).imp_ok ?_
        rintro failed t' ⟨hinv', hlater, -⟩
        exact ⟨hinv', hclean.later.trans hlater,
          fun _ ht => (hstuck (hlater.gently ht)).trans_le (hlater.count ht), fun h => by cases h⟩
      refine (ensures_cleanupBatch hP index hinv).mono ?_ fun e t h => hfailed t h.1 h.2
      rintro (_ | _) t ⟨hclean, hdone, hstuck⟩
      · exact hfailed t hclean (hstuck rfl)
      · refine (ih t hclean.inv).imp_ok ?_
        rintro failed t' ⟨hinv', hlater, hstuck', hempty'⟩
        refine ⟨hinv', hclean.later.trans hlater,
          fun h ht => (hclean.later.count (hlater.gently ht)).trans_lt (hstuck' h ht),
          fun h i hi => hempty' h i ?_⟩
        by_cases hi' : i = index
        · rw [hi']
          exact .inr (hdone rfl).phase
        · rw [hclean.batches i hi']
          exact hi.imp_left fun h => (mem_cons.mp h).resolve_left hi'
    · have hphase : (b.batches index).phase = .empty := by simpa using hempty
      refine (ih b hinv).imp_ok ?_
      rintro failed t ⟨hinv', hlater, hstuck, hempty'⟩
      refine ⟨hinv', hlater, hstuck, fun h i hi => hempty' h i ?_⟩
      by_cases hi' : i = index
      · rw [hi']
        exact .inr hphase
      · exact hi.imp_left fun h => (mem_cons.mp h).resolve_left hi'

/-! ## Putting pages in -/

theorem pageSlot_injective {n : Nat} (batch : BatchSlot n) : Function.Injective batch.pageSlot := by
  intro i j h
  have := congrArg Fin.val h
  simp only [BatchSlot.pageSlot] at this
  exact Fin.ext (by omega)

variable {permissions : DmaPermissions}

/-- One turn of the loop of `map_span`. -/
theorem ensures_mapCall {iova physicalAddress : UInt64} (hP : Survives P) (hinv : b.Inv c P) :
    Ensures (onSlpt (.mapPage iova physicalAddress permissions)
        (Slpt.mapPage iova physicalAddress permissions)) b
      (fun result t => ∃ w' call, t = { b with world := w', log := (b.world, call) :: b.log } ∧
        P w'.invalidator ∧ (b.Gently c → Gentle c b.world call → Healthy c w' ∧
          failures b.world ≤ failures w' ∧ Tracks b.world.core b.pageRecords ∧
          Mapped b.world w' result)) E := by
  have hkeep := (Call.mapPage iova physicalAddress permissions).keeps hP.invalidate hinv.device
  rw [Call.perform, reply] at hkeep
  rw [onSlpt, ensures_within, Ensures]
  cases hx : Slpt.mapPage iova physicalAddress permissions b.world with
  | ok outcome w' =>
    rw [hx] at hkeep
    refine ⟨w', _, rfl, hkeep, fun hb hcall => ?_⟩
    obtain ⟨hhealthy, htracks⟩ := hinv.settled hb
    obtain ⟨hhealthy', hle, hmapped⟩ := (ensures_mapPage_gentle hhealthy hcall).of_ok hx
    exact ⟨hhealthy', hle, htracks, hmapped⟩
  | error fault w' =>
    rw [hx] at hkeep
    refine ⟨w', _, rfl, hkeep, fun hb hcall => ?_⟩
    obtain ⟨hhealthy, htracks⟩ := hinv.settled hb
    obtain ⟨hhealthy', hle, hmapped⟩ := (ensures_mapPage_gentle hhealthy hcall).of_error hx
    exact ⟨hhealthy', hle, htracks, hmapped⟩

/-- **The loop of `map_span`**, by induction on the pages still to go, whose records are free. -/
theorem ensures_mapPages (hP : Survives P)
    (hpages : pages ≤ 65535) (batch : BatchSlot pages) (index : Fin batches)
    (permissions : DmaPermissions) (l : List (Fin batch.pageCount)) (hnodup : l.Nodup)
    (b : Backend pages batches maxBatchPages (Logged M) R) (hinv : b.Inv c P)
    (hphase : (b.batches index).phase ≠ .empty)
    (hslots : ∀ page, batch.pageSlot page ∈ (b.batches index).pageSlots)
    (hfree : ∀ page ∈ l, b.pageRecords (batch.pageSlot page) = .empty) :
    Ensures (mapPages batch permissions l) b (fun _ t => t.Inv c P ∧ Later c b t) E := by
  induction l generalizing b with
  | nil => exact ⟨hinv, .refl b⟩
  | cons page rest ih =>
    obtain ⟨hpage, hnodup⟩ := nodup_cons.mp hnodup
    rw [mapPages, ensures_bind]
    refine (ensures_mapCall hP hinv).imp_ok ?_
    rintro result t₁ ⟨w', call, rfl, hdevice, hfacts⟩
    cases result with
    | error fault =>
      -- nothing has changed in the books
      have hbooks : b.Gently c → Gentle c b.world call → Healthy c w' ∧
          failures b.world ≤ failures w' ∧ Tracks w'.core b.pageRecords := by
        intro hb hcall
        obtain ⟨hhealthy, hle, htracks, hmapped⟩ := hfacts hb hcall
        exact ⟨hhealthy, hle, htracks.congr hmapped⟩
      rw [ensures_ite]
      exact ⟨fun _ => Inv.called hdevice rfl rfl hinv.covered hbooks,
        fun _ => Inv.called hdevice rfl rfl hinv.covered hbooks⟩
    | ok outcome =>
      -- the page is in both books
      have hnext : ∀ t : Backend pages batches maxBatchPages (Logged M) R, t.world = w' →
          t.log = (b.world, call) :: b.log → t.batches = b.batches → t.pageRecords =
            update b.pageRecords (batch.pageSlot page) (mappedRecord outcome) →
          t.Inv c P ∧ Later c b t := by
        intro t hworld hlog hbatches hrecords
        have hcovered : Covered t.batches t.pageRecords := by
          rw [hbatches, hrecords]
          exact hinv.covered.setRecord (.inr ⟨index, hphase, hslots page⟩)
        refine Inv.called hdevice hworld hlog hcovered fun hb hcall => ?_
        obtain ⟨hhealthy, hle, htracks, k, r, hk, hcore, hhandle, hagrees⟩ := hfacts hb hcall
        rw [hrecords, hcore]
        exact ⟨hhealthy, hle, htracks.map hpages hk (hfree page (mem_cons_self ..)) hhandle hagrees⟩
      cases outcome with
      | pending receipt cause =>
        refine hnext _ ?_ ?_ ?_ ?_
        all_goals rfl
      | active handle =>
        obtain ⟨hinv₂, hlater₂⟩ := hnext { b with
          world := w'
          log := (b.world, call) :: b.log
          pageRecords := update b.pageRecords (batch.pageSlot page) (.active handle) }
          rfl rfl rfl rfl
        refine (ih hnodup _ hinv₂ hphase hslots fun q hq => ?_).imp_ok ?_
        · show update b.pageRecords (batch.pageSlot page) (.active handle) _ = _
          rw [update_of_ne]
          · exact hfree q (mem_cons_of_mem _ hq)
          · intro heq
            rw [pageSlot_injective batch heq] at hq
            exact hpage hq
        · rintro _ t ⟨hinv', hlater⟩
          exact ⟨hinv', hlater₂.trans hlater⟩

/-! ## Requests -/

/-- The backend after `setBatch`. -/
abbrev putBatch (b : Backend pages batches maxBatchPages (Logged M) R) (index : Fin batches)
    (batch : BatchSlot pages) : Backend pages batches maxBatchPages (Logged M) R :=
  { b with batches := update b.batches index batch }

omit [SlptPageMemory M] [VtdRegisterBackend R] in
theorem putBatch_self (index : Fin batches) (batch : BatchSlot pages) :
    (b.putBatch index batch).batches index = batch := update_self ..

/-- A batch is changed, and keeps its pages if it had any. -/
theorem Inv.putBatch (hinv : b.Inv c P) {index : Fin batches} (hphase : batch.phase ≠ .empty)
    (hslots : (b.batches index).phase ≠ .empty →
      batch.pageSlots = (b.batches index).pageSlots) : (b.putBatch index batch).Inv c P :=
  ⟨hinv.device, hinv.covered.setBatch hphase hslots, hinv.settled⟩

theorem Later.putBatch (index : Fin batches) (batch : BatchSlot pages) :
    Later c b (b.putBatch index batch) := .of_eq rfl rfl

omit [SlptPageMemory M] [VtdRegisterBackend R] in
theorem findFreePageRun_eq_some {count : Nat} {start : { start : Nat // start + count ≤ pages }}
    (h : b.findFreePageRun count = some start) (i : Fin count) (hi : start.val + i.val < pages) :
    b.pageRecords ⟨start.val + i, hi⟩ = .empty := by
  rw [findFreePageRun] at h
  split at h
  · obtain ⟨s, -, hs⟩ := exists_of_findSome?_eq_some h
    split at hs
    · next hfree =>
      cases hs
      exact hfree i
    · cases hs
  · cases h

theorem ensures_mapBatch {index : Fin batches} (hP : Survives P) (hpages : pages ≤ 65535)
    (hinv : b.Inv c P) (hindex : (b.batches index).phase = .empty) (hphase : batch.phase ≠ .empty)
    (hempty : ∀ page, b.pageRecords (batch.pageSlot page) = .empty) :
    Ensures (mapBatch index batch permissions) b (fun _ t => t.Inv c P ∧ Later c b t) E := by
  simp only [mapBatch, setBatch, ensures_rules]
  have hinv₁ : (b.putBatch index batch).Inv c P := hinv.putBatch hphase fun h => absurd hindex h
  have hslots : ∀ page,
      batch.pageSlot page ∈ ((b.putBatch index batch).batches index).pageSlots := by
    intro page
    rw [putBatch_self]
    exact mem_map_of_mem (mem_finRange page)
  refine (ensures_mapPages hP hpages batch index permissions _ (nodup_finRange _) _
    hinv₁ (by rw [putBatch_self]; exact hphase) hslots fun page _ => hempty page).imp_ok ?_
  rintro failed t ⟨hinv', hlater⟩
  have hlater' := (Later.putBatch index batch).trans hlater
  cases failed with
  | none => exact ⟨hinv'.putBatch (by simp) fun _ => rfl, hlater'.trans (.putBatch ..)⟩
  | some status =>
    simp only [ensures_rules, ensures_attempt]
    have hinv₂ : (t.putBatch index { t.batches index with phase := .quarantined }).Inv c P :=
      hinv'.putBatch (by simp) fun _ => rfl
    have hlater₂ := hlater'.trans
      (Later.putBatch index { t.batches index with phase := .quarantined })
    exact (ensures_cleanupBatch hP index hinv₂).mono
      (fun _ _ h => ⟨h.1.inv, hlater₂.trans h.1.later⟩)
      fun _ _ h => ⟨h.1.inv, hlater₂.trans h.1.later⟩

theorem ensures_mapSpan {domain : Handle} {deviceAddress physicalAddress length : UInt64}
    {access : DmaAccess} (hP : Survives P) (hpages : pages ≤ 65535) (hinv : b.Inv c P) :
    Ensures (mapSpan domain deviceAddress physicalAddress length access) b
      (fun _ t => t.Inv c P ∧ Later c b t) (fun _ t => t.Inv c P ∧ Later c b t) := by
  have hself : b.Inv c P ∧ Later c b b := ⟨hinv, .refl b⟩
  simp only [mapSpan, ensures_rules, hself]
  intro _ _ _ _ _ index hindex start hstart
  have hfree : (b.batches index).phase = .empty := by
    have := find?_some hindex
    simpa using (Bool.and_eq_true_iff.mp this).1
  exact ensures_mapBatch hP hpages hinv hfree (by simp)
    fun page => findFreePageRun_eq_some hstart page _

/-- The batch that `unmap` looks for. -/
def Matches (b : Backend pages batches maxBatchPages (Logged M) R) (deviceAddress length : UInt64)
    (i : Fin batches) : Prop :=
  (b.batches i).phase ≠ .empty ∧ (b.batches i).domainGeneration = b.domainGeneration ∧
    (b.batches i).deviceAddress = deviceAddress ∧ (b.batches i).length = length

/-- **`unmap` takes the batch out, or something failed.** -/
theorem ensures_unmapSpan (domain : Handle) (deviceAddress length : UInt64) (hP : Survives P)
    (hinv : b.Inv c P) :
    Ensures (unmapSpan domain deviceAddress length) b
      (fun _ t => ∃ index, Cleaned c P index (b.batches index).pageSlots b t ∧
        b.Matches deviceAddress length index ∧
        (Done c index (b.batches index).pageSlots b t ∨ Stuck c b t))
      (fun _ t => t = b ∧
        (b.validDomain domain = true → ∀ i, ¬b.Matches deviceAddress length i)) := by
  simp only [unmapSpan, ensures_rules, Bool.not_eq_true', Bool.not_eq_false']
  refine ⟨fun h h' => by simp [h] at h', fun _ => ⟨?_, ?_⟩⟩
  · rintro hnone - i ⟨hphase, hgen, haddress, hlength⟩
    simp_all
  · intro index hfind
    have hfound := find?_some hfind
    simp only [Bool.and_eq_true, bne_iff_ne, beq_iff_eq] at hfound
    obtain ⟨⟨⟨hphase, hgen⟩, haddress⟩, hlength⟩ := hfound
    have hmatch : b.Matches deviceAddress length index := ⟨hphase, hgen, haddress, hlength⟩
    simp only [Backend.setBatch, ensures_modify, ensures_attempt]
    have hinv₁ : (b.putBatch index { b.batches index with phase := .quarantined }).Inv c P :=
      hinv.putBatch (by simp) fun _ => rfl
    have hslots : ((b.putBatch index { b.batches index with phase := .quarantined }).batches
        index).pageSlots = (b.batches index).pageSlots := by
      rw [putBatch_self]
      rfl
    have hback : ∀ {t}, Cleaned c P index (b.batches index).pageSlots
        (b.putBatch index { b.batches index with phase := .quarantined }) t →
        Cleaned c P index (b.batches index).pageSlots b t := by
      intro t h
      refine ⟨h.inv, (Later.putBatch ..).trans h.later, fun j hj => ?_, h.records⟩
      rw [h.batches j hj]
      exact update_of_ne hj ..
    have hclean := ensures_cleanupBatch hP index hinv₁
    rw [hslots] at hclean
    refine hclean.mono ?_ ?_
    · rintro (_ | _) t ⟨h, hdone, hstuck⟩
      · exact ⟨index, hback h, hmatch, .inr (hstuck rfl)⟩
      · have hdone := hdone rfl
        exact ⟨index, hback h, hmatch, .inl ⟨hdone.phase, hdone.records, hdone.ledger⟩⟩
    · rintro _ t ⟨h, hstuck⟩
      exact ⟨index, hback h, hmatch, .inr hstuck⟩

theorem Inv.ofEngine {i : EngineInvalidator R} (hinv : b.Inv c P) (hi : P i)
    (hcount : i.failures = b.world.invalidator.failures)
    (hworld : t.world = { b.world with invalidator := i }) (hlog : t.log = b.log)
    (hbatches : t.batches = b.batches) (hrecords : t.pageRecords = b.pageRecords) :
    t.Inv c P ∧ Later c b t := by
  refine ⟨⟨by rw [hworld]; exact hi, by rw [hbatches, hrecords]; exact hinv.covered, fun ht => ?_⟩,
    .of_eq hlog ?_⟩
  · obtain ⟨hhealthy, htracks⟩ := hinv.settled fun e he => ht e (hlog ▸ he)
    rw [hworld, hrecords]
    exact ⟨⟨hhealthy.sound, hhealthy.clean, hhealthy.operational⟩, htracks⟩
  · rw [hworld, failures, failures, hcount]

/-- **`release_domain` takes all batches out, or something failed.** -/
theorem ensures_releaseDomain (domain : Handle) (hP : Survives P) (hinv : b.Inv c P) :
    Ensures (releaseDomain domain) b
      (fun _ t => t.Inv c P ∧ Later c b t ∧ ∀ i, (t.batches i).phase = .empty)
      (fun _ t => t.Inv c P ∧ Later c b t ∧ (b.validDomain domain = true → Stuck c b t)) := by
  simp only [releaseDomain, ensures_rules, Bool.not_eq_true', Bool.not_eq_false']
  refine ⟨fun h => ⟨hinv, .refl b, fun h' => by simp [h] at h'⟩, fun _ => ?_⟩
  refine (ensures_cleanupBatches hP (finRange batches) b hinv).imp_ok ?_
  rintro failed t ⟨hinv', hlater, hstuck, hempty⟩
  refine ⟨fun hleft => ⟨hinv', hlater, fun _ => ?_⟩, fun hnone => ?_⟩
  · cases failed with
    | true => exact hstuck rfl
    | false =>
      simp only [Bool.false_or, any_eq_true, bne_iff_ne] at hleft
      obtain ⟨i, hi, hphase⟩ := hleft
      exact absurd (hempty rfl i (.inl hi)) hphase
  · obtain ⟨rfl, hall⟩ := Bool.or_eq_false_iff.mp hnone
    have hall : ∀ i, (t.batches i).phase = .empty := fun i => hempty rfl i (.inl (mem_finRange i))
    simp only [disableEngine, ensures_rules]
    have hdisable := hP.disable t.world.invalidator hinv'.device
    rw [Ensures] at hdisable
    rw [engine]
    cases hx : Engine.disable t.world.invalidator.pollLimit t.world.invalidator.engine with
    | ok _ engine | error fault engine =>
      rw [hx] at hdisable
      exact And.imp_right (fun hlater₂ => ⟨hlater.trans hlater₂, hall⟩)
        (hinv'.ofEngine hdisable rfl rfl rfl rfl rfl)

omit [SlptPageMemory M] [VtdRegisterBackend R] in
/-- What is ensured of a call holds of its answer. -/
theorem ensures_answer {α : Type} (ok : α → Answer)
    {x : EStateM Status (Backend pages batches maxBatchPages (Logged M) R) α}
    {Q : α → Backend pages batches maxBatchPages (Logged M) R → Prop}
    {E : Status → Backend pages batches maxBatchPages (Logged M) R → Prop} (h : Ensures x b Q E) :
    (∃ a, Q a (answer ok x b).2) ∨ ∃ e, E e (answer ok x b).2 := by
  rw [answer]
  cases hx : x b with
  | ok a t => exact .inl ⟨a, h.of_ok hx⟩
  | error e t => exact .inr ⟨e, h.of_error hx⟩

/-- **Every request keeps the books in agreement.** -/
theorem Inv.perform (hP : Survives P) (hpages : pages ≤ 65535) (hinv : b.Inv c P)
    (request : Request) : (b.perform request).2.Inv c P ∧ Later c b (b.perform request).2 := by
  have hanswer : ∀ {α : Type} {ok : α → Answer}
      {x : EStateM Status (Backend pages batches maxBatchPages (Logged M) R) α},
      Ensures x b (fun _ t => t.Inv c P ∧ Later c b t) (fun _ t => t.Inv c P ∧ Later c b t) →
      (answer ok x b).2.Inv c P ∧ Later c b (answer ok x b).2 := by
    intro α ok x h
    rcases ensures_answer ok h with ⟨_, h⟩ | ⟨_, h⟩ <;> exact h
  cases request with
  | isolateDevice device =>
    refine hanswer ?_
    have hself : b.Inv c P ∧ Later c b b := ⟨hinv, .refl b⟩
    simp only [isolateDevice, ensures_rules, hself]
    exact fun _ _ _ _ => ⟨⟨hinv.device, hinv.covered, hinv.settled⟩, .of_eq rfl rfl⟩
  | map domain deviceAddress physicalAddress length access =>
    exact hanswer (ensures_mapSpan hP hpages hinv)
  | unmap domain deviceAddress length =>
    refine hanswer ((ensures_unmapSpan _ _ _ hP hinv).mono ?_ ?_)
    · rintro status t ⟨index, hclean, -⟩
      exact ⟨hclean.inv, hclean.later⟩
    · rintro status t ⟨rfl, -⟩
      exact ⟨hinv, .refl _⟩
  | releaseDomain domain =>
    exact hanswer ((ensures_releaseDomain _ hP hinv).mono (fun _ _ h => ⟨h.1, h.2.1⟩)
      fun _ _ h => ⟨h.1, h.2.1⟩)

/-- **The books agree after every run.** -/
theorem Inv.run (hP : Survives P) (hpages : pages ≤ 65535) (hinv : b.Inv c P)
    (requests : List Request) : (b.run requests).Inv c P :=
  Run.invariant_final (fun _ request h => (h.perform hP hpages request).1) hinv

end Backend

end Sisyphus.Vtd
