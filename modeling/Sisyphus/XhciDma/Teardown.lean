import Sisyphus.XhciDma.Accounting

/-!
# Teardown and retries

The loop of `releaseRecords` runs down the records.  What has been given back already is passed
over, the last region that is still owed is given back or the loop stops, and so the owed part gets
shorter from the back with every answer of the pool (`Books.ensures_releaseRecord`).  From there on
it is the same for a rollback, a release and every retry, and for a whole life of an arena.
-/

set_option autoImplicit false

namespace Sisyphus.XhciDma

open Abyss BitmapFrameAllocator Bytes Fallible List Run Words XhciDmaRegionRecord

variable {usable : Nat → Prop} {held : List Nat} {free : Nat} {m : Machine}
  {owed returned : List XhciDmaRegionRecord}

/-! ## One region -/

/-- No call to come is refused. -/
def Willing (pool : PhysicalFramePool) : Prop := ∀ fault ∈ pool.refusals, fault = none

/-- What a release does not touch: the window, the purposes and the sizes. -/
structure Kept (m m' : Machine) : Prop where
  identity : m'.arena.identity = m.arena.identity
  regions : m'.arena.records.map (fun record => (record.purpose, record.pageCount)) =
    m.arena.records.map fun record => (record.purpose, record.pageCount)
  willing : Willing m.pool → Willing m'.pool

theorem Kept.refl (m : Machine) : Kept m m := ⟨rfl, rfl, id⟩

theorem Kept.trans {m₁ m₂ m₃ : Machine} (h : Kept m₁ m₂) (h' : Kept m₂ m₃) : Kept m₁ m₃ :=
  ⟨h'.identity.trans h.identity, h'.regions.trans h.regions, h'.willing ∘ h.willing⟩

variable {record : XhciDmaRegionRecord}

theorem Owned.phase {a : BitmapFrameAllocator} (h : Owned a record) (phase : XhciDmaRegionPhase) :
    Owned a { record with phase } :=
  ⟨h.aligned, h.nonempty, h.unreserved⟩

/-- The pool's answer for a region that is owed. -/
theorem Books.releaseContiguous (h : Books usable held free m (owed ++ [record]) returned) :
    let answer := m.pool.releaseContiguous record.physicalStart record.pageCount
    (∀ f, answer.2.allocator.isReserved f = m.pool.allocator.isReserved f) ∧
    (Willing m.pool → Willing answer.2 ∧ answer.1 = .ok ()) ∧
    ((∃ fault, answer.1 = .error fault ∧ answer.2.allocator = m.pool.allocator ∧
        answer.2.releases = m.pool.releases) ∨
      (answer.1 = .ok () ∧ Inv usable answer.2.allocator (owed.flatMap run ++ held) ∧
        answer.2.allocator.freeFrames = m.pool.allocator.freeFrames + record.pageCount.toNat ∧
        answer.2.releases = m.pool.releases ++ [record.span])) := by
  have howned := h.owned record (mem_append_right _ mem_cons_self)
  have hinv : Inv usable m.pool.allocator (record.run ++ (owed.flatMap run ++ held)) :=
    inv_of_perm h.inv (perm_runs owed held).symm
  obtain ⟨hres, hanswer⟩ := pool_releaseContiguous hinv
  refine ⟨hres, fun hwilling => ?_, hanswer⟩
  have hcount : record.pageCount ≠ 0 := by
    rintro hz
    have := howned.nonempty
    rw [hz] at this
    exact absurd this (Nat.lt_irrefl 0)
  have hok := deallocateContiguous_ok hcount howned.aligned hinv.bound fun f hf =>
    ⟨(hinv.out f (mem_append_left _ hf)).1, (hinv.out f (mem_append_left _ hf)).2,
      howned.unreserved f hf⟩
  exact (pool_releaseContiguous_ok hwilling hok).symm

/-- **The last region that is owed** is given back, or stays owed. -/
theorem Books.ensures_releaseRecord (h : Books usable held free m (owed ++ [record]) returned) :
    Ensures (releaseRecord owed.length) m
      (fun _ m' => Books usable held free m' owed ({ record with phase := .released } :: returned) ∧
        Kept m m')
      (fun _ m' => Books usable held free m' (owed ++ [{ record with phase := .releaseDebt }])
        returned ∧ Kept m m' ∧ ¬ Willing m.pool) := by
  have hrecords : m.arena.records = owed ++ record :: returned := by
    rw [h.records, append_assoc, singleton_append]
  have hget : m.arena.records[owed.length]? = some record := by
    rw [hrecords, getElem?_append_right le_rfl, Nat.sub_self, getElem?_cons_zero]
  have hunsettled := h.unsettled record (mem_append_right _ mem_cons_self)
  obtain ⟨hres, hwilling, hanswer⟩ := h.releaseContiguous
  have hset : ∀ phase, ((m.arena.records.set owed.length { record with phase := .releasing }).set
      owed.length { record with phase }) = owed ++ { record with phase } :: returned := by
    intro phase
    rw [set_set, hrecords]
    simp
  have hregions : ∀ phase, (owed ++ { record with phase } :: returned).map
      (fun record => (record.purpose, record.pageCount)) =
        m.arena.records.map fun record => (record.purpose, record.pageCount) := by
    intro phase
    rw [hrecords, map_append, map_append]
    rfl
  simp only [releaseRecord, ensures_rules, hget]
  refine ⟨fun hnone => (by cases hnone), fun _ hsome => ?_⟩
  cases hsome
  simp only [hunsettled, if_false, ensures_rules]
  rcases hanswer with ⟨fault, herror, hallocator, hreleases⟩ | ⟨hok, hinv, hfree, hreleases⟩
  · -- the pool has kept its frames, and the region is a debt
    rw [herror]
    refine ⟨⟨?_, ?_, h.settled, ?_, ?_, ?_, h.released, ?_⟩, ⟨rfl, ?_, ?_⟩, fun hw => ?_⟩
    · refine (hset _).trans ?_
      rw [append_assoc, singleton_append]
    · exact forall_mem_concat.mpr ⟨(forall_mem_concat.mp h.unsettled).1, rfl⟩
    · obtain ⟨howed, hlast⟩ := forall_mem_concat.mp h.owned
      exact fun r hr => .of_reserved (forall_mem_concat.mpr ⟨howed, hlast.phase _⟩ r hr) hres
    · change Inv usable (m.pool.releaseContiguous _ _).2.allocator _
      have hinv := h.inv
      rw [flatMap_append, flatMap_singleton] at hinv ⊢
      rw [hallocator]
      exact hinv
    · have hfree := h.free
      rw [pages_concat] at hfree ⊢
      change (m.pool.releaseContiguous _ _).2.allocator.freeFrames + _ = free
      rw [hallocator]
      exact hfree
    · exact hreleases.trans h.releases
    · exact (congrArg _ (hset _)).trans (hregions _)
    · exact fun hw => (hwilling hw).1
    · rw [(hwilling hw).2] at herror
      cases herror
  · -- the frames are back, and the region is the first of those returned
    rw [hok]
    refine ⟨⟨hset _, ?_, ?_, ?_, hinv, ?_, ?_, ?_⟩, ⟨rfl, ?_, fun hw => (hwilling hw).1⟩⟩
    · exact (forall_mem_concat.mp h.unsettled).1
    · exact forall_mem_cons.mpr ⟨rfl, h.settled⟩
    · exact fun r hr => (h.owned r (mem_append_left _ hr)).of_reserved hres
    · have hold := h.free
      rw [pages_concat] at hold
      change (m.pool.releaseContiguous _ _).2.allocator.freeFrames + _ = free
      omega
    · change m.arena.releasedPages + record.pageCount.toNat = _
      rw [h.released, Nat.add_comm]
      rfl
    · refine hreleases.trans ?_
      rw [h.releases, reverse_cons, map_append]
      rfl
    · exact (congrArg _ (hset _)).trans (hregions _)

section

variable (h : Books usable held free m owed returned)
include h

/-- What has been given back is passed over. -/
theorem Books.ensures_releaseRecord_settled
    {index : Nat} (hlow : owed.length ≤ index) (hhigh : index < m.arena.records.length) :
    Ensures (releaseRecord index) m (fun _ m' => m' = m) fun _ _ => False := by
  obtain ⟨record, hrecord⟩ : ∃ record, m.arena.records[index]? = some record :=
    ⟨_, getElem?_eq_getElem hhigh⟩
  have hmem : record ∈ returned := by
    rw [h.records, getElem?_append_right hlow] at hrecord
    exact mem_of_getElem? hrecord
  have hsettled : record.settled = true := by
    rw [XhciDmaRegionRecord.settled, h.settled record hmem]
    rfl
  simp only [releaseRecord, ensures_rules, hrecord]
  refine ⟨fun hnone => (by cases hnone), fun _ hsome => ?_⟩
  cases hsome
  simp only [hsettled, if_true, ensures_pure]

/-! ## The loop -/

/-- **The loop of `releaseRecords`**, from the record before `n` down: everything is given back, or
something stays owed. -/
theorem Books.ensures_releaseDown {n : Nat}
    (howed : owed.length ≤ n) (hn : n ≤ m.arena.records.length) :
    Ensures (forM (range n).reverse releaseRecord) m
      (fun _ m' => Books usable held free m' [] m'.arena.records ∧ Kept m m')
      (fun _ m' => ∃ owed' returned', owed' ≠ [] ∧ Books usable held free m' owed' returned' ∧
        Kept m m' ∧ ¬ Willing m.pool) := by
  induction n generalizing m owed returned with
  | zero =>
    obtain rfl := length_eq_zero_iff.mp (Nat.le_zero.mp howed)
    refine ⟨?_, .refl m⟩
    rw [h.records]
    exact h
  | succ n ih =>
    rw [range_succ, reverse_append, reverse_singleton, singleton_append, forM_cons, ensures_bind]
    rcases Nat.lt_or_ge owed.length (n + 1) with hlt | hge
    · refine (h.ensures_releaseRecord_settled (by omega) (by omega)).mono ?_ fun _ _ h => h.elim
      rintro _ _ rfl
      exact ih h (by omega) (by omega)
    · obtain ⟨front, record, rfl⟩ := eq_nil_or_concat' owed |>.resolve_left (by
        rintro rfl
        simp at hge)
      have hlength : front.length = n := by
        simp only [length_append, length_singleton] at howed hge
        omega
      subst hlength
      refine h.ensures_releaseRecord.mono ?_ ?_
      · rintro _ m₁ ⟨h₁, hkept₁⟩
        have hsame : m₁.arena.records.length = m.arena.records.length := by
          have := congrArg length hkept₁.regions
          simpa using this
        refine (ih h₁ le_rfl (by omega)).mono ?_ ?_
        · rintro _ m₂ ⟨h₂, hkept₂⟩
          exact ⟨h₂, hkept₁.trans hkept₂⟩
        · rintro _ m₂ ⟨owed', returned', hne, h₂, hkept₂, hw⟩
          exact ⟨owed', returned', hne, h₂, hkept₁.trans hkept₂, fun hwm => hw (hkept₁.willing hwm)⟩
      · rintro _ m₁ ⟨h₁, hkept₁, hw⟩
        exact ⟨_, _, by simp, h₁, hkept₁, hw⟩

/-- **A release, as far as it gets.** -/
theorem Books.ensures_releaseRecords (hne : owed ≠ []) : Ensures releaseRecords m
      (fun receipt m' => Books usable held free m' [] m'.arena.records ∧ Kept m m' ∧
        receipt = m'.arena.receipt)
      (fun _ m' => ∃ owed' returned', owed' ≠ [] ∧ Books usable held free m' owed' returned' ∧
        Kept m m' ∧ ¬ Willing m.pool) := by
  obtain ⟨record, hrecord⟩ := exists_mem_of_ne_nil owed hne
  have hopen : ¬ (m.arena.records.all (·.settled)) = true := by
    intro hall
    have hsettled := all_eq_true.mp hall record (h.records ▸ mem_append_left _ hrecord)
    rw [h.unsettled record hrecord] at hsettled
    cases hsettled
  simp only [releaseRecords, ensures_rules]
  refine ⟨fun hall => absurd hall hopen, fun _ => ?_⟩
  have hle : owed.length ≤ m.arena.records.length := by
    rw [h.records, length_append]
    omega
  refine (h.ensures_releaseDown hle le_rfl).imp_ok ?_
  rintro _ m' ⟨h', hkept⟩
  exact ⟨h', hkept, trivial⟩

end

/-! ## Whole lives -/

/-- The books of an arena, with what its owner may conclude. -/
structure Accounted (usable : Nat → Prop) (held : List Nat) (free : Nat) (fresh : XhciDmaArena)
    (life : Life) : Prop where
  books : ∃ owed returned, Books usable held free life.machine owed returned ∧
    (owed = [] ↔ ∃ receipt, life.stage = .closed receipt)
  receipt : ∀ receipt, life.stage = .closed (some receipt) → receipt = life.machine.arena.receipt
  identity : life.machine.arena.identity = fresh.identity
  ready : life.stage = .ready →
    Built usable held free life.machine (regionPlan fresh.scratchpadCount) ∧
    life.machine.arena.effectiveDeviceLimit = fresh.effectiveDeviceLimit ∧
    ∀ record ∈ life.machine.arena.records, record.phase = .ready

variable {fresh : XhciDmaArena} {life : Life}

theorem ensures_buildRegions (h : Built usable held free m []) : Ensures buildRegions m
      (fun _ m' => Built usable held free m' (regionPlan m.arena.scratchpadCount) ∧ SameShape m m' ∧
        ∀ record ∈ m'.arena.records, record.phase = .ready)
      (fun _ m' => Books usable held free m' m'.arena.records [] ∧ SameShape m m') := by
  simp only [buildRegions, ensures_rules]
  exact ⟨fun _ => ⟨h.books, .refl m⟩, fun _ => ⟨fun _ => ⟨h.books, .refl m⟩, fun _ =>
    ensures_allocateAllRegions h⟩⟩

/-- **A rollback.** -/
theorem accounted_rollbackBuild (h : Books usable held free m m.arena.records [])
    (hidentity : m.arena.identity = fresh.identity) :
    Accounted usable held free fresh (rollbackBuild m) := by
  rw [rollbackBuild]
  by_cases hempty : m.arena.records = []
  · rw [if_pos hempty]
    rw [hempty] at h
    exact ⟨⟨[], [], h, ⟨fun _ => ⟨none, rfl⟩, fun _ => rfl⟩⟩, fun _ hstage => (by cases hstage),
      hidentity, fun hstage => (by cases hstage)⟩
  · rw [if_neg hempty]
    rcases (h.ensures_releaseRecords hempty).cases with
      ⟨receipt, m', hcall, h', hkept, -⟩ | ⟨fault, m', hcall, owed, returned, hne, h', hkept, -⟩
    · rw [hcall]
      exact ⟨⟨[], _, h', ⟨fun _ => ⟨none, rfl⟩, fun _ => rfl⟩⟩, fun _ hstage => (by cases hstage),
        hkept.identity.trans hidentity, fun hstage => by cases hstage⟩
    · rw [hcall]
      exact ⟨⟨owed, returned, h', ⟨fun hnil => absurd hnil hne, fun ⟨_, hstage⟩ =>
        (by cases hstage)⟩⟩, fun _ hstage => (by cases hstage), hkept.identity.trans hidentity,
        fun hstage => by cases hstage⟩

/-- **A build**, whatever comes of it. -/
theorem accounted_allocate (pool : PhysicalFramePool) (h : Inv usable pool.allocator held)
    (hreleases : pool.releases = []) (memory : Page) (identity : IdentityDmaWindow)
    (scratchpadCount : UInt16) (wide : Bool) (secret : UInt64) :
    Accounted usable held pool.allocator.freeFrames
      (freshArena identity scratchpadCount wide secret)
      (allocate pool memory identity scratchpadCount wide secret) := by
  have hfresh : Built usable held pool.allocator.freeFrames
      ⟨pool, memory, freshArena identity scratchpadCount wide secret⟩ [] := by
    refine ⟨⟨rfl, ?_, ?_, ?_, h, rfl, rfl, hreleases⟩, ?_, rfl⟩
    all_goals exact forall_mem_nil _
  rw [allocate]
  rcases (ensures_buildRegions hfresh).cases with
    ⟨_, m', hcall, hbuilt, hsame, hready⟩ | ⟨_, m', hcall, hbooks, hsame⟩
  · rw [hcall, finishBuild]
    have hbooks : Books usable held pool.allocator.freeFrames
        { m' with arena := m'.arena.finishArenaRoot } m'.arena.records [] :=
      hbuilt.books.of_same rfl rfl rfl rfl
    refine ⟨⟨m'.arena.records, [], hbooks, ⟨fun hnil => ?_, fun ⟨_, hstage⟩ => (by cases hstage)⟩⟩,
      fun _ hstage => (by cases hstage), hsame.identity, fun _ => ⟨⟨hbooks, hbuilt.placed,
        hbuilt.plan⟩, hsame.limit, hready⟩⟩
    have hplan := hbuilt.plan
    rw [hnil, regionPlan] at hplan
    cases hplan
  · rw [hcall, finishBuild]
    exact accounted_rollbackBuild hbooks hsame.identity

theorem ensures_release (hbooks : Books usable held free m owed returned) (hne : owed ≠ [])
    (quiescence : XhciDmaQuiescence) :
    Ensures (XhciDma.release quiescence) m
      (fun receipt m' => Books usable held free m' [] m'.arena.records ∧ Kept m m' ∧
        receipt = m'.arena.receipt)
      (fun _ m' => ∃ owed' returned', owed' ≠ [] ∧ Books usable held free m' owed' returned' ∧
        Kept m m' ∧ (quiescence.device = m.arena.identity.device →
          quiescence.generation = m.arena.identity.generation → quiescence.evidenceRoot ≠ 0 →
          ¬ Willing m.pool)) := by
  simp only [XhciDma.release, ensures_rules]
  refine ⟨fun hmismatch => ?_, fun _ => ?_⟩
  · refine ⟨owed, returned, hne, hbooks, .refl m, fun hdevice hgeneration hroot => ?_⟩
    simp [hdevice, hgeneration, hroot] at hmismatch
  · refine (hbooks.ensures_releaseRecords hne).imp_error ?_
    rintro _ m' ⟨owed', returned', hne', h', hkept, hw⟩
    exact ⟨owed', returned', hne', h', hkept, fun _ _ _ => hw⟩

/-- The life of an arena that is not closed goes on with what the release answers. -/
theorem Life.release_of_open (h : ∀ receipt, life.stage ≠ .closed receipt)
    (quiescence : XhciDmaQuiescence) :
    life.release quiescence = answered (XhciDma.release quiescence life.machine) := by
  rw [Life.release]
  rcases hstage : life.stage with _ | fault | receipt
  · rfl
  · rfl
  · exact absurd hstage (h receipt)

/-- **A release or a retry**, which succeeds when the pool is willing and the controller is known to
be quiet. -/
theorem Accounted.release (h : Accounted usable held free fresh life)
    (quiescence : XhciDmaQuiescence) :
    Accounted usable held free fresh (life.release quiescence) ∧
      ((∀ receipt, life.stage ≠ .closed receipt) → Willing life.machine.pool →
        quiescence.device = fresh.identity.device →
        quiescence.generation = fresh.identity.generation → quiescence.evidenceRoot ≠ 0 →
        ∃ receipt, (life.release quiescence).stage = .closed (some receipt)) := by
  obtain ⟨owed, returned, hbooks, hclosed⟩ := h.books
  by_cases hopen : ∀ receipt, life.stage ≠ .closed receipt
  · have hne : owed ≠ [] := fun hnil => (hclosed.mp hnil).elim hopen
    rw [Life.release_of_open hopen]
    rcases (ensures_release hbooks hne quiescence).cases with ⟨receipt, m', hcall, h', hkept,
      hreceipt⟩ | ⟨fault, m', hcall, owed', returned', hne', h', hkept, hfail⟩
    · rw [hcall, answered]
      refine ⟨⟨⟨[], _, h', ⟨fun _ => ⟨_, rfl⟩, fun _ => rfl⟩⟩, fun _ hstage => ?_,
        hkept.identity.trans h.identity, fun hstage => (by cases hstage)⟩, fun _ _ _ _ _ =>
          ⟨receipt, rfl⟩⟩
      cases hstage
      exact hreceipt
    · rw [hcall, answered]
      refine ⟨⟨⟨owed', returned', h', ⟨fun hnil => absurd hnil hne', fun ⟨_, hstage⟩ =>
        (by cases hstage)⟩⟩, fun _ hstage => (by cases hstage), hkept.identity.trans h.identity,
        fun hstage => (by cases hstage)⟩, fun _ hwilling hdevice hgeneration hroot => ?_⟩
      rw [← h.identity] at hdevice hgeneration
      exact absurd hwilling (hfail hdevice hgeneration hroot)
  · refine ⟨?_, fun ho => absurd ho hopen⟩
    have hsame : life.release quiescence = life := by
      obtain ⟨receipt, hstage⟩ := not_forall.mp hopen
      rw [Life.release, not_not.mp hstage]
    rwa [hsame]

theorem Accounted.foldl_release (h : Accounted usable held free fresh life)
    (quiescences : List XhciDmaQuiescence) :
    Accounted usable held free fresh (quiescences.foldl Life.release life) := by
  induction quiescences generalizing life with
  | nil => exact h
  | cons quiescence rest ih => exact ih (h.release quiescence).1

/-- The bytes of two regions do not overlap. -/
def Apart (left right : XhciDmaRegionRecord) : Prop :=
  left.physicalEnd ≤ right.physicalStart ∨ right.physicalEnd ≤ left.physicalStart

theorem Built.pairwise_apart {plan : List (XhciDmaPurpose × UInt64)}
    (h : Built usable held free m plan) : m.arena.records.Pairwise Apart := by
  refine h.books.pairwise.imp_of_mem fun {left right} hleft hright hbytes => ?_
  rw [Apart, UInt64.le_iff_toNat_le, UInt64.le_iff_toNat_le, (h.placed left hleft).stop,
    (h.placed right hright).stop]
  exact hbytes

/-- **The arena's accounts.**  Take a frame pool in any state it can get into, any failures of its
calls, a build, and any number of requests to release.

* At every moment the regions split into those still owed and those given back.  The frames that
  are out are those of the owed regions and those that were out before, the free count lacks the
  pages owed, and the pool has taken each region given back once, from the last to the first.
* Once the arena is closed, every region has been given back once, the free count is what it was,
  and a receipt reports the pages of all regions.
* A ready arena has the planned regions: page-aligned, apart from each other, inside the identity
  window and below the limit of the device.
* When no call is refused, the release of an arena that is still open succeeds. -/
theorem arena_regions_are_released_once {map : MemoryMap} {limit : UInt64} {storage : Nat}
    {a₀ : BitmapFrameAllocator} (hnew : new map limit storage = .ok a₀) (requests : List Request)
    (refusals : List (Option FrameAllocatorError)) (memory : Page) (identity : IdentityDmaWindow)
    (scratchpadCount : UInt16) (wide : Bool) (secret : UInt64)
    (quiescences : List XhciDmaQuiescence) (life : Life)
    (hlife : life = quiescences.foldl Life.release
      (allocate ⟨final perform a₀ requests, refusals, []⟩ memory
        identity scratchpadCount wide secret)) :
    (∃ owed returned, life.machine.arena.records = owed ++ returned ∧
      (∀ record ∈ owed, record.settled = false) ∧ (∀ record ∈ returned, record.phase = .released) ∧
      Inv (Opened map limit) life.machine.pool.allocator
        (owed.flatMap XhciDmaRegionRecord.run ++ outstanding (trace perform a₀ requests)) ∧
      life.machine.pool.allocator.freeFrames + pages owed = (final perform a₀ requests).freeFrames ∧
      life.machine.pool.releases = returned.reverse.map XhciDmaRegionRecord.span) ∧
    (∀ receipt, life.stage = .closed receipt →
      life.machine.pool.releases = life.machine.arena.records.reverse.map XhciDmaRegionRecord.span ∧
      life.machine.pool.allocator.freeFrames = (final perform a₀ requests).freeFrames ∧
      ∀ r, receipt = some r → r.releasedPages = pages life.machine.arena.records) ∧
    (life.stage = .ready →
      life.machine.arena.records.map (fun record => (record.purpose, record.pageCount)) =
        regionPlan scratchpadCount ∧
      life.machine.arena.records.Pairwise Apart ∧
      ∀ record ∈ life.machine.arena.records, record.phase = .ready ∧
        record.physicalStart.toNat % 4096 = 0 ∧
        Placed identity
          (freshArena identity scratchpadCount wide secret).effectiveDeviceLimit record) ∧
    (∀ quiescence : XhciDmaQuiescence, (∀ receipt, life.stage ≠ .closed receipt) →
      Willing life.machine.pool → quiescence.device = identity.device →
      quiescence.generation = identity.generation → quiescence.evidenceRoot ≠ 0 →
      ∃ receipt, (life.release quiescence).stage = .closed (some receipt)) := by
  have hinv := ((Inv.new hnew).run requests).1
  have hstart := accounted_allocate ⟨final perform a₀ requests, refusals, []⟩ hinv rfl
    memory identity scratchpadCount wide secret
  have h := hstart.foldl_release quiescences
  rw [← hlife] at h
  obtain ⟨owed, returned, hbooks, hclosed⟩ := h.books
  refine ⟨⟨owed, returned, hbooks.records, hbooks.unsettled, hbooks.settled, hbooks.inv,
    hbooks.free,
    hbooks.releases⟩, fun receipt hstage => ?_, fun hstage => ?_, fun quiescence hopen =>
      (h.release quiescence).2 hopen⟩
  · obtain rfl := hclosed.mpr ⟨receipt, hstage⟩
    have hrecords : life.machine.arena.records = returned := hbooks.records
    refine ⟨by rw [hrecords, hbooks.releases], ?_, fun r hr => ?_⟩
    · exact hbooks.free
    · rw [hr] at hstage
      rw [h.receipt r hstage, hrecords]
      exact hbooks.released
  · obtain ⟨hbuilt, hlimit, hready⟩ := h.ready hstage
    refine ⟨hbuilt.plan, hbuilt.pairwise_apart, fun record hrecord =>
      ⟨hready record hrecord, (hbuilt.books.owned record hrecord).aligned, ?_⟩⟩
    have hplaced := hbuilt.placed record hrecord
    rwa [hlimit, h.identity] at hplaced

/-- Five usable frames. -/
def sampleMap : MemoryMap := ⟨[⟨0, 20480, .usable⟩], by decide, by decide⟩

def sampleAllocator : BitmapFrameAllocator := ⟨[0xffffffffffffffe0], [0xffffffffffffffe0], 5, 0, 5⟩

theorem new_sampleMap : new sampleMap 20480 2 = .ok sampleAllocator := by decide +kernel

def sampleWindow : IdentityDmaWindow :=
  ⟨⟨0, 1, 0⟩, 0, 20480, 0x100000, 0x100000, 0x105000, 0xffffffff, 1, 1⟩

/-- The third release is refused, and the arena is asked again. -/
def sampleLife : Life :=
  [⟨⟨0, 1, 0⟩, 1, 1⟩, ⟨⟨0, 1, 0⟩, 1, 1⟩].foldl Life.release
    (allocate ⟨final perform sampleAllocator [], List.replicate 6 none ++ [some .doubleFree],
      []⟩ (fun _ => 0) sampleWindow 0 true 1)

/-- The pages that a closed arena reports. -/
def Stage.reported : Stage → Option Nat
  | .closed (some receipt) => some receipt.releasedPages
  | _ => none

theorem sampleLife_closed : ∃ receipt, sampleLife.stage = .closed (some receipt) ∧
    receipt.releasedPages = pages sampleLife.machine.arena.records ∧
    sampleLife.machine.pool.allocator.freeFrames = 5 := by
  have hreported : sampleLife.stage.reported = some 4 := by decide +kernel
  rcases hstage : sampleLife.stage with _ | _ | _ | receipt <;> rw [hstage] at hreported
  · cases hreported
  · cases hreported
  · cases hreported
  · have h := (arena_regions_are_released_once new_sampleMap [] _ _ sampleWindow 0 true 1 _
      sampleLife rfl).2.1 _ hstage
    exact ⟨receipt, rfl, h.2.2 receipt rfl, h.2.1⟩

end Sisyphus.XhciDma
