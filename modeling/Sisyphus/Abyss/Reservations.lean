import Sisyphus.Abyss.Handout

/-!
# What the frame allocator guarantees

Three promises, for every firmware map and every list of requests: a frame is with one holder at a
time, what has been reserved does not go out, and what goes out is usable memory.

The first part shows that `new` leaves the books of an allocator that nobody holds a frame of.  The
second runs an allocator dry: as many frames go out as are reported free, and every free frame is
among them.  That makes the exact conditions provable, for a frame that is not reserved can always
be brought to go out.
-/

set_option autoImplicit false

namespace Sisyphus.Abyss

open Bitmap BitmapFrameAllocator List Run Words

variable {usable : Nat → Prop} {a b : BitmapFrameAllocator} {held : List Nat} {f : Nat}

/-! ## The map is opened up -/

/-- A usable region has the whole frame, below the limit. -/
def Opened (map : MemoryMap) (limit : UInt64) (f : Nat) : Prop :=
  ∃ region ∈ map.regions, region.kind = .usable ∧ region.start.toNat ≤ f * 4096 ∧
    (f + 1) * 4096 ≤ region.stop.toNat ∧ (f + 1) * 4096 ≤ limit.toNat

theorem Inv.full {n : Nat} (hn : n < 2 ^ 52) : Inv usable (full n) [] := by
  have hbit : ∀ f < n, bitIsSet (replicate (wordsFor n) 0xffffffffffffffff) f = true :=
    fun f hf => bitIsSet_replicate (div_lt_wordsFor hf)
  have hnone : clear (replicate (wordsFor n) 0xffffffffffffffff) n = ∅ := by
    refine Finset.eq_empty_of_forall_notMem fun f hf => ?_
    obtain ⟨hlt, hclear⟩ := mem_clear.mp hf
    rw [hbit f hlt] at hclear
    cases hclear
  refine ⟨length_replicate, length_replicate, hn, ?_, nodup_nil, by simp,
    fun f hf _ hres => ?_, fun f hf _ => hbit f hf, fun f hf hfree => ?_⟩
  · exact (congrArg Finset.card hnone).symm
  · cases (hbit f hf).symm.trans hres
  · rcases hfree with hfree | hfree
    · cases (hbit f hf).symm.trans hfree
    · cases hfree

theorem Inv.openFrame (h : Inv usable a []) (hf : f < a.frameCount) (hu : usable f) :
    Inv usable (a.openFrame f) [] := by
  refine h.setFrame hf ?_ ⟨fun hc => absurd hc not_mem_nil, fun hc => absurd hc (by decide),
    id, fun _ => hu⟩
  rw [clear_setBit_false (h.allocated_lt hf) hf, Finset.card_insert_eq_ite, ← h.count]
  simp only [mem_clear_allocated hf, ite_not]
  rfl

theorem Inv.foldl_openFrame {l : List Nat} (h : Inv usable a [])
    (hl : ∀ f ∈ l, f < a.frameCount ∧ usable f) :
    Inv usable (l.foldl BitmapFrameAllocator.openFrame a) [] ∧
      (l.foldl BitmapFrameAllocator.openFrame a).frameCount = a.frameCount := by
  induction l generalizing a with
  | nil => exact ⟨h, rfl⟩
  | cons f rest ih =>
    obtain ⟨hf, hu⟩ := hl f (mem_cons_self ..)
    exact ih (h.openFrame hf hu) fun g hg => hl g (mem_cons_of_mem _ hg)

/-- A region opens up frames that are wholly in it. -/
theorem Inv.addRegion {map : MemoryMap} {limit : UInt64} {region : MemoryRegion}
    (h : Inv (Opened map limit) a []) (hregion : region ∈ map.regions) :
    Inv (Opened map limit) (a.addRegion limit region) [] ∧
      (a.addRegion limit region).frameCount = a.frameCount := by
  rw [BitmapFrameAllocator.addRegion]
  split
  · exact ⟨h, rfl⟩
  next hkind =>
  split
  · exact ⟨h, rfl⟩
  · next start hstart =>
    obtain ⟨-, hstart⟩ := alignUp_eq_some toNat_pageSize hstart
    rw [markUsable]
    split
    · exact ⟨h, rfl⟩
    · refine h.foldl_openFrame fun f hf => ?_
      obtain ⟨hfirst, hlast⟩ := mem_frames.mp hf
      have hlt := hlast.trans_le (min_le_right ..)
      have hmin := UInt64.toNat_min region.stop limit
      rw [toNat_div_pageSize, toNat_alignDown toNat_pageSize] at hlast
      rw [toNat_div_pageSize, hstart] at hfirst
      exact ⟨hlt, region, hregion, not_not.mp hkind, by omega, by omega, by omega⟩

/-- **A new allocator**: nobody holds a frame, and only frames inside usable regions are free. -/
theorem Inv.new {map : MemoryMap} {limit : UInt64} {storage : Nat}
    (hnew : new map limit storage = .ok a) : Inv (Opened map limit) a [] := by
  have hbuild : ∀ (regions : List MemoryRegion) (a : BitmapFrameAllocator),
      (∀ region ∈ regions, region ∈ map.regions) → Inv (Opened map limit) a [] →
        Inv (Opened map limit) (regions.foldl (fun a region => a.addRegion limit region) a) [] := by
    intro regions
    induction regions with
    | nil => exact fun _ _ h => h
    | cons region rest ih =>
      intro a hmem h
      exact ih _ (fun r hr => hmem r (mem_cons_of_mem _ hr))
        (h.addRegion (hmem region (mem_cons_self ..))).1
  rw [BitmapFrameAllocator.new, Abyss.frameCount] at hnew
  split at hnew
  · next hlimit =>
    simp only [bind, Except.bind] at hnew
    split at hnew
    · cases hnew
    · cases hnew
      refine hbuild _ _ (fun _ h => h) (.full ?_)
      have hsum : (limit + 4095).toNat = limit.toNat + 4095 := Nat.mod_eq_of_lt hlimit
      rw [toNat_div_pageSize, hsum]
      omega
  · cases hnew

/-! ## Running dry -/

/-- All frames that a list of requests hands out. -/
def handedOut (a : BitmapFrameAllocator) (rs : List Request) : List Nat :=
  (trace perform a rs).flatMap granted

/-- A frame that goes out in a run is free at some point of it. -/
theorem Inv.free_of_mem_handedOut (h : Inv usable a held) {rs : List Request}
    (hf : f ∈ handedOut a rs) : ∃ pre, f < a.frameCount ∧
      (final perform a pre).isAllocated f = false ∧ (final perform a pre).isReserved f = false := by
  induction rs generalizing a held with
  | nil => cases hf
  | cons r rest ih =>
    have he := h.effect r
    rcases mem_append.mp hf with hf | hf
    · obtain ⟨hlt, hfree, hres, -⟩ := h.granted_free he hf
      exact ⟨[], hlt, hfree, hres⟩
    · obtain ⟨pre, hlt, hpre⟩ := ih (h.of_effect he) hf
      exact ⟨r :: pre, (h.effect_le he).1 ▸ hlt, hpre⟩

def Request.allocates : Request → Bool
  | .allocate => true
  | .allocateContiguous .. => true
  | _ => false

/-- An allocation uses up as many free frames as it hands out, and those are the only ones. -/
theorem Inv.effect_allocates (h : Inv usable a held) {r : Request} {reply : Reply}
    (he : Effect a (r, reply) b) (hr : r.allocates = true) :
    (granted (r, reply)).length + b.freeFrames = a.freeFrames ∧
      ∀ f < a.frameCount, a.isAllocated f = false →
        f ∈ granted (r, reply) ∨ f < b.frameCount ∧ b.isAllocated f = false := by
  have hreturned : returned (r, reply) = [] := by
    cases r <;> first | rfl | cases hr
  cases he with
  | idle hgranted =>
    rw [hgranted]
    exact ⟨Nat.zero_add _, fun f hf hfree => .inr ⟨hf, hfree⟩⟩
  | reserve => cases hr
  | grant nextSearch hgranted _ hnodup hfree =>
    have hlt := fun f hf => h.allocated_lt (hfree f hf).1
    have hcard := card_clear_setBits_true hlt hnodup fun f hf => mem_clear.mpr (hfree f hf)
    have hcount := h.count
    rw [hgranted]
    refine ⟨by dsimp only; omega, fun f hf hclear => or_iff_not_imp_left.mpr fun hnot => ⟨hf, ?_⟩⟩
    rw [isAllocated, bitIsSet_setBits hlt, if_neg hnot]
    exact hclear
  | release nextSearch hgranted hl =>
    rw [hgranted]
    rw [hreturned] at hl
    subst hl
    exact ⟨Nat.zero_add _, fun f hf hfree => .inr ⟨hf, hfree⟩⟩

/-- The same for a list of allocations. -/
theorem Inv.run_allocates (h : Inv usable a held) {rs : List Request}
    (hrs : ∀ r ∈ rs, r.allocates = true) :
    (handedOut a rs).length + (final perform a rs).freeFrames = a.freeFrames ∧
      ∀ f < a.frameCount, a.isAllocated f = false → f ∈ handedOut a rs ∨
        f < (final perform a rs).frameCount ∧
          (final perform a rs).isAllocated f = false := by
  induction rs generalizing a held with
  | nil => exact ⟨Nat.zero_add _, fun f hf hfree => .inr ⟨hf, hfree⟩⟩
  | cons r rest ih =>
    have he := h.effect r
    obtain ⟨hcount, hsplit⟩ := h.effect_allocates he (hrs r (mem_cons_self ..))
    obtain ⟨ihcount, ihsplit⟩ := ih (h.of_effect he) fun q hq => hrs q (mem_cons_of_mem _ hq)
    have hcons : handedOut a (r :: rest) =
        granted (r, (a.perform r).1) ++ handedOut (a.perform r).2 rest := rfl
    rw [hcons, length_append]
    refine ⟨?_, fun f hf hfree => ?_⟩
    · show _ + (final perform (a.perform r).2 rest).freeFrames = _
      omega
    · rcases hsplit f hf hfree with hnow | ⟨hf, hfree⟩
      · exact .inl (mem_append_left _ hnow)
      · exact (ihsplit f hf hfree).imp_left (mem_append_right _)

/-- Asks for as many frames as are reported free. -/
def drain (a : BitmapFrameAllocator) : List Request := List.replicate a.freeFrames .allocate

theorem drain_allocates (a : BitmapFrameAllocator) : ∀ r ∈ drain a, r.allocates = true := by
  intro r hr
  rw [eq_of_mem_replicate hr]
  rfl

theorem Inv.final_drain (h : Inv usable a held) : (final perform a (drain a)).freeFrames = 0 := by
  generalize hn : a.freeFrames = n
  rw [drain, hn]
  induction n generalizing a held with
  | zero => exact hn
  | succ n ih =>
    have hnext : (a.perform .allocate).2.freeFrames = n := by
      obtain ⟨hzero, -⟩ | ⟨f, -, -, hsome⟩ := h.allocate
      · omega
      · rw [perform, hsome]
        dsimp only
        omega
    exact ih (h.of_effect (h.effect .allocate)) hnext

/-- **As many frames go out as are reported free.** -/
theorem Inv.length_handedOut_drain (h : Inv usable a held) :
    (handedOut a (drain a)).length = a.freeFrames := by
  have := (h.run_allocates (drain_allocates a)).1
  rw [h.final_drain] at this
  exact this

theorem Inv.mem_handedOut_drain (h : Inv usable a held) (hf : f < a.frameCount)
    (hfree : a.isAllocated f = false) : f ∈ handedOut a (drain a) := by
  refine ((h.run_allocates (drain_allocates a)).2 f hf hfree).resolve_right ?_
  rintro ⟨hlt, hclear⟩
  have hpos := Finset.card_pos.mpr ⟨f, mem_clear.mpr ⟨hlt, hclear⟩⟩
  rw [← (h.run (drain a)).1.count, h.final_drain] at hpos
  exact Nat.lt_irrefl 0 hpos

/-! ## One holder at a time -/

/-- `reserve_range` has come across the frame while it was out. -/
def Overtaken (past : List (Request × Reply)) (f : Nat) : Prop :=
  ∃ pre start stop reply post, past = pre ++ (.reserveRange start stop, reply) :: post ∧
    start < stop ∧ Touches start stop f ∧ f ∈ outstanding pre

/-- Whoever holds a reserved frame has had it since before it was reserved. -/
theorem Inv.reserved_while_out (h : Inv usable a []) (rs : List Request) :
    ∀ f ∈ outstanding (trace perform a rs), (final perform a rs).isReserved f = true →
      Overtaken (trace perform a rs) f := by
  have hall : EveryStep perform (fun _ _ => True) a rs := .of_forall fun _ _ => trivial
  refine (hall.history (I := fun past b => Inv usable b (outstanding past) ∧
    ∀ f ∈ outstanding past, b.isReserved f = true → Overtaken past f) [] ?_
      ⟨h, by simp [outstanding]⟩).2
  rintro past b r - ⟨hinv, hpast⟩
  have he := hinv.effect r
  generalize (b.perform r).1 = reply at he ⊢
  generalize (b.perform r).2 = c at he ⊢
  rw [outstanding_append]
  refine ⟨hinv.of_effect he, fun f hf hres => ?_⟩
  -- what was known before this request is still known after it
  have hkeep (hheld : f ∈ outstanding past) (hres : b.isReserved f = true) :
      Overtaken (past ++ [(r, reply)]) f := by
    obtain ⟨pre, start, stop, reply', post, rfl, hmore⟩ := hpast f hheld hres
    exact ⟨pre, start, stop, reply', post ++ [(r, reply)], by simp, hmore⟩
  cases he with
  | idle hgranted hreturned =>
    rw [handOver, hgranted, hreturned] at hf
    exact hkeep hf hres
  | reserve hlt =>
    have hheld : f ∈ outstanding past := hf
    rcases ((hinv.reserveRange hlt).2.2 f (hinv.out f hheld).1).mp hres with hres | ⟨-, htouch⟩
    · exact hkeep hheld hres
    · exact ⟨past, _, _, _, [], rfl, hlt, htouch, hheld⟩
  | grant nextSearch hgranted hreturned hnodup hfree =>
    rw [handOver, hgranted, hreturned] at hf
    rcases mem_append.mp hf with hf | hf
    · have := hinv.pinned f (hfree f hf).1 hres
      rw [(hfree f hf).2] at this
      cases this
    · exact hkeep hf hres
  | release nextSearch hgranted hreturned hnodup hback =>
    rw [handOver, hgranted, hreturned] at hf
    exact hkeep (diff_subset _ _ hf) hres

/-- **No frame has two holders.**  Whatever is asked of a new allocator: the frames that are out
are different from one another and below the limit, and one of them is reserved only if it was out
already when `reserve_range` came across it.  The next request hands out no frame that is reserved
or out and takes back none that is not out.  As many frames as the allocator reports free can still
go out, in whichever portions, and no more. -/
theorem frames_have_one_holder {map : MemoryMap} {limit : UInt64} {storage : Nat}
    {a₀ : BitmapFrameAllocator} (hnew : new map limit storage = .ok a₀) (rs : List Request) :
    (outstanding (trace perform a₀ rs)).Nodup ∧
      (∀ f ∈ outstanding (trace perform a₀ rs), (f + 1) * 4096 ≤ limit.toNat) ∧
      (∀ f ∈ outstanding (trace perform a₀ rs),
        (final perform a₀ rs).isReserved f = true → ∃ pre start stop reply post,
          trace perform a₀ rs = pre ++ (.reserveRange start stop, reply) :: post ∧
            start < stop ∧ Touches start stop f ∧ f ∈ outstanding pre) ∧
      (∀ r, (∀ f ∈ granted (r, ((final perform a₀ rs).perform r).1),
          (final perform a₀ rs).isReserved f = false ∧
            f ∉ outstanding (trace perform a₀ rs)) ∧
        ∀ f ∈ returned (r, ((final perform a₀ rs).perform r).1),
          f ∈ outstanding (trace perform a₀ rs)) ∧
      IsGreatest {n | ∃ more : List Request, (∀ r ∈ more, r.allocates = true) ∧
          (handedOut (final perform a₀ rs) more).length = n}
        (final perform a₀ rs).freeFrames := by
  have hstart := Inv.new hnew
  obtain ⟨hinv, -, -⟩ := hstart.run rs
  refine ⟨hinv.nodup, fun f hf => ?_, hstart.reserved_while_out rs,
    fun r => ⟨fun f hf => ?_, fun f hf => ?_⟩, ⟨drain _, drain_allocates _, hinv.length_handedOut_drain⟩, ?_⟩
  · obtain ⟨region, -, -, -, -, hlimit⟩ := hinv.fit f (hinv.out f hf).1 (.inr hf)
    exact hlimit
  · exact (hinv.granted_free (hinv.effect r) hf).2.2
  · exact (hinv.returned_held (hinv.effect r) hf).1
  · rintro n ⟨more, hmore, rfl⟩
    have := (hinv.run_allocates hmore).1
    omega

/-! A map of two usable frames. -/

def twoFrames : MemoryMap := ⟨[⟨0, 8192, .usable⟩], by decide, by decide⟩

def twoFree : BitmapFrameAllocator where
  allocated := [0xfffffffffffffffc]
  reserved := [0xfffffffffffffffc]
  frameCount := 2
  nextSearch := 0
  freeFrames := 2

theorem new_twoFrames : new twoFrames 8192 2 = .ok twoFree := by decide +kernel

/-- A frame is reserved while it is out, is not taken back then, and another goes out. -/
def overtaken : List Request := [.allocate, .reserveRange 0 4096, .deallocate 0, .allocate]

theorem overtaken_holders : outstanding (trace perform twoFree overtaken) = [1, 0] ∧
    (outstanding (trace perform twoFree overtaken)).Nodup ∧
      IsGreatest {n | ∃ more : List Request, (∀ r ∈ more, r.allocates = true) ∧
          (handedOut (final perform twoFree overtaken) more).length = n}
        (final perform twoFree overtaken).freeFrames := by
  obtain ⟨hnodup, -, -, -, hfree⟩ := frames_have_one_holder new_twoFrames overtaken
  exact ⟨by decide +kernel, hnodup, hfree⟩

/-- The frames that are out need not be apart from those that are reserved. -/
theorem overtaken_reserved : new twoFrames 8192 2 = .ok twoFree ∧
    outstanding (trace perform twoFree [.allocate, .reserveRange 0 4096]) = [0] ∧
      (final perform twoFree [.allocate, .reserveRange 0 4096]).isReserved 0 = true :=
  ⟨new_twoFrames, by decide +kernel, by decide +kernel⟩

/-! ## Reservations -/

theorem toNat_address (hf : f < 2 ^ 52) : (address f).toNat = f * 4096 := by
  have hword : f.toUInt64.toNat = f := Nat.mod_eq_of_lt (by omega)
  rw [address, UInt64.toNat_mul, hword]
  exact Nat.mod_eq_of_lt (by rw [show pageSize.toNat = 4096 from rfl]; omega)

/-- A run of frames that is out and not reserved can come back. -/
theorem deallocateContiguous_ok {firstFrame count : UInt64} (hcount : count ≠ 0)
    (haligned : firstFrame.toNat % 4096 = 0) (hbound : a.frameCount < 2 ^ 52)
    (hrun : ∀ f ∈ frames (frameOf firstFrame) (frameOf firstFrame + count.toNat),
      f < a.frameCount ∧ a.isAllocated f = true ∧ a.isReserved f = false) :
    (a.deallocateContiguous firstFrame count).1 = .ok () := by
  have hpos : count.toNat ≠ 0 := fun hz => hcount (UInt64.toNat_inj.mp hz)
  have hmask : firstFrame &&& (pageSize - 1) = 0 := by
    apply UInt64.toNat_inj.mp
    exact (Nat.and_two_pow_sub_one_eq_mod firstFrame.toNat 12).trans haligned
  have hlast := hrun (frameOf firstFrame + count.toNat - 1)
    (mem_frames.mpr ⟨by omega, by omega⟩)
  have hnone : (frames (frameOf firstFrame) (frameOf firstFrame + count.toNat)).findSome?
      a.releaseFault = none := by
    refine findSome?_eq_none_iff.mpr fun f hf => ?_
    obtain ⟨-, hset, hres⟩ := hrun f hf
    simp [releaseFault, hset, hres]
  rw [deallocateContiguous, if_neg hcount, if_neg (not_not_intro hmask)]
  rw [if_neg (by rw [frameOf] at hlast; omega)]
  rw [frameOf] at hnone
  rw [hnone]

/-- A frame that is out and not reserved can be given back, and is free then. -/
theorem Inv.deallocate (h : Inv usable a held) (hf : f < a.frameCount)
    (hset : a.isAllocated f = true) (hres : a.isReserved f = false) :
    (a.deallocate (address f)).2.isAllocated f = false := by
  have hframe := frameOf_address (hf.trans h.bound)
  have hone : frames (frameOf (address f)) (frameOf (address f) + (1 : UInt64).toNat) = [f] :=
    hframe.symm ▸ frames_one f
  have hok : (a.deallocateContiguous (address f) 1).1 = .ok () := by
    refine deallocateContiguous_ok (by decide) ?_ h.bound (hone ▸ by simp [hf, hset, hres])
    rw [toNat_address (hf.trans h.bound), Nat.mul_mod_left]
  rw [BitmapFrameAllocator.deallocate]
  obtain ⟨e, herror⟩ | ⟨-, hdone⟩ := deallocateContiguous_cases a (address f) 1
  · rw [herror] at hok
    cases hok
  · rw [hdone, isAllocated, hone, bitIsSet_setBits (by simpa using h.allocated_lt hf),
      if_pos (mem_singleton_self f)]

/-- No frame with the property goes out any more, whatever is asked. -/
def NeverHandsOut (a : BitmapFrameAllocator) (P : Nat → Prop) : Prop :=
  ∀ rs, ∀ f ∈ handedOut a rs, ¬P f

/-- **What does not go out any more is what is reserved.**  A frame that is not can be brought to
go out: whoever has it gives it back, and then all free frames are asked for. -/
theorem Inv.neverHandsOut_iff (h : Inv usable a held) (P : Nat → Prop) :
    NeverHandsOut a P ↔ ∀ f < a.frameCount, P f → a.isReserved f = true := by
  constructor
  · intro hnever f hf hP
    by_contra hres
    rw [Bool.not_eq_true] at hres
    cases hset : a.isAllocated f with
    | false => exact hnever (drain a) f (h.mem_handedOut_drain hf hset) hP
    | true =>
      have hcount := (h.effect_le (h.effect (.deallocate (address f)))).1
      have hinv := h.of_effect (h.effect (.deallocate (address f)))
      refine hnever (.deallocate (address f) :: drain (a.deallocate (address f)).2) f ?_ hP
      exact mem_append_right _
        (hinv.mem_handedOut_drain (hcount ▸ hf) (h.deallocate hf hset hres))
  · intro hres rs f hf hP
    obtain ⟨pre, hlt, -, hfree⟩ := h.free_of_mem_handedOut hf
    rw [(h.run pre).2.2 f hlt (hres f hlt hP)] at hfree
    cases hfree

theorem Inv.applyReservations (h : Inv usable a held) {l : List Reservation}
    (hl : ∀ entry ∈ l, entry.start < entry.stop) :
    Inv usable (l.foldl (fun a entry => a.reserveRange entry.start entry.stop) a) held ∧
      (l.foldl (fun a entry => a.reserveRange entry.start entry.stop) a).frameCount = a.frameCount ∧
      ∀ f < a.frameCount,
        (l.foldl (fun a entry => a.reserveRange entry.start entry.stop) a).isReserved f = true ↔
          a.isReserved f = true ∨
            ∃ entry ∈ l, entry.stop.toNat + 4095 < 2 ^ 64 ∧ Touches entry.start entry.stop f := by
  induction l generalizing a with
  | nil => exact ⟨h, rfl, fun f _ => by simp⟩
  | cons entry rest ih =>
    obtain ⟨hinv, hcount, hbits⟩ := h.reserveRange (hl entry (mem_cons_self ..))
    obtain ⟨ihinv, ihcount, ihbits⟩ := ih hinv fun e he => hl e (mem_cons_of_mem _ he)
    refine ⟨ihinv, ihcount.trans hcount, fun f hf => ?_⟩
    rw [foldl_cons, ihbits f (hcount ▸ hf), hbits f hf, or_assoc, exists_mem_cons_iff]

/-- **When reservations are honoured.**  After `reserve_range` no frame that the interval touches
goes out any more, if and only if the end of the interval can be rounded up to a page or all those
frames had been reserved before.  After `apply_reservations` the same holds for an entry of the
table if and only if every frame it touches had been reserved or is touched by an entry whose end
can be rounded up. -/
theorem reservation_honoured_iff {map : MemoryMap} {limit : UInt64} {storage : Nat}
    {a₀ : BitmapFrameAllocator} (hnew : new map limit storage = .ok a₀) (rs : List Request) :
    (∀ start stop : UInt64, start < stop →
      (NeverHandsOut ((final perform a₀ rs).reserveRange start stop) (Touches start stop) ↔
        stop.toNat + 4095 < 2 ^ 64 ∨ ∀ f < (final perform a₀ rs).frameCount,
          Touches start stop f → (final perform a₀ rs).isReserved f = true)) ∧
      ∀ {capacity : Nat} (table : ReservationTable capacity), ∀ entry ∈ table.entries,
        (NeverHandsOut ((final perform a₀ rs).applyReservations table)
            (Touches entry.start entry.stop) ↔
          ∀ f < (final perform a₀ rs).frameCount, Touches entry.start entry.stop f →
            (final perform a₀ rs).isReserved f = true ∨ ∃ e ∈ table.entries,
              e.stop.toNat + 4095 < 2 ^ 64 ∧ Touches e.start e.stop f) := by
  obtain ⟨hinv, -, -⟩ := (Inv.new hnew).run rs
  constructor
  · intro start stop hlt
    obtain ⟨hres, hcount, hbits⟩ := hinv.reserveRange hlt
    rw [hres.neverHandsOut_iff, hcount]
    by_cases hstop : stop.toNat + 4095 < 2 ^ 64
    · exact iff_of_true (fun f hf htouch => (hbits f hf).mpr (.inr ⟨hstop, htouch⟩)) (.inl hstop)
    · rw [or_iff_right hstop]
      refine forall₃_congr fun f hf htouch => ?_
      rw [hbits f hf, or_iff_left fun h => hstop h.1]
  · intro capacity table entry _
    obtain ⟨hres, hcount, hbits⟩ := hinv.applyReservations table.valid
    rw [BitmapFrameAllocator.applyReservations, hres.neverHandsOut_iff, hcount]
    exact forall₃_congr fun f hf _ => hbits f hf

theorem lowFrame_honoured : (0 : UInt64) < 4096 ∧
    NeverHandsOut (twoFree.reserveRange 0 4096) (Touches 0 4096) := by
  refine ⟨by decide, ?_⟩
  exact ((reservation_honoured_iff new_twoFrames []).1 0 4096 (by decide)).mpr (.inl (by decide))

/-- The whole address space, up to its last byte. -/
def everything : ReservationTable 8 := ⟨[⟨0, 0xffffffffffffffff⟩], by decide, by decide⟩

/-- A reservation that ends in the last page of the address space reserves nothing. -/
theorem everything_ignored : new twoFrames 8192 2 = .ok twoFree ∧ Touches 0 0xffffffffffffffff 0 ∧
    handedOut (twoFree.reserveRange 0 0xffffffffffffffff) [.allocate] = [0] ∧
      handedOut (twoFree.applyReservations everything) [.allocate] = [0] :=
  ⟨new_twoFrames, ⟨by decide, by decide⟩, by decide +kernel, by decide +kernel⟩

/-! ## Usable memory -/

/-- The region has the byte at an address. -/
def MemoryRegion.covers (region : MemoryRegion) (byte : Nat) : Prop :=
  region.start.toNat ≤ byte ∧ byte < region.stop.toNat

/-- **Only usable memory goes out.**  A frame that is handed out is wholly inside one usable region
of the map.  A region of another kind has one of its bytes only if the map gives that byte to a
usable region as well, and so none at all in a map in which the kinds do not overlap. -/
theorem handedOut_usable {map : MemoryMap} {limit : UInt64} {storage : Nat}
    {a₀ : BitmapFrameAllocator} (hnew : new map limit storage = .ok a₀) (rs : List Request) :
    ∀ f ∈ handedOut a₀ rs, (∃ region ∈ map.regions, region.kind = .usable ∧
        ∀ byte, byte / 4096 = f → region.covers byte) ∧
      ∀ other ∈ map.regions, other.kind ≠ .usable → ∀ byte, byte / 4096 = f → other.covers byte →
          ∃ region ∈ map.regions, region.kind = .usable ∧ region.covers byte := by
  intro f hf
  have hnone := Inv.new hnew
  obtain ⟨pre, hlt, hfree, -⟩ := hnone.free_of_mem_handedOut hf
  obtain ⟨hinv, hcount, -⟩ := hnone.run pre
  obtain ⟨region, hregion, hkind, hstart, hstop, -⟩ := hinv.fit f (hcount ▸ hlt) (.inl hfree)
  have hcovers : ∀ byte, byte / 4096 = f → region.covers byte := by
    intro byte hbyte
    rw [MemoryRegion.covers]
    omega
  exact ⟨⟨region, hregion, hkind, hcovers⟩,
    fun _ _ _ byte hbyte _ => ⟨region, hregion, hkind, hcovers byte hbyte⟩⟩

theorem twoFree_handedOut : 0 ∈ handedOut twoFree [.allocate] ∧
    ∃ region ∈ twoFrames.regions, region.kind = .usable ∧
      ∀ byte, byte / 4096 = 0 → region.covers byte := by
  have hmem : 0 ∈ handedOut twoFree [.allocate] := by decide +kernel
  exact ⟨hmem, (handedOut_usable new_twoFrames [.allocate] 0 hmem).1⟩

/-- A map that gives its first page to two regions. -/
def overlapping : MemoryMap :=
  ⟨[⟨0, 8192, .usable⟩, ⟨0, 4096, .reserved⟩], by decide, by decide⟩

/-- The usable region wins, although the other comes after it. -/
theorem overlapping_handedOut :
    (new overlapping 8192 2).toOption.map (fun a => handedOut a [.allocate]) = some [0] ∧
      (⟨0, 4096, .reserved⟩ : MemoryRegion) ∈ overlapping.regions ∧
      MemoryRegion.covers ⟨0, 4096, .reserved⟩ 0 :=
  ⟨by decide +kernel, by decide, ⟨by decide, by decide⟩⟩

/-! ## Contiguous runs -/

theorem Inv.le_freeFrames (h : Inv usable a held) {count alignment first : Nat}
    (hrun : a.IsRun count alignment first) : count ≤ a.freeFrames := by
  have hsub : (frames first (first + count)).toFinset ⊆ clear a.allocated a.frameCount := by
    intro f hf
    have hf := mem_toFinset.mp hf
    exact mem_clear.mpr ⟨(mem_frames.mp hf).2.trans_le hrun.2.1, hrun.2.2 f hf⟩
  have := Finset.card_le_card hsub
  rw [toFinset_card_of_nodup (nodup_frames ..), length_frames, ← h.count] at this
  omega

/-- **`allocate_contiguous` finds a run if there is one.** -/
theorem Inv.allocateContiguous_ne_none (h : Inv usable a held) {count alignment : UInt64}
    {first : Nat} (hcount : count ≠ 0) (hpower : isPowerOfTwo alignment = true)
    (hrun : a.IsRun count.toNat alignment.toNat first) :
    a.allocateContiguous count alignment ≠ (none, a) := by
  obtain ⟨k, hk⟩ := exists_eq_two_pow hpower
  have hpos : count.toNat ≠ 0 := fun he => hcount (UInt64.toNat_inj.mp he)
  have halign : alignment.toNat ≠ 0 := hk ▸ (Nat.two_pow_pos k).ne'
  have hfree := h.le_freeFrames hrun
  obtain ⟨found, hfound⟩ := Option.isSome_iff_exists.mp (findContiguous_zero_isSome hk h.bound hrun)
  rw [allocateContiguous, if_neg (by simp [hpos, halign, hpower, hfree])]
  split
  · next hnone => simp [hfound] at hnone
  · simp

/-- **`allocate_contiguous` is complete.**  In every state, it succeeds for a count that is not zero
and an alignment that is a power of two exactly when there is such a run, and the run that it
returns was free and is what becomes allocated. -/
theorem contiguous_allocation_complete {map : MemoryMap} {limit : UInt64} {storage : Nat}
    {a₀ a : BitmapFrameAllocator} (hnew : new map limit storage = .ok a₀) {rs : List Request}
    (ha : a = final perform a₀ rs) (count alignment : UInt64) :
    ((∃ start, (a.allocateContiguous count alignment).1 = some start) ↔
      count ≠ 0 ∧ isPowerOfTwo alignment = true ∧
        ∃ first, a.IsRun count.toNat alignment.toNat first) ∧
    ∀ start, (a.allocateContiguous count alignment).1 = some start →
      start.toNat = frameOf start * 4096 ∧ a.IsRun count.toNat alignment.toNat (frameOf start) ∧
        ∀ f < a.frameCount, (a.allocateContiguous count alignment).2.isAllocated f =
          if f ∈ frames (frameOf start) (frameOf start + count.toNat) then true
          else a.isAllocated f := by
  have hinv := ((Inv.new hnew).run rs).1
  rw [← ha] at hinv
  obtain hnone | ⟨first, hrun, hpos, hpower, hsome⟩ := allocateContiguous_cases a count alignment
  · refine ⟨⟨by simp [hnone], ?_⟩, by simp [hnone]⟩
    rintro ⟨hcount, hpower, first, hrun⟩
    exact absurd hnone (hinv.allocateContiguous_ne_none hcount hpower hrun)
  · have hfirst : first < 2 ^ 52 := by
      have := hrun.2.1
      have := hinv.bound
      omega
    have hcount : count ≠ 0 := by
      rintro rfl
      exact absurd hpos (by decide)
    rw [hsome]
    refine ⟨⟨fun _ => ⟨hcount, hpower, first, hrun⟩, fun _ => ⟨_, rfl⟩⟩, ?_⟩
    rintro _ ⟨⟩
    rw [frameOf_address hfirst]
    refine ⟨toNat_address hfirst, hrun, fun f _ => bitIsSet_setBits (fun g hg => ?_) true f⟩
    exact hinv.allocated_lt ((mem_frames.mp hg).2.trans_le hrun.2.1)

theorem twoFree_contiguous : new twoFrames 8192 2 = .ok twoFree ∧
    ∃ start, (twoFree.allocateContiguous 2 2).1 = some start :=
  ⟨new_twoFrames, (contiguous_allocation_complete new_twoFrames
    (show twoFree = final perform twoFree [] from rfl) 2 2).1.2
      ⟨by decide, by decide, 0, by decide⟩⟩

/-- An empty run is refused, and so is one frame at a multiple of three. -/
theorem twoFree_refused : new twoFrames 8192 2 = .ok twoFree ∧
    (twoFree.allocateContiguous 0 1).1 = none ∧ twoFree.IsRun 0 1 0 ∧
    (twoFree.allocateContiguous 1 3).1 = none ∧ twoFree.IsRun 1 3 0 :=
  ⟨new_twoFrames, by decide +kernel, by decide, by decide +kernel, by decide⟩

end Sisyphus.Abyss
