import Sisyphus.Iommu.Iova

/-!
# What a ledger of leases keeps

`IovaLedger.Inv` is what holds of a ledger all the time: the leased ranges are aligned, inside the
aperture, apart from one another and from the reserved windows, and there are as many as the
counter says.  `Later` is what a ledger can become.  Every call keeps the one and is a case of the
other, and a call that fails changes nothing (`ensures_run`).
-/

set_option autoImplicit false

namespace Sisyphus.Iommu

open Fallible Run Slots Words

/-! ## Leases and handles -/

variable {h : Handle} {lease : IovaLease}

namespace IovaLease

theorem handle_new (hslot : h.slot + 1 < 2 ^ 32) : (new h).handle = some h := by
  have hword : (h.slot.toUInt32 + 1).toNat = h.slot + 1 := by
    show (h.slot % 2 ^ 32 + 1) % 2 ^ 32 = _
    omega
  have hlow : h.slot.toUInt64 + 1 = (h.slot.toUInt32 + 1).toUInt64 := by
    rw [← UInt64.toNat_inj, UInt32.toNat_toUInt64, hword, UInt64.toNat_add]
    show (h.slot % 2 ^ 64 + 1) % 2 ^ 64 = _
    omega
  have hne : h.slot.toUInt32 + 1 ≠ 0 := by
    intro he
    rw [he] at hword
    cases hword
  rw [handle, slot, new, generation, hlow, toUInt32_pack, pack_shiftRight, if_neg hne]
  refine congrArg some (Handle.ext ?_ rfl)
  rw [add_sub_cancel_right]
  exact Nat.mod_eq_of_lt (by omega)

/-- A lease is determined by its handle. -/
theorem eq_new_of_handle (hl : lease.handle = some h) :
    lease = new h := by
  rw [handle, Option.map_eq_some_iff] at hl
  obtain ⟨_, hslot, rfl⟩ := hl
  obtain ⟨hne, ⟨⟩⟩ := Option.ite_none_left_eq_some.mp hslot
  have hlow : (lease.raw.toUInt32 - 1).toNat.toUInt64 + 1 = lease.raw.toUInt32.toUInt64 := by
    have hpos : lease.raw.toUInt32.toNat ≠ 0 := fun he => hne (UInt32.toNat_inj.mp he)
    have hlt := lease.raw.toUInt32.toNat_lt
    have hone : (1 : UInt32).toNat = 1 := rfl
    rw [← UInt64.toNat_inj, UInt32.toNat_toUInt64, UInt64.toNat_add,
      UInt32.toNat_sub_of_le _ _ (UInt32.le_iff_toNat_le.mpr (by omega)), hone]
    show ((lease.raw.toUInt32.toNat - 1) % 2 ^ 64 + 1) % 2 ^ 64 = _
    omega
  rw [new, hlow, generation, pack_halves]

end IovaLease

/-! ## Ranges -/

namespace IovaRange

variable {r s : IovaRange}

theorem overlaps_iff : r.overlaps s = true ↔
    r.start.toNat < s.stop.toNat ∧ s.start.toNat < r.stop.toNat := by
  rw [overlaps, Bool.and_eq_true, decide_eq_true_eq, decide_eq_true_eq, UInt64.lt_iff_toNat_lt,
    UInt64.lt_iff_toNat_lt]

theorem overlaps_comm : r.overlaps s = s.overlaps r := by
  rw [overlaps, overlaps, Bool.and_comm]

theorem Valid.start_add_length (h : r.Valid) : r.start.toNat + r.length.toNat = r.stop.toNat := by
  have := h.nonempty
  rw [length, UInt64.toNat_sub_of_le _ _ (UInt64.le_iff_toNat_le.mpr (by omega))]
  omega

theorem valid_of_new {start length : UInt64} (h : new start length = .ok r) :
    r.Valid ∧ r.start = start ∧ r.stop.toNat = start.toNat + length.toNat := by
  simp only [new, ite_eq_ok_error, ite_error_eq_ok, not_or, not_not] at h
  obtain ⟨hlt, ⟨hlen, hstart, -, hstop⟩, ⟨⟩⟩ := h
  have hsum : (start + length).toNat = start.toNat + length.toNat := Nat.mod_eq_of_lt hlt
  have hpos : length.toNat ≠ 0 := fun he => hlen (UInt64.toNat_inj.mp he)
  have hlt' : start.toNat < (start + length).toNat := by omega
  exact ⟨⟨hlt', congrArg UInt64.toNat hstart, congrArg UInt64.toNat hstop⟩, rfl, hsum⟩

end IovaRange

/-! ## First fit -/

namespace IovaLedger

open IovaRange

/-- The end that a scan of the blockers arrives at: that of a blocker in the way, and of none in the
way beyond it. -/
theorem foldl_advanceTo (candidate : IovaRange) (l : List IovaRange) (acc : UInt64) :
    let last := l.foldl (fun advanceTo blocker =>
      if candidate.overlaps blocker then max advanceTo blocker.stop else advanceTo) acc
    acc.toNat ≤ last.toNat ∧ (∀ b ∈ l, candidate.overlaps b = true → b.stop.toNat ≤ last.toNat) ∧
      (last = acc ∨ ∃ b ∈ l, candidate.overlaps b = true ∧ last = b.stop) := by
  induction l generalizing acc with
  | nil => exact ⟨le_rfl, by simp, .inl rfl⟩
  | cons b rest ih =>
    obtain ⟨next, hnext⟩ : ∃ next, next = if candidate.overlaps b then max acc b.stop else acc :=
      ⟨_, rfl⟩
    have hstep : acc.toNat ≤ next.toNat ∧
        (candidate.overlaps b = true → b.stop.toNat ≤ next.toNat) ∧
          (next = acc ∨ candidate.overlaps b = true ∧ next = b.stop) := by
      have := UInt64.toNat_max acc b.stop
      have : max acc b.stop = acc ∨ max acc b.stop = b.stop := (ite_eq_or_eq ..).symm
      split at hnext <;> subst hnext <;> simp_all
    obtain ⟨hacc, hall, hlast⟩ := ih next
    rw [List.foldl_cons, ← hnext]
    refine ⟨hstep.1.trans hacc,
      List.forall_mem_cons.mpr ⟨fun hover => (hstep.2.1 hover).trans hacc, hall⟩, ?_⟩
    rcases hlast with heq | ⟨c, hc, hover, heq⟩
    · rw [heq]
      exact hstep.2.2.imp_right fun h => ⟨b, List.mem_cons_self .., h⟩
    · exact .inr ⟨c, List.mem_cons_of_mem _ hc, hover, heq⟩

theorem advanceTo_eq_zero {blockers : List IovaRange} {candidate b : IovaRange}
    (h : advanceTo blockers candidate = 0) (hb : b ∈ blockers) : candidate.overlaps b = false := by
  rw [Bool.eq_false_iff]
  intro hover
  have hle := (foldl_advanceTo candidate blockers 0).2.1 b hb hover
  rw [advanceTo] at h
  rw [h] at hle
  exact absurd ((overlaps_iff.mp hover).1.trans_le hle) (Nat.not_lt_zero _)

/-- Fewer elements pass a stricter test, if one of them fails it. -/
theorem countP_lt_countP {α : Type} {p q : α → Bool} {l : List α} {a : α}
    (hpq : ∀ b ∈ l, p b = true → q b = true) (ha : a ∈ l) (hq : q a = true) (hp : p a = false) :
    l.countP p < l.countP q := by
  obtain ⟨pre, post, rfl⟩ := List.append_of_mem ha
  have hpre : pre.countP p ≤ pre.countP q :=
    List.countP_mono_left fun b hb => hpq b (List.mem_append_left _ hb)
  have hpost : post.countP p ≤ post.countP q :=
    List.countP_mono_left fun b hb => hpq b (List.mem_append_right _ (List.mem_cons_of_mem _ hb))
  rw [List.countP_append, List.countP_append, List.countP_cons_of_neg (by simp [hp]),
    List.countP_cons_of_pos hq]
  omega

section FirstFit

variable {ledger : IovaLedger} {length alignment start : UInt64} {turns k low : Nat} {r : IovaRange}

/-- So many bytes from there on are in the aperture and in nobody's way. -/
def Free (ledger : IovaLedger) (length start : Nat) : Prop :=
  start + length ≤ ledger.aperture.stop.toNat ∧
    ∀ b ∈ ledger.blockers, b.stop.toNat ≤ start ∨ start + length ≤ b.start.toNat

/-- The multiples of `alignment`, from `low` on, at which so many bytes are free. -/
def starts (ledger : IovaLedger) (low alignment length : Nat) : Set Nat :=
  {start | low ≤ start ∧ alignment ∣ start ∧ ledger.Free length start}

/-- **The loop of `first_fit` is exact.**  Nothing that is free is below the candidate, and no free
start is skipped with a blocker.  Every turn leaves a blocker behind, so that the turns suffice. -/
theorem firstFitFrom_spec (hk : alignment.toNat = 2 ^ k) (hlow : low ≤ start.toNat)
    (hstart : 2 ^ k ∣ start.toNat)
    (hleast : start.toNat ∈ lowerBounds (ledger.starts low (2 ^ k) length.toNat))
    (hturns : ledger.blockers.countP (fun b => decide (start < b.stop)) < turns) :
    (∃ r, ledger.firstFitFrom length alignment turns start = .ok r ∧
        r.stop.toNat = r.start.toNat + length.toNat ∧
        IsLeast (ledger.starts low (2 ^ k) length.toNat) r.start.toNat) ∨
      ledger.firstFitFrom length alignment turns start = .error .addressSpaceExhausted ∧
        ledger.starts low (2 ^ k) length.toNat = ∅ := by
  induction turns generalizing start with
  | zero => omega
  | succ turns ih =>
    rw [firstFitFrom]
    have hstop := ledger.aperture.stop.toNat_lt
    by_cases hfit : start.toNat + length.toNat < 2 ^ 64 ∧ start + length ≤ ledger.aperture.stop
    · have hsum : (start + length).toNat = start.toNat + length.toNat := Nat.mod_eq_of_lt hfit.1
      have hinside := UInt64.le_iff_toNat_le.mp hfit.2
      rw [if_pos hfit]
      by_cases hzero : advanceTo ledger.blockers ⟨start, start + length⟩ = 0
      · rw [if_pos hzero]
        refine .inl ⟨_, rfl, hsum, ⟨hlow, hstart, hsum ▸ hinside, fun b hb => ?_⟩, hleast⟩
        have := advanceTo_eq_zero hzero hb
        grind [overlaps_iff]
      · rw [if_neg hzero, advanceTo]
        -- the scan moves past a blocker that was in the way
        obtain ⟨b, hb, hover, hnext⟩ := (foldl_advanceTo _ _ 0).2.2.resolve_left hzero
        have hahead : start.toNat < b.stop.toNat := (overlaps_iff.mp hover).1
        have hbefore : b.start.toNat < (start + length).toNat := (overlaps_iff.mp hover).2
        rw [hnext]
        -- What is free from the candidate on is free from the end of the blocker on.
        have hskip : ∀ c ∈ ledger.starts low (2 ^ k) length.toNat, b.stop.toNat ≤ c := by
          intro c hc
          have hge : start.toNat ≤ c := hleast hc
          have := hc.2.2.2 b hb
          omega
        have hround {c : Nat} (hc : c ∈ ledger.starts low (2 ^ k) length.toNat) :=
          exists_alignUp_le hk hc.2.1 (hskip c hc) (by have := hc.2.2.1; omega)
        cases hnew : alignUp b.stop alignment with
        | none =>
          refine .inr ⟨rfl, Set.eq_empty_of_forall_notMem fun c hc => ?_⟩
          obtain ⟨_, hsome, -⟩ := hround hc
          simp [hnew] at hsome
        | some start' =>
          obtain ⟨hle, hdvd⟩ := le_alignUp hk hnew
          have hleast' : start'.toNat ∈ lowerBounds (ledger.starts low (2 ^ k) length.toNat) := by
            intro c hc
            obtain ⟨_, hsome, hle⟩ := hround hc
            exact Option.some_inj.mp (hnew.symm.trans hsome) ▸ hle
          refine ih (by omega) hdvd hleast' (Nat.lt_of_lt_of_le ?_ (Nat.le_of_lt_succ hturns))
          refine countP_lt_countP (a := b) (fun c _ hc => ?_) hb ?_ ?_ <;>
            simp only [decide_eq_true_eq, decide_eq_false_iff_not, UInt64.lt_iff_toNat_lt] at *
          all_goals omega
    · rw [if_neg hfit]
      refine .inr ⟨rfl, Set.eq_empty_of_forall_notMem fun c hc => hfit ?_⟩
      have hend : c + length.toNat ≤ ledger.aperture.stop.toNat := hc.2.2.1
      have hge : start.toNat ≤ c := hleast hc
      have hlt : start.toNat + length.toNat < 2 ^ 64 := by omega
      have hsum : (start + length).toNat = start.toNat + length.toNat := Nat.mod_eq_of_lt hlt
      exact ⟨hlt, UInt64.le_iff_toNat_le.mpr (by omega)⟩

/-- Where a request fits. -/
def fits (ledger : IovaLedger) (request : IovaRequest) : Set Nat :=
  ledger.starts ledger.aperture.start.toNat (request.alignmentPages.toNat * 4096)
    (request.pageCount.toNat * 4096)

/-- **`first_fit` is exact.** -/
theorem firstFit_spec (ledger : IovaLedger) (request : IovaRequest) :
    (∃ r, ledger.firstFit request = .ok r ∧
        r.stop.toNat = r.start.toNat + request.pageCount.toNat * 4096 ∧
        IsLeast (ledger.fits request) r.start.toNat) ∨
      ledger.firstFit request = .error .addressSpaceExhausted ∧ ledger.fits request = ∅ := by
  obtain ⟨j, hj⟩ := exists_eq_two_pow request.power
  have hk : (request.alignmentPages * iovaPageSize).toNat = 2 ^ (j + 12) := by
    rw [UInt64.toNat_mul, Nat.pow_add, ← hj]
    exact Nat.mod_eq_of_lt request.alignment_fits
  have hlength : (request.pageCount * iovaPageSize).toNat = request.pageCount.toNat * 4096 :=
    Nat.mod_eq_of_lt request.length_fits
  have hfits : ledger.fits request = ledger.starts ledger.aperture.start.toNat (2 ^ (j + 12))
      (request.pageCount * iovaPageSize).toNat := by
    rw [fits, hj, hlength, Nat.pow_add]
  have hround {c : Nat} (hc : c ∈ ledger.fits request) :=
    exists_alignUp_le hk (hfits ▸ hc).2.1 hc.1
      (by have := hc.2.2.1; have := ledger.aperture.stop.toNat_lt; omega)
  rw [firstFit]
  split
  · next hnone =>
    refine .inr ⟨rfl, Set.eq_empty_of_forall_notMem fun c hc => ?_⟩
    obtain ⟨_, hsome, -⟩ := hround hc
    simp [hnone] at hsome
  · next start hstart =>
    obtain ⟨hle, hdvd⟩ := le_alignUp hk hstart
    rw [← hlength, hfits]
    refine firstFitFrom_spec hk hle hdvd ?_ (Nat.lt_succ_of_le List.countP_le_length)
    intro c hc
    obtain ⟨_, hsome, hle⟩ := hround (hfits ▸ hc)
    exact Option.some_inj.mp (hstart.symm.trans hsome) ▸ hle

/-- **What `first_fit` finds.** -/
theorem firstFit_ok {request : IovaRequest} (h : ledger.firstFit request = .ok r) :
    r.Valid ∧ r.stop.toNat = r.start.toNat + request.pageCount.toNat * 4096 ∧
      ledger.aperture.contains r = true ∧ ∀ b ∈ ledger.blockers, r.overlaps b = false := by
  obtain ⟨_, hr, hstop, ⟨hge, hdvd, hinside, hfree⟩, -⟩ | ⟨hr, -⟩ := firstFit_spec ledger request
  · obtain rfl := Except.ok.inj (h.symm.trans hr)
    have hpos : request.pageCount.toNat ≠ 0 := fun he => request.nonempty (UInt64.toNat_inj.mp he)
    have haligned := Nat.mod_eq_zero_of_dvd ((Dvd.intro_left _ rfl).trans hdvd)
    refine ⟨⟨by omega, haligned, by omega⟩, hstop, ?_, fun b hb => ?_⟩
    · rw [contains, Bool.and_eq_true, decide_eq_true_eq, decide_eq_true_eq]
      exact ⟨UInt64.le_iff_toNat_le.mpr hge, UInt64.le_iff_toNat_le.mpr (hstop ▸ hinside)⟩
    · grind [overlaps_iff]
  · rw [h] at hr
    cases hr

end FirstFit

/-! ## The invariant -/

structure Inv (ledger : IovaLedger) : Prop where
  small : ledger.leases.length < 2 ^ 32
  valid : ∀ h r, lookup ledger.leases h = some r → r.Valid
  inside : ∀ h r, lookup ledger.leases h = some r → ledger.aperture.contains r = true
  apart : ∀ h k r s, h ≠ k → lookup ledger.leases h = some r → lookup ledger.leases k = some s →
    r.overlaps s = false
  unreserved : ∀ w ∈ ledger.reserved, ∀ h r, lookup ledger.leases h = some r → w.overlaps r = false
  count : ledger.activeCount = (live ledger.leases).ncard

/-- What a ledger can become. -/
structure Later (ledger next : IovaLedger) : Prop where
  aperture : next.aperture = ledger.aperture
  reserved : next.reserved = ledger.reserved
  length : next.leases.length = ledger.leases.length
  evolves : Evolves ledger.leases next.leases

theorem Later.refl (ledger : IovaLedger) : Later ledger ledger := ⟨rfl, rfl, rfl, .refl _⟩

theorem Later.trans {a b c : IovaLedger} (h₁ : Later a b) (h₂ : Later b c) : Later a c :=
  ⟨h₂.aperture.trans h₁.aperture, h₂.reserved.trans h₁.reserved, h₂.length.trans h₁.length,
    h₁.evolves.trans h₂.evolves⟩

section Changes

variable {ledger : IovaLedger} {h : Handle} {r : IovaRange}

theorem Later.enter (hv : vacancy ledger.leases = some h) : Later ledger (ledger.enter h r) :=
  ⟨rfl, rfl, length_fill .., evolves_fill (.inl hv) r⟩

/-- **A range that is in nobody's way may be leased.** -/
theorem Inv.enter (hinv : Inv ledger) (hv : vacancy ledger.leases = some h) (hvalid : r.Valid)
    (hinside : ledger.aperture.contains r = true)
    (hfree : ∀ b ∈ ledger.blockers, r.overlaps b = false) : Inv (ledger.enter h r) := by
  have hlease : ∀ k s, lookup ledger.leases k = some s → s.overlaps r = false :=
    fun k s hk => overlaps_comm ▸ hfree s (List.mem_append_right _ (mem_values.mpr ⟨k, hk⟩))
  refine ⟨(length_fill ..).trans_lt hinv.small, forall_lookup_fill (.inl hv) hvalid hinv.valid,
    forall_lookup_fill (.inl hv) hinside hinv.inside,
    pairwise_lookup_fill (.inl hv) (overlaps_comm.trans ·) hlease hinv.apart, fun w hw => ?_, ?_⟩
  · refine forall_lookup_fill (.inl hv) ?_ (hinv.unreserved w hw)
    rw [overlaps_comm]
    exact hfree w (List.mem_append_left _ hw)
  · exact (congrArg (· + 1) hinv.count).trans (ncard_live_fill hv r).symm

/-- **A lease may be given up.** -/
theorem Inv.vacate (hinv : Inv ledger) (hl : lookup ledger.leases h = some r) :
    Inv { ledger with
      leases := vacate ledger.leases h, activeCount := ledger.activeCount - 1 } := by
  have hlook : ∀ k s, lookup (Slots.vacate ledger.leases h) k = some s →
      lookup ledger.leases k = some s := fun k s hk => ((lookup_vacate_eq_some hl).mp hk).2
  refine ⟨(length_vacate ..).trans_lt hinv.small,
    fun k s hk => hinv.valid k s (hlook k s hk), fun k s hk => hinv.inside k s (hlook k s hk),
    fun k k' s s' hne hk hk' => hinv.apart k k' s s' hne (hlook k s hk) (hlook k' s' hk'),
    fun w hw k s hk => hinv.unreserved w hw k s (hlook k s hk), ?_⟩
  have := ncard_live_vacate hl
  have := hinv.count
  dsimp only
  omega

end Changes

/-! ## Calls -/

section Calls

variable {ledger : IovaLedger}

/-- The slot, the range and the lease of a successful reservation. -/
structure Entered (ledger : IovaLedger) (r : IovaRange) (lease : IovaLease) (next : IovaLedger) :
    Prop where
  valid : r.Valid
  inside : ledger.aperture.contains r = true
  free : ∀ b ∈ ledger.blockers, r.overlaps b = false
  slot : ∃ h, vacancy ledger.leases = some h ∧ lease = .new h ∧ next = ledger.enter h r

theorem Inv.entered {r : IovaRange} {next : IovaLedger} (hinv : Inv ledger)
    (h : Entered ledger r lease next) : Inv next ∧ Later ledger next := by
  obtain ⟨hvalid, hinside, hfree, h, hv, -, rfl⟩ := h
  exact ⟨hinv.enter hv hvalid hinside hfree, .enter hv⟩

theorem ensures_reserve (ledger : IovaLedger) (request : IovaRequest) :
    Ensures (reserve request) ledger (fun lease next => ∃ r, Entered ledger r lease next ∧
        r.stop.toNat = r.start.toNat + request.pageCount.toNat * 4096)
      (fun _ next => next = ledger) := by
  simp only [reserve, ensures_rules]
  intro h hv r hfit
  obtain ⟨hvalid, hstop, hinside, hfree⟩ := firstFit_ok hfit
  exact ⟨r, ⟨hvalid, hinside, hfree, h, hv, rfl, rfl⟩, hstop⟩

theorem ensures_reserveAligned (ledger : IovaLedger) (pageCount alignmentPages : UInt64) :
    Ensures (reserveAligned pageCount alignmentPages) ledger
      (fun lease next => ∃ r, Entered ledger r lease next ∧
        r.stop.toNat = r.start.toNat + pageCount.toNat * 4096)
      (fun _ next => next = ledger) := by
  simp only [reserveAligned, ensures_rules]
  intro request hrequest
  rw [IovaRequest.new] at hrequest
  split at hrequest
  · cases hrequest
  simp only [dite_eq_ok_error] at hrequest
  obtain ⟨_, _, ⟨⟩⟩ := hrequest
  exact ensures_reserve ledger _

theorem available_iff {r : IovaRange} : ledger.unavailable r = false ↔
    ledger.aperture.contains r = true ∧ ∀ b ∈ ledger.blockers, r.overlaps b = false := by
  rw [unavailable, Bool.or_eq_false_iff, Bool.or_eq_false_iff, Bool.not_eq_false', and_assoc]
  rw [List.any_eq_false, List.any_eq_false, blockers, List.forall_mem_append]
  simp only [Bool.not_eq_true, overlaps_comm]

theorem ensures_reserveExact (ledger : IovaLedger) (range : ValidRange) :
    Ensures (reserveExact range) ledger (fun lease next => Entered ledger range lease next)
      (fun _ next => next = ledger) := by
  simp only [reserveExact, ensures_rules]
  intro havailable h hv
  obtain ⟨hinside, hfree⟩ := available_iff.mp havailable
  exact ⟨range.2, hinside, hfree, h, hv, rfl, rfl⟩

theorem ensures_mapM_reserve (hinv : Inv ledger) (requests : List IovaRequest) :
    Ensures (requests.mapM reserve) ledger (fun _ next => Inv next ∧ Later ledger next)
      (fun _ _ => True) := by
  induction requests generalizing ledger with
  | nil => exact ⟨hinv, .refl _⟩
  | cons request rest ih =>
    rw [List.mapM_cons, ensures_bind]
    refine (ensures_reserve ledger request).mono ?_ fun _ _ _ => trivial
    rintro lease next ⟨r, hentered, -⟩
    obtain ⟨hnext, hlater⟩ := hinv.entered hentered
    rw [ensures_bind]
    exact (ih hnext).mono (fun _ last h => ⟨h.1, hlater.trans h.2⟩) fun _ _ _ => trivial

theorem ensures_reserveMany (hinv : Inv ledger) (requests : List IovaRequest) (outputLength : Nat) :
    Ensures (reserveMany requests outputLength) ledger (fun _ next => Inv next ∧ Later ledger next)
      (fun _ next => next = ledger) := by
  simp only [reserveMany, ensures_rules]
  intro _
  rcases (ensures_mapM_reserve hinv requests).cases with
    ⟨staged, candidate, heq, hall⟩ | ⟨e, candidate, heq, -⟩
  · rw [heq]
    exact hall
  · rw [heq]
    rfl

theorem ensures_release (ledger : IovaLedger) (lease : IovaLease) : Ensures (release lease) ledger
      (fun r next => ∃ h, lease.handle = some h ∧ lookup ledger.leases h = some r ∧
        next = { ledger with
          leases := vacate ledger.leases h
          activeCount := ledger.activeCount - 1 })
      (fun _ next => next = ledger) := by
  simp only [release, ensures_rules]
  intro h hh r hl
  exact ⟨h, hh, hl, rfl⟩

/-- **Every call keeps the invariant, and one that fails changes nothing.** -/
theorem ensures_run (hinv : Inv ledger) (call : Call) :
    Ensures call.run ledger (fun _ next => Inv next ∧ Later ledger next)
      (fun _ next => next = ledger) := by
  cases call with
  | reserve request =>
    rw [Call.run, ensures_bind]
    refine (ensures_reserve ledger request).imp_ok ?_
    rintro lease next ⟨r, hentered, -⟩
    exact hinv.entered hentered
  | reserveExact range =>
    rw [Call.run, ensures_bind]
    exact (ensures_reserveExact ledger range).imp_ok (fun _ _ h => hinv.entered h)
  | reserveMany requests outputLength =>
    rw [Call.run, ensures_bind]
    exact (ensures_reserveMany hinv requests outputLength).imp_ok (fun _ _ h => h)
  | release lease =>
    rw [Call.run, ensures_bind]
    refine (ensures_release ledger lease).imp_ok ?_
    rintro r next ⟨h, -, hl, rfl⟩
    exact ⟨hinv.vacate hl, rfl, rfl, length_vacate .., evolves_vacate _ _⟩

end Calls

/-! ## Whole runs -/

section Runs

variable {ledger next : IovaLedger} {lease : IovaLease} {r : IovaRange}

theorem insertReserved_ok (h : ledger.insertReserved r = .ok next) :
    next.aperture = ledger.aperture ∧ next.leases = ledger.leases ∧
      next.activeCount = ledger.activeCount ∧
      ∀ w, w ∈ next.reserved ↔ w = r ∨ w ∈ ledger.reserved := by
  have hposition : ((ledger.reserved.findIdx? fun existing =>
      decide (r.start < existing.start)).getD ledger.reserved.length) ≤ ledger.reserved.length := by
    cases hfind : ledger.reserved.findIdx? fun existing => decide (r.start < existing.start) with
    | none => exact le_rfl
    | some i => exact (List.findIdx?_eq_some_iff_getElem.mp hfind).1.le
  obtain ⟨-, h⟩ := ite_error_eq_ok.mp h
  obtain ⟨-, ⟨⟩⟩ := ite_error_eq_ok.mp h
  exact ⟨rfl, rfl, rfl, fun w => List.mem_insertIdx hposition⟩

/-- A new ledger: the given windows are reserved and nothing is leased. -/
theorem new_ok {slots room : Nat} {aperture : ValidRange} {reserved : List ValidRange}
    (h : new slots room aperture reserved = .ok ledger) :
    Inv ledger ∧ ledger.aperture = aperture ∧ (∀ w ∈ reserved, w.1 ∈ ledger.reserved) ∧
      ledger.leases = empty IovaRange slots := by
  obtain ⟨hslots, h⟩ := ite_error_eq_ok.mp h
  obtain ⟨-, h⟩ := ite_error_eq_ok.mp h
  obtain ⟨hap, hle, hac, hres⟩ := foldlM_eq_ok (I := fun done (b : IovaLedger) =>
    b.aperture = aperture ∧ b.leases = empty IovaRange slots ∧ b.activeCount = 0 ∧
      ∀ w ∈ done, w.1 ∈ b.reserved) h ⟨rfl, rfl, rfl, by simp⟩ fun done range _ a b ha hstep => by
    obtain ⟨hap, hle, hac, hres⟩ := insertReserved_ok hstep
    refine ⟨hap.trans ha.1, hle.trans ha.2.1, hac.trans ha.2.2.1, fun w hw => (hres _).mpr ?_⟩
    obtain hw | hw := List.mem_append.mp hw
    · exact .inr (ha.2.2.2 w hw)
    · exact .inl (List.mem_singleton.mp hw ▸ rfl)
  have hnone : ∀ k s, lookup ledger.leases k ≠ some s := by
    intro k s hk
    rw [hle, lookup_empty] at hk
    cases hk
  refine ⟨⟨?_, fun k s hk => absurd hk (hnone k s), fun k s hk => absurd hk (hnone k s),
    fun k _ s _ _ hk => absurd hk (hnone k s), fun _ _ k s hk => absurd hk (hnone k s), ?_⟩, hap,
      hres, hle⟩
  · rw [hle, empty, List.length_replicate]
    omega
  · rw [hle, hac, live_empty, Set.ncard_empty]

theorem range_eq_ok : ledger.range lease = .ok r ↔
    ∃ h, lease.handle = some h ∧ lookup ledger.leases h = some r := by
  rw [range, ← Option.bind_eq_some_iff]
  cases lease.handle.bind (lookup ledger.leases) <;> simp

theorem Inv.range_valid (hinv : Inv ledger) (hr : ledger.range lease = .ok r) : r.Valid := by
  obtain ⟨h, -, hl⟩ := range_eq_ok.mp hr
  exact hinv.valid h r hl

theorem range_eq_error : ledger.range lease = .error .staleLease ↔
    lease.handle.bind (lookup ledger.leases) = none := by
  rw [range]
  cases lease.handle.bind (lookup ledger.leases) <;> simp

theorem Inv.handle_new (hinv : Inv ledger) (hlt : h.slot < ledger.leases.length) :
    (IovaLease.new h).handle = some h := by
  refine IovaLease.handle_new ?_
  have := hinv.small
  omega

/-- One handle changes, and with it one lease. -/
theorem range_of_lookup (slot : Option IovaRange) (hh : lease.handle = some h)
    (hlook : ∀ k, lookup next.leases k = if k = h then slot else lookup ledger.leases k)
    (other : IovaLease) : next.range other =
      if other = lease then (slot.map .ok).getD (.error .staleLease) else ledger.range other := by
  by_cases hother : other = lease
  · rw [if_pos hother, range, hother, hh, Option.bind_some, hlook, if_pos rfl]
    cases slot <;> rfl
  · rw [if_neg hother, range, range]
    cases hk : other.handle with
    | none => rfl
    | some k =>
      have hne : k ≠ h := by
        rintro rfl
        exact hother ((IovaLease.eq_new_of_handle hk).trans (IovaLease.eq_new_of_handle hh).symm)
      rw [Option.bind_some, Option.bind_some, hlook, if_neg hne]

/-- A reservation adds one lease. -/
theorem range_entered (hinv : Inv ledger) (h : Entered ledger r lease next) (other : IovaLease) :
    next.range other = if other = lease then .ok r else ledger.range other := by
  obtain ⟨-, -, -, h, hv, rfl, rfl⟩ := h
  exact range_of_lookup (some r) (hinv.handle_new (slot_lt_of_vacancy hv))
    (lookup_fill (.inl hv) r) other

theorem range_entered_fresh (hinv : Inv ledger) (h : Entered ledger r lease next) :
    ledger.range lease = .error .staleLease := by
  obtain ⟨-, -, -, h, hv, rfl, rfl⟩ := h
  have hhandle := hinv.handle_new (slot_lt_of_vacancy hv)
  rw [range_eq_error, hhandle, Option.bind_some, lookup_vacancy hv]

/-- A release takes one lease away. -/
theorem Inv.release (hinv : Inv ledger) (hr : ledger.range lease = .ok r) :
    ∃ next, IovaLedger.release lease ledger = .ok r next ∧ Inv next ∧
      ∀ other, next.range other = if other = lease then .error .staleLease
        else ledger.range other := by
  obtain ⟨h, hh, hl⟩ := range_eq_ok.mp hr
  have hrun : IovaLedger.release lease ledger = .ok r { ledger with
      leases := Slots.vacate ledger.leases h
      activeCount := ledger.activeCount - 1 } := by
    simp only [IovaLedger.release, bind_get, hh, hl, orThrow, bind_pure_apply, bind_set, pure_apply]
  exact ⟨_, hrun, hinv.vacate hl, range_of_lookup none hh (lookup_vacate hl)⟩

/-- Who is found by `range` is found by `release`, and nobody else. -/
theorem perform_release_of_stale (h : ledger.range lease = .error .staleLease) :
    ledger.perform (.release lease) = (.error .staleLease, ledger) := by
  rw [range_eq_error] at h
  cases hh : lease.handle with
  | none => simp [perform, Call.run, release, orThrow, bind_apply, hh]
  | some k =>
    rw [hh, Option.bind_some] at h
    simp [perform, Call.run, release, orThrow, bind_apply, hh, h]

/-- A lease that has been released is live before and dead afterwards. -/
theorem perform_release_ok {reply : Reply} (hok : (ledger.perform (.release lease)).1 = .ok reply) :
    (∃ r, ledger.range lease = .ok r) ∧
      (ledger.perform (.release lease)).2.range lease = .error .staleLease := by
  rcases (ensures_release ledger lease).cases with
    ⟨r, next, heq, hrun⟩ | ⟨e, next, heq, -⟩
  · have hperform : ledger.perform (.release lease) = (.ok (.released r), next) := by
      simp [perform, Call.run, bind_apply, heq]
    obtain ⟨h, hh, hl, rfl⟩ := hrun
    refine ⟨⟨r, range_eq_ok.mpr ⟨h, hh, hl⟩⟩, ?_⟩
    rw [hperform, range_eq_error, hh, Option.bind_some]
    exact (lookup_vacate hl h).trans (if_pos rfl)
  · simp [perform, Call.run, bind_apply, heq] at hok

theorem perform_cases (hinv : Inv ledger) (call : Call) :
    (Inv (ledger.perform call).2 ∧ Later ledger (ledger.perform call).2) ∧
      ∀ e, (ledger.perform call).1 = .error e → (ledger.perform call).2 = ledger := by
  rcases (ensures_run hinv call).cases with ⟨a, next, heq, hrun⟩ | ⟨e, next, heq, rfl⟩
  · rw [perform, heq]
    exact ⟨hrun, fun e he => by cases he⟩
  · rw [perform, heq]
    exact ⟨⟨hinv, .refl _⟩, fun _ _ => rfl⟩

theorem run_later (hinv : Inv ledger) (calls : List Call) :
    Inv (final perform ledger calls) ∧ Later ledger (final perform ledger calls) := by
  induction calls generalizing ledger with
  | nil => exact ⟨hinv, .refl _⟩
  | cons call rest ih =>
    obtain ⟨⟨hnext, hlater⟩, -⟩ := perform_cases hinv call
    exact ⟨(ih hnext).1, hlater.trans (ih hnext).2⟩

/-- **A lease that has been given up stays dead.** -/
theorem Later.stale {a b c : IovaLedger} (h₁ : Later a b) (h₂ : Later b c)
    (hlive : a.range lease = .ok r) (hdead : b.range lease = .error .staleLease) :
    c.range lease = .error .staleLease := by
  obtain ⟨h, hh, hl⟩ := range_eq_ok.mp hlive
  rw [range_eq_error, hh, Option.bind_some] at hdead ⊢
  exact h₁.evolves.lookup_eq_none h₂.evolves hl hdead

end Runs

/-! ## Safety -/

/-- The leases that `range` and `release` accept. -/
def liveLeases (ledger : IovaLedger) : Set IovaLease := {lease | ∃ r, ledger.range lease = .ok r}

theorem Inv.ncard_liveLeases {ledger : IovaLedger} (hinv : Inv ledger) :
    ledger.liveLeases.ncard = ledger.activeCount := by
  have hhandle : ∀ h ∈ live ledger.leases, (IovaLease.new h).handle = some h := by
    rintro h ⟨r, hl⟩
    exact hinv.handle_new (slot_lt_of_lookup hl)
  have himage : ledger.liveLeases = IovaLease.new '' live ledger.leases := by
    ext lease
    constructor
    · rintro ⟨r, hr⟩
      obtain ⟨h, hh, hl⟩ := range_eq_ok.mp hr
      exact ⟨h, ⟨r, hl⟩, (IovaLease.eq_new_of_handle hh).symm⟩
    · rintro ⟨h, ⟨r, hl⟩, rfl⟩
      exact ⟨r, range_eq_ok.mpr ⟨h, hhandle h ⟨r, hl⟩, hl⟩⟩
  rw [himage, hinv.count]
  refine Set.InjOn.ncard_image fun h hh k hk heq => ?_
  have := hhandle h hh
  rw [heq, hhandle k hk] at this
  exact (Option.some_inj.mp this).symm

/-- **Leases are safe.**  Whatever is asked of a new ledger: what is leased is aligned, inside the
aperture, apart from the reserved windows and from what else is leased, and counted.  A lease that
was live once and is not any more, and so one that was released, is refused from then on.  A call
that fails changes nothing. -/
theorem leases_safe {slots room : Nat} {aperture : ValidRange} {reserved : List ValidRange}
    {start : IovaLedger} (hnew : new slots room aperture reserved = .ok start)
    (calls : List Call) :
    (∀ lease r, (final perform start calls).range lease = .ok r →
      r.Valid ∧ aperture.1.contains r = true ∧ ∀ w ∈ reserved, w.1.overlaps r = false) ∧
    (∀ lease lease' r r', lease ≠ lease' → (final perform start calls).range lease = .ok r →
      (final perform start calls).range lease' = .ok r' → r.overlaps r' = false) ∧
    (final perform start calls).activeCount = (final perform start calls).liveLeases.ncard ∧
    (∀ pre mid post lease r, calls = pre ++ mid ++ post →
      (final perform start pre).range lease = .ok r →
      (final perform start (pre ++ mid)).range lease = .error .staleLease →
      (final perform start calls).range lease = .error .staleLease ∧
        (final perform start calls).perform (.release lease) =
          (.error .staleLease, final perform start calls)) ∧
    (∀ pre post lease r, calls = pre ++ .release lease :: post →
      ((final perform start pre).perform (.release lease)).1 = .ok (.released r) →
      (final perform start calls).range lease = .error .staleLease ∧
        (final perform start calls).perform (.release lease) =
          (.error .staleLease, final perform start calls)) ∧
    ∀ call e, ((final perform start calls).perform call).1 = .error e →
      ((final perform start calls).perform call).2 = final perform start calls := by
  obtain ⟨hstart, haperture, hreserved, -⟩ := new_ok hnew
  obtain ⟨hinv, hlater⟩ := run_later hstart calls
  have refused : ∀ pre mid post lease r, (final perform start pre).range lease = .ok r →
      (final perform start (pre ++ mid)).range lease = .error .staleLease →
      (final perform start (pre ++ mid ++ post)).range lease = .error .staleLease ∧
        (final perform start (pre ++ mid ++ post)).perform (.release lease) =
          (.error .staleLease, final perform start (pre ++ mid ++ post)) := by
    intro pre mid post lease r hlive hdead
    have hpre := (run_later hstart pre).1
    have hmid := run_later hpre mid
    rw [← final_append] at hmid
    have hpost := (run_later hmid.1 post).2
    rw [← final_append] at hpost
    have hstale := hmid.2.stale hpost hlive hdead
    exact ⟨hstale, perform_release_of_stale hstale⟩
  refine ⟨fun lease r hr => ?_, fun lease lease' r r' hne hr hr' => ?_, hinv.ncard_liveLeases.symm,
    ?_, ?_, fun call e => (perform_cases hinv call).2 e⟩
  · obtain ⟨h, -, hl⟩ := range_eq_ok.mp hr
    refine ⟨hinv.valid h r hl, ?_, fun w hw => ?_⟩
    · rw [← haperture, ← hlater.aperture]
      exact hinv.inside h r hl
    · refine hinv.unreserved w ?_ h r hl
      rw [hlater.reserved]
      exact hreserved w hw
  · obtain ⟨h, hh, hl⟩ := range_eq_ok.mp hr
    obtain ⟨h', hh', hl'⟩ := range_eq_ok.mp hr'
    refine hinv.apart h h' r r' (fun heq => hne ?_) hl hl'
    rw [IovaLease.eq_new_of_handle hh, IovaLease.eq_new_of_handle hh', heq]
  · rintro pre mid post lease r rfl hlive hdead
    exact refused pre mid post lease r hlive hdead
  · rintro pre post lease r rfl hrelease
    obtain ⟨⟨r, hlive⟩, hdead⟩ := perform_release_ok hrelease
    rw [show pre ++ .release lease :: post = pre ++ [.release lease] ++ post by simp]
    refine refused pre [.release lease] post lease r hlive ?_
    rw [final_append]
    exact hdead

/-! A ledger of two slots, with the page after the first one reserved. -/

def sampleAperture : ValidRange := ⟨⟨0x1000, 0x9000⟩, by decide, by decide, by decide⟩

def sampleWindow : ValidRange := ⟨⟨0x2000, 0x3000⟩, by decide, by decide, by decide⟩

def sample : IovaLedger where
  aperture := ⟨0x1000, 0x9000⟩
  reserved := [⟨0x2000, 0x3000⟩]
  leases := [⟨0, none⟩, ⟨0, none⟩]
  activeCount := 0

theorem new_sample : new 2 1 sampleAperture [sampleWindow] = .ok sample := by decide +kernel

def twoPages : IovaRequest := ⟨2, 1, by decide, by decide, by decide, by decide⟩

/-- The lease of the first slot, which is given up and leased again. -/
def recycling : List Call := [.reserve twoPages, .release (.new ⟨0, 1⟩), .reserve twoPages]

theorem recycling_safe :
    (final perform sample recycling).range (.new ⟨0, 2⟩) = .ok ⟨0x3000, 0x5000⟩ ∧
      (final perform sample recycling).range (.new ⟨0, 1⟩) = .error .staleLease ∧
      (final perform sample recycling).activeCount =
        (final perform sample recycling).liveLeases.ncard := by
  obtain ⟨-, -, hcount, -, hreleased, -⟩ := leases_safe new_sample recycling
  have hstale := hreleased [.reserve twoPages] [.reserve twoPages] (.new ⟨0, 1⟩) ⟨0x3000, 0x5000⟩
    rfl (by decide +kernel)
  exact ⟨by decide +kernel, hstale.1, hcount⟩

/-- **A reservation takes the first fit.**  When there is a slot, `reserve` leases the lowest
aligned start at which the request avoids every reserved window and every lease, and reports that
the address space is exhausted exactly when there is none. -/
theorem reserve_takes_first_fit (ledger : IovaLedger) (request : IovaRequest) {h : Handle}
    (hslot : vacancy ledger.leases = some h) :
    (∀ lease next, reserve request ledger = .ok lease next ↔
      lease = .new h ∧ ∃ r, next = ledger.enter h r ∧
        r.stop.toNat = r.start.toNat + request.pageCount.toNat * 4096 ∧
        IsLeast (ledger.fits request) r.start.toNat) ∧
    (reserve request ledger = .error .addressSpaceExhausted ledger ↔ ledger.fits request = ∅) := by
  obtain ⟨r, hr, hstop, hleast⟩ | ⟨hr, hnone⟩ := firstFit_spec ledger request
  · rw [show reserve request ledger = .ok (.new h) (ledger.enter h r) by
      simp [reserve, hslot, hr, orThrow, propagate, bind_apply]
      rfl]
    refine ⟨fun lease next => ⟨?_, ?_⟩, by simp, fun hnone => ?_⟩
    · rintro ⟨⟩
      exact ⟨rfl, r, rfl, hstop, hleast⟩
    · rintro ⟨rfl, s, rfl, hstop', hleast'⟩
      obtain rfl : r = s := by
        have hstart := hleast.unique hleast'
        cases r
        cases s
        simp only [IovaRange.mk.injEq, ← UInt64.toNat_inj] at *
        omega
      rfl
    · have hmem := hleast.1
      rw [hnone] at hmem
      exact hmem.elim
  · rw [show reserve request ledger = .error .addressSpaceExhausted ledger by
      simp [reserve, hslot, hr, orThrow, propagate, bind_apply]]
    refine ⟨fun lease next => ⟨by rintro ⟨⟩, ?_⟩, by simpa using hnone⟩
    rintro ⟨-, r, -, -, hleast⟩
    rw [hnone] at hleast
    exact hleast.1.elim

theorem sample_first_fit : vacancy sample.leases = some ⟨0, 1⟩ ∧
    IsLeast (sample.fits twoPages) 0x3000 := by
  have hslot : vacancy sample.leases = some ⟨0, 1⟩ := by decide +kernel
  obtain ⟨-, r, hnext, -, hleast⟩ :=
    ((reserve_takes_first_fit sample twoPages hslot).1 (.new ⟨0, 1⟩)
      (sample.enter ⟨0, 1⟩ ⟨0x3000, 0x5000⟩)).1 rfl
  have hr : r = ⟨0x3000, 0x5000⟩ := by
    have := congrArg (fun ledger => lookup ledger.leases ⟨0, 1⟩) hnext
    simpa [enter, lookup, fill, sample] using this.symm
  rw [hr] at hleast
  exact ⟨hslot, hleast⟩

end IovaLedger

end Sisyphus.Iommu
