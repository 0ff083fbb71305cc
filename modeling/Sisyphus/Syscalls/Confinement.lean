import Sisyphus.Syscalls.UserCopy

/-!
# User copies are confined

`LeadsTo m root write user physical` is the meaning of a user address: the four-level walk, as the
processor does it, from the entry of the root down to a byte, through entries that are present and
open to the user (and to writes) at every level, below the kernel half and past no huge page.

What the two copies do is said byte by byte.  After any number of turns, some number of bytes, in
order, have been copied between the buffer and the physical bytes that the addresses lead to, and
nothing else has been touched; a copy that succeeds has done so for the whole range.  Two pages of
the range may lead to the same frame, so what `copyToUser` leaves behind is a sequence of stores.
-/

set_option autoImplicit false

namespace Sisyphus.Syscalls

open Bytes Fallible List UInt64 Words

/-! ## What a user address means -/

/-- The entry with the given index of a table. -/
def entryAt (m : Memory) (table index : Nat) : UInt64 := readWord m (table + 8 * index)

/-- The page or table that an entry points to. -/
def frameOf (entry : UInt64) : Nat := (entry &&& pageAddressMask).toNat

/-- The entry is present and open to the user, and to writes if there are any. -/
structure Permits (write : Bool) (entry : UInt64) : Prop where
  present : entry &&& entryPresent ≠ 0
  user : entry &&& entryUser ≠ 0
  writable : write = true → entry &&& entryWritable ≠ 0

/-- The walk from a table along a list of indices ends at a page. -/
inductive Leads (m : Memory) (write : Bool) : Nat → List Nat → Nat → Prop
  | page {table index : Nat} (h : Permits write (entryAt m table index)) :
      Leads m write table [index] (frameOf (entryAt m table index))
  | table {table index page : Nat} {rest : List Nat} (h : Permits write (entryAt m table index))
      (hhuge : entryAt m table index &&& entryHuge = 0)
      (hrest : Leads m write (frameOf (entryAt m table index)) rest page) :
      Leads m write table (index :: rest) page

/-- The indices of a user address, from the root down. -/
def indices (user : Nat) : List Nat :=
  [user / 2 ^ 39 % 512, user / 2 ^ 30 % 512, user / 2 ^ 21 % 512, user / 2 ^ 12 % 512]

/-- The user address leads to a byte of physical memory. -/
structure LeadsTo (m : Memory) (root : UInt64) (write : Bool) (user physical : Nat) : Prop where
  lowerHalf : user < 2 ^ 47
  walk : ∃ page, Leads m write root.toNat (indices user) page ∧ physical = page + user % 4096

variable {m : Memory} {root : UInt64} {write : Bool} {user : Nat}

/-- Neighbours in a page lead to neighbours. -/
theorem LeadsTo.add {physical i : Nat} (h : LeadsTo m root write user physical)
    (hi : user % 4096 + i < 4096) :
    LeadsTo m root write (user + i) (physical + i) := by
  obtain ⟨page, hleads, rfl⟩ := h.walk
  have hlower := h.lowerHalf
  have hsame : (user + i) / 2 ^ 12 = user / 2 ^ 12 := by omega
  have hindices : indices (user + i) = indices user := by
    have h21 : (user + i) / 2 ^ 21 = user / 2 ^ 21 := by omega
    have h30 : (user + i) / 2 ^ 30 = user / 2 ^ 30 := by omega
    have h39 : (user + i) / 2 ^ 39 = user / 2 ^ 39 := by omega
    rw [indices, indices, hsame, h21, h30, h39]
  exact ⟨by omega, page, by rwa [hindices], by omega⟩

variable {p q : Nat}

theorem Leads.unique {table : Nat} {path : List Nat} (hp : Leads m write table path p)
    (hq : Leads m write table path q) : p = q := by
  induction hp with
  | page h =>
    cases hq with
    | page h' => rfl
    | table h' hhuge hrest => cases hrest
  | table h hhuge hrest ih =>
    cases hq with
    | page h' => cases hrest
    | table h' hhuge' hrest' => exact ih hrest'

/-- An address leads to one byte at most. -/
theorem LeadsTo.unique (hp : LeadsTo m root write user p) (hq : LeadsTo m root write user q) :
    p = q := by
  obtain ⟨page, hpage, rfl⟩ := hp.walk
  obtain ⟨page', hpage', rfl⟩ := hq.walk
  rw [hpage.unique hpage']

/-! ## The words of the source -/

theorem toNat_offset (address : UInt64) : (address &&& 0xfff).toNat = address.toNat % 4096 := by
  exact Nat.and_two_pow_sub_one_eq_mod address.toNat 12

theorem tableIndex_eq (address shift : UInt64) :
    tableIndex address shift = address.toNat / 2 ^ (shift.toNat % 64) % 512 := by
  rw [tableIndex, UInt64.toNat_and, UInt64.toNat_shiftRight, Nat.shiftRight_eq_div_pow]
  exact Nat.and_two_pow_sub_one_eq_mod _ 9

theorem indices_toNat (address : UInt64) :
    indices address.toNat = [tableIndex address 39, tableIndex address 30, tableIndex address 21] ++
      [tableIndex address 12] := by
  simp only [tableIndex_eq]
  rfl

/-- The frame and the offset do not overlap. -/
theorem toNat_physical (leaf address : UInt64) :
    ((leaf &&& pageAddressMask) ||| (address &&& 0xfff)).toNat =
      frameOf leaf + address.toNat % 4096 := by
  have haligned : frameOf leaf % 4096 = 0 := by
    rw [frameOf, ← toNat_offset, UInt64.and_assoc]
    rw [show pageAddressMask &&& 0xfff = 0 by decide, UInt64.and_zero]
    rfl
  rw [UInt64.toNat_or, toNat_offset]
  change frameOf leaf ||| address.toNat % 4096 = _
  have hframe : frameOf leaf = 2 ^ 12 * (frameOf leaf / 2 ^ 12) := by omega
  rw [hframe]
  exact (Nat.two_pow_add_eq_or_of_lt (Nat.mod_lt _ (by norm_num)) _).symm

variable {physical : UInt64}

theorem directMapped_of_directMapAddress {pointer : UInt64}
    (h : directMapAddress physical = some pointer) : directMapped pointer = physical.toNat := by
  rw [directMapAddress, Option.ite_none_left_eq_some] at h
  rw [directMapped, ← checkedAdd_eq_some.mp h.2, Nat.add_sub_cancel_left]

variable {table entry : UInt64}

theorem readActiveEntry_eq_some {index : Nat} (h : readActiveEntry m table index = some entry) :
    entry = entryAt m table.toNat index := by
  simp only [readActiveEntry, Option.ite_none_left_eq_some, Option.bind_eq_bind,
    Option.bind_eq_some_iff] at h
  obtain ⟨hcheck, physical, hphysical, _, -, -, pointer, hpointer, h⟩ := h
  have hindex : (ofNat (index * 8)).toNat = index * 8 :=
    toNat_ofNat_of_lt' (show index * 8 < 2 ^ 64 by omega)
  have hsum := checkedAdd_eq_some.mp hphysical
  rw [hindex] at hsum
  rw [← Option.some.inj h, directMapped_of_directMapAddress hpointer, ← hsum, entryAt, Nat.mul_comm]

/-! ## The walk of the source -/

theorem permits_of_checkEntry (h : checkEntry write entry = .ok ()) : Permits write entry := by
  rw [checkEntry, ite_error_eq_ok, ite_error_eq_ok, Classical.not_not] at h
  obtain ⟨hboth, hwrite, -⟩ := h
  refine ⟨?_, ?_, fun hw hz => hwrite ⟨hw, hz⟩⟩
  · rw [show entryPresent = (entryPresent ||| entryUser) &&& entryPresent by decide,
      ← UInt64.and_assoc, hboth]
    decide
  · rw [show entryUser = (entryPresent ||| entryUser) &&& entryUser by decide,
      ← UInt64.and_assoc, hboth]
    decide

theorem nextTable_eq_ok {next : UInt64} (h : nextTable write entry = .ok next) :
    Permits write entry ∧ entry &&& entryHuge = 0 ∧ next = entry &&& pageAddressMask := by
  simp only [nextTable, except_bind_eq_ok, ite_error_eq_ok] at h
  obtain ⟨_, hcheck, hhuge, h⟩ := h
  exact ⟨permits_of_checkEntry hcheck, not_not.mp hhuge, (Except.ok.inj h).symm⟩

theorem entryOf_eq_ok {index : Nat} (h : entryOf (readActiveEntry m) table index = .ok entry) :
    entry = entryAt m table.toNat index := by
  rw [entryOf] at h
  rcases hread : readActiveEntry m table index with _ | e
  · rw [hread] at h
    cases h
  · rw [hread] at h
    cases h
    exact readActiveEntry_eq_some hread

/-- The loop over the upper levels, in front of a walk through the rest. -/
theorem Leads.of_descend {last : UInt64} {upper rest : List Nat} {page : Nat}
    (h : descend (readActiveEntry m) write table upper = .ok last)
    (hrest : Leads m write last.toNat rest page) :
      Leads m write table.toNat (upper ++ rest) page := by
  induction upper generalizing table with
  | nil =>
    cases h
    exact hrest
  | cons index upper ih =>
    rw [descend, except_bind_eq_ok] at h
    obtain ⟨entry, hentry, h⟩ := h
    rw [except_bind_eq_ok] at h
    obtain ⟨next, hnext, h⟩ := h
    obtain ⟨hpermits, hhuge, rfl⟩ := nextTable_eq_ok hnext
    obtain rfl := entryOf_eq_ok hentry
    exact .table hpermits hhuge (ih h)

/-- **A translation is a walk.** -/
theorem leadsTo_of_translate {address : UInt64}
    (h : translateUserAddressWithAccess (readActiveEntry m) root address write = .ok physical) :
    LeadsTo m root write address.toNat physical.toNat := by
  simp only [translateUserAddressWithAccess, ite_error_eq_ok, except_bind_eq_ok] at h
  obtain ⟨hvalid, -, table, htable, leaf, hleaf, _, hcheck, ⟨⟩⟩ := h
  obtain rfl := entryOf_eq_ok hleaf
  refine ⟨?_, _, ?_, toNat_physical _ address⟩
  · simp only [not_or, Bool.not_eq_false, validUserControlAddress, Bool.and_eq_true,
      decide_eq_true_eq] at hvalid
    exact lt_iff_toNat_lt.mp hvalid.2.2.2
  · rw [indices_toNat]
    exact .of_descend htable (.page (permits_of_checkEntry hcheck))

/-! ## Spans -/

variable {length : Nat} {bytes : List Nat}

theorem spanAt_eq_ok {span : Span} (h : spanAt physical length = .ok span) :
    directMapped span.pointer = physical.toNat ∧ span.length = length := by
  rw [spanAt] at h
  split at h
  · cases h
  split at h
  · cases h
  split at h
  · cases h
  next hpointer =>
  cases h
  exact ⟨directMapped_of_directMapAddress hpointer, rfl⟩

/-- **A span is what its addresses lead to**, and not empty. -/
theorem nextSpan_eq_ok {address : UInt64} {remaining : Nat}
    {span : Span} (hremaining : 0 < remaining)
    (h : nextSpan (translateUserAddressWithAccess (readActiveEntry m) root address write)
      address remaining = .ok span) :
    0 < span.length ∧ span.length ≤ remaining ∧ ∀ i < span.length,
      LeadsTo m root write (address.toNat + i) (directMapped span.pointer + i) := by
  rw [nextSpan, except_bind_eq_ok] at h
  obtain ⟨physical, hphysical, h⟩ := h
  obtain ⟨hpointer, hlength⟩ := spanAt_eq_ok h
  rw [toNat_offset, pageSize] at hlength
  refine ⟨by omega, by omega, fun i hi => ?_⟩
  rw [hpointer]
  exact (leadsTo_of_translate hphysical).add (by omega)

/-! ## Bytes in order -/

/-- The addresses from `user` on lead to the given bytes. -/
def Leading (m : Memory) (root : UInt64) (write : Bool) (user : Nat) (bytes : List Nat) : Prop :=
  ∀ i p, bytes[i]? = some p → LeadsTo m root write (user + i) p

theorem leading_nil : Leading m root write user [] := by
  intro i p h
  cases h

theorem Leading.append {start n : Nat} (h : Leading m root write user bytes)
    (hspan : ∀ i < n, LeadsTo m root write (user + bytes.length + i) (start + i)) :
    Leading m root write user (bytes ++ range' start n) := by
  intro i p hp
  rcases Nat.lt_or_ge i bytes.length with hlt | hge
  · rw [getElem?_append_left hlt] at hp
    exact h i p hp
  · rw [getElem?_append_right hge, getElem?_eq_some_iff] at hp
    obtain ⟨hi, rfl⟩ := hp
    rw [length_range'] at hi
    have hlead := hspan (i - bytes.length) hi
    rw [getElem_range', Nat.one_mul]
    rwa [Nat.add_assoc, Nat.add_sub_cancel' hge] at hlead

/-- Single bytes stored one after the other. -/
def store (m : Memory) (stores : List (Nat × UInt8)) : Memory :=
  stores.foldl (fun m cell => Function.update m cell.1 cell.2) m

theorem store_of_notMem {stores : List (Nat × UInt8)} (h : ∀ cell ∈ stores, cell.1 ≠ p) :
    store m stores p = m p := by
  induction stores generalizing m with
  | nil => rfl
  | cons cell rest ih =>
    rw [store, foldl_cons, ← store, ih fun c hc => h c (mem_cons_of_mem _ hc),
      Function.update_of_ne (h cell mem_cons_self).symm]

theorem patch_eq_store (m : Memory) (start : Nat) (bytes : List UInt8) :
    patch m start bytes = store m ((range' start bytes.length).zip bytes) := by
  induction bytes generalizing m start with
  | nil => rfl
  | cons b rest ih => rw [patch, ih, length_cons, range'_succ, zip_cons_cons]; rfl

theorem zip_append_right (left right : List Nat) (bytes : List UInt8) :
    (left ++ right).zip bytes = left.zip bytes ++ right.zip (bytes.drop left.length) := by
  induction left generalizing bytes with
  | nil => rfl
  | cons p left ih =>
    cases bytes with
    | nil => simp
    | cons b bytes => simp [ih]

theorem zip_take_length (left : List Nat) (bytes : List UInt8) :
    left.zip (bytes.take left.length) = left.zip bytes := by
  induction left generalizing bytes with
  | nil => rfl
  | cons p left ih =>
    cases bytes with
    | nil => rfl
    | cons b bytes => simp [ih]

/-- One more span. -/
theorem store_span (m : Memory) (bytes : List Nat) (source : List UInt8) (start n : Nat)
    (h : bytes.length + n ≤ source.length) :
    patch (store m (bytes.zip source)) start ((source.drop bytes.length).take n) =
      store m ((bytes ++ range' start n).zip source) := by
  have hlength : ((source.drop bytes.length).take n).length = n := by
    rw [length_take, length_drop]
    omega
  have hzip := zip_take_length (range' start n) (source.drop bytes.length)
  rw [length_range'] at hzip
  rw [patch_eq_store, hlength, hzip, zip_append_right, store, store, store, foldl_append]

/-! ## Reading -/

theorem toNat_userAddress {user : UInt64} {copied : Nat} (hrange : user.toNat + length ≤ 2 ^ 47)
    (hcopied : copied ≤ length) : (user + UInt64.ofNat copied).toNat = user.toNat + copied := by
  have hof : (UInt64.ofNat copied).toNat = copied :=
    UInt64.toNat_ofNat_of_lt' (show copied < 2 ^ 64 by omega)
  rw [UInt64.toNat_add, hof, Nat.mod_eq_of_lt (by omega)]

theorem le_of_invalidRange {user : UInt64} (h : invalidRange user length = false) :
    user.toNat + length ≤ 2 ^ 47 := by
  simp only [invalidRange, Bool.or_eq_false_iff, decide_eq_false_iff_not, Nat.not_lt] at h
  exact h.2

section Reading

variable {m : Memory} {root source : UInt64} {target : List UInt8}

/-- A copy goes through to the end, or stops at a byte that it cannot reach: `after` says what is
there when some bytes have been copied. -/
def Copies {ε σ : Type} (x : EStateM ε σ Unit) (s : σ) (m : Memory) (root : UInt64) (write : Bool)
    (user : UInt64) (length : Nat) (after : List Nat → σ) : Prop :=
  Ensures x s
    (fun _ t => ∃ all, all.length = length ∧ Leading m root write user.toNat all ∧ t = after all)
    (fun _ t => ∃ done, done.length < length ∧ Leading m root write user.toNat done ∧
      t = after done)

/-- The buffer after the bytes in `bytes` have been copied into it. -/
def filled (m : Memory) (target : List UInt8) (bytes : List Nat) : List UInt8 :=
  bytes.map m ++ target.drop bytes.length

theorem length_filled (h : bytes.length ≤ target.length) :
    (filled m target bytes).length = target.length := by
  rw [filled, length_append, length_map, length_drop]
  omega

/-- One more span. -/
theorem filled_span (m : Memory) (target : List UInt8) (bytes : List Nat) (start n : Nat) :
    (filled m target bytes).take bytes.length ++ slice m start n ++
      (filled m target bytes).drop (bytes.length + n) =
        filled m target (bytes ++ range' start n) := by
  have htake : (filled m target bytes).take bytes.length = bytes.map m := by
    rw [filled, take_left' (length_map m)]
  have hdrop : (filled m target bytes).drop (bytes.length + n) =
      target.drop (bytes.length + n) := by
    rw [filled, ← drop_drop, drop_left' (length_map m), drop_drop]
  rw [htake, hdrop, filled, map_append, length_append, length_range', slice, range'_eq_map_range,
    map_map]
  rfl

/-- **The loop of `copyFromUser`**, when some bytes have been copied already. -/
theorem ensures_copyFromUserLoop (hrange : source.toNat + target.length ≤ 2 ^ 47) (turns : Nat)
    (bytes : List Nat) (hbytes : Leading m root false source.toNat bytes)
    (hle : bytes.length ≤ target.length) (hturns : target.length ≤ bytes.length + turns) :
    Copies (copyFromUserLoop m root source turns bytes.length) (filled m target bytes)
      m root false source target.length (filled m target) := by
  induction turns generalizing bytes with
  | zero => exact ⟨bytes, by omega, hbytes, rfl⟩
  | succ turns ih =>
    simp only [Copies, copyFromUserLoop, ensures_rules, length_filled hle]
    by_cases hmore : bytes.length < target.length
    · simp only [if_pos hmore, ensures_rules]
      refine ⟨fun e _ => ⟨bytes, hmore, hbytes, rfl⟩, fun span hspan => ?_⟩
      obtain ⟨hpos, hlength, hleads⟩ := nextSpan_eq_ok (by omega) hspan
      rw [toNat_userAddress hrange hle] at hleads
      rw [filled_span]
      have hnext : (bytes ++ range' (directMapped span.pointer) span.length).length =
          bytes.length + span.length := by
        rw [length_append, length_range']
      rw [← hnext]
      exact ih _ (hbytes.append hleads) (by omega) (by omega)
    · rw [if_neg hmore, ensures_pure]
      exact ⟨bytes, by omega, hbytes, rfl⟩

theorem ensures_copyFromUser (m : Memory) (root source : UInt64) (target : List UInt8) :
    Copies (copyFromUser m root source) target m root false source target.length
      (filled m target) := by
  simp only [Copies, copyFromUser, ensures_rules]
  by_cases hempty : target = []
  · subst hempty
    exact ⟨[], rfl, leading_nil, rfl⟩
  · have hpos : 0 < target.length := length_pos_of_ne_nil hempty
    simp only [if_neg hempty, ensures_rules]
    refine ⟨fun _ => ⟨[], hpos, leading_nil, rfl⟩, fun hvalid => ?_⟩
    exact ensures_copyFromUserLoop (le_of_invalidRange hvalid) _ [] leading_nil (Nat.zero_le _)
      (by simp)

/-- Where the addresses of a range lead is the same in both memories. -/
def SameWalks (m m' : Memory) (root : UInt64) (write : Bool) (user : UInt64) (length : Nat) :
    Prop :=
  ∀ i < length, translateUserAddressWithAccess (readActiveEntry m') root (user + UInt64.ofNat i)
    write = translateUserAddressWithAccess (readActiveEntry m) root (user + UInt64.ofNat i) write

variable {m' : Memory}

/-- The loop reads no byte but those that its addresses lead to. -/
theorem copyFromUserLoop_congr {length : Nat} (hrange : source.toNat + length ≤ 2 ^ 47)
    (hwalks : SameWalks m m' root false source length)
    (hsame : ∀ i < length, ∀ p, LeadsTo m root false (source.toNat + i) p → m' p = m p)
    (turns copied : Nat) (t : List UInt8) (hlength : t.length = length) :
    copyFromUserLoop m' root source turns copied t =
      copyFromUserLoop m root source turns copied t := by
  induction turns generalizing copied t with
  | zero => rfl
  | succ turns ih =>
    simp only [copyFromUserLoop, bind_get]
    by_cases hmore : copied < t.length
    · have hwalk : translateUserAddress (readActiveEntry m') root (source + ofNat copied) =
          translateUserAddress (readActiveEntry m) root (source + ofNat copied) :=
        hwalks copied (by omega)
      simp only [if_pos hmore, hwalk]
      rcases hspan : nextSpan (translateUserAddress (readActiveEntry m) root
        (source + ofNat copied)) (source + ofNat copied) (t.length - copied) with
          _ | span
      · rfl
      · obtain ⟨-, hle, hleads⟩ := nextSpan_eq_ok (by omega) hspan
        rw [toNat_userAddress hrange (by omega)] at hleads
        have hslice : slice m' (directMapped span.pointer) span.length =
            slice m (directMapped span.pointer) span.length :=
          slice_congr fun i hi => hsame (copied + i) (by omega) _
            (by rw [← Nat.add_assoc]; exact hleads i hi)
        simp only [propagate, bind_pure_apply, bind_set, hslice]
        refine ih _ _ ?_
        simp only [length_append, length_take, length_slice, length_drop]
        omega
    · simp only [if_neg hmore]

theorem copyFromUser_congr (hwalks : SameWalks m m' root false source target.length)
    (hsame : ∀ i < target.length, ∀ p, LeadsTo m root false (source.toNat + i) p → m' p = m p) :
    copyFromUser m' root source target = copyFromUser m root source target := by
  simp only [copyFromUser, bind_get]
  by_cases hempty : target = []
  · simp only [if_pos hempty]
  · simp only [if_neg hempty]
    rcases hvalid : invalidRange source target.length with _ | _
    · exact copyFromUserLoop_congr (le_of_invalidRange hvalid) hwalks hsame _ _ target rfl
    · rfl

end Reading

/-! ## Writing -/

section Writing

variable {m : Memory} {root target : UInt64} {source : List UInt8}

/-- The page tables are not among what is written: wherever some of the bytes are stored that the
range leads to, the range leads where it led. -/
def TablesKept (m : Memory) (root target : UInt64) (source : List UInt8) : Prop :=
  ∀ done, Leading m root true target.toNat done →
    SameWalks m (store m (done.zip source)) root true target source.length

/-- **The loop of `copyToUser`**, when some bytes have been copied already. -/
theorem ensures_copyToUserLoop (hkept : TablesKept m root target source)
    (hrange : target.toNat + source.length ≤ 2 ^ 47) (turns : Nat) (bytes : List Nat)
    (hbytes : Leading m root true target.toNat bytes) (hle : bytes.length ≤ source.length)
    (hturns : source.length ≤ bytes.length + turns) :
    Copies (copyToUserLoop root target source turns bytes.length) (store m (bytes.zip source))
      m root true target source.length fun done => store m (done.zip source) := by
  induction turns generalizing bytes with
  | zero =>
    exact ⟨bytes, by omega, hbytes, rfl⟩
  | succ turns ih =>
    rw [Copies, copyToUserLoop]
    by_cases hmore : bytes.length < source.length
    · have hwalk : translateUserAddressForWrite (readActiveEntry (store m (bytes.zip source))) root
          (target + ofNat bytes.length) =
            translateUserAddressForWrite (readActiveEntry m) root
              (target + ofNat bytes.length) :=
        hkept bytes hbytes bytes.length hmore
      simp only [if_pos hmore, ensures_rules, hwalk]
      refine ⟨fun e _ => ⟨bytes, hmore, hbytes, rfl⟩, fun span hspan => ?_⟩
      obtain ⟨hpos, hlength, hleads⟩ := nextSpan_eq_ok (by omega) hspan
      rw [toNat_userAddress hrange hle] at hleads
      have hnext : (bytes ++ range' (directMapped span.pointer) span.length).length =
          bytes.length + span.length := by
        rw [length_append, length_range']
      rw [store_span m bytes source _ _ (by omega), ← hnext]
      exact ih _ (hbytes.append hleads) (by omega) (by omega)
    · rw [if_neg hmore, ensures_pure]
      exact ⟨bytes, by omega, hbytes, rfl⟩

theorem ensures_copyToUser (hkept : TablesKept m root target source) :
    Copies (copyToUser root target source) m m root true target source.length
      fun done => store m (done.zip source) := by
  rw [Copies, copyToUser]
  by_cases hempty : source = []
  · subst hempty
    exact ⟨[], rfl, leading_nil, rfl⟩
  · have hpos : 0 < source.length := length_pos_of_ne_nil hempty
    simp only [if_neg hempty, ensures_rules]
    refine ⟨fun _ => ⟨[], hpos, leading_nil, rfl⟩, fun hvalid => ?_⟩
    exact ensures_copyToUserLoop hkept (le_of_invalidRange hvalid) _ [] leading_nil (Nat.zero_le _)
      (by simp)

end Writing

/-! ## Both copies -/

theorem store_zip_of_notMem {source : List UInt8} (h : p ∉ bytes) :
    store m (bytes.zip source) p = m p :=
  store_of_notMem fun _ hcell heq => h (heq ▸ (of_mem_zip hcell).1)

/-- **User copies are confined.**  Whatever the page tables hold, for every address and length:

* `copyFromUser` fills the buffer, in order, with the bytes that the addresses lead to, as far as
  it gets, and to the end if it succeeds;
* it reads nothing else: its result and the buffer are the same in every memory that has the same
  walks and the same bytes at their ends;
* `copyToUser` stores the buffer, in order, at the bytes that the addresses lead to with write
  access, as far as it gets, and to the end if it succeeds; no other byte changes. -/
theorem user_copies_are_confined (m : Memory) (root : UInt64) :
    (∀ (source : UInt64) (target : List UInt8), Ensures (copyFromUser m root source) target
        (fun _ t => ∃ all, all.length = target.length ∧ Leading m root false source.toNat all ∧
          t = all.map m)
        (fun _ t => ∃ done, done.length < target.length ∧ Leading m root false source.toNat done ∧
          t = done.map m ++ target.drop done.length)) ∧
    (∀ (source : UInt64) (target : List UInt8) (m' : Memory),
      SameWalks m m' root false source target.length →
      (∀ i < target.length, ∀ p, LeadsTo m root false (source.toNat + i) p → m' p = m p) →
      copyFromUser m' root source target = copyFromUser m root source target) ∧
    (∀ (target : UInt64) (source : List UInt8), TablesKept m root target source →
      Ensures (copyToUser root target source) m
        (fun _ m' => ∃ all, all.length = source.length ∧ Leading m root true target.toNat all ∧
          m' = store m (all.zip source) ∧ ∀ p ∉ all, m' p = m p)
        (fun _ m' => ∃ done, done.length < source.length ∧ Leading m root true target.toNat done ∧
          m' = store m (done.zip source) ∧ ∀ p ∉ done, m' p = m p)) := by
  refine ⟨fun source target => ?_, fun source target m' => copyFromUser_congr, ?_⟩
  · refine (ensures_copyFromUser m root source target).imp_ok ?_
    rintro _ _ ⟨all, hlength, hleads, rfl⟩
    refine ⟨all, hlength, hleads, ?_⟩
    rw [filled, hlength, List.drop_length, List.append_nil]
  intro target source hkept
  refine (ensures_copyToUser hkept).mono ?_ ?_
  · rintro _ _ ⟨all, hlength, hleads, rfl⟩
    exact ⟨all, hlength, hleads, rfl, fun p hp => store_zip_of_notMem hp⟩
  · rintro _ _ ⟨done, hlength, hleads, rfl⟩
    exact ⟨done, hlength, hleads, rfl, fun p hp => store_zip_of_notMem hp⟩

/-- Tables at `0x1000` to `0x4000` that map the user pages `0x1000` and `0x2000` to the frames
`0x5000` and `0x7000`, writable. -/
def sampleMemory : Memory := fun p =>
  if p = 0x1000 ∨ p = 0x2000 ∨ p = 0x3000 ∨ p = 0x4008 ∨ p = 0x4010 then 7
  else if p = 0x1001 then 0x20
  else if p = 0x2001 then 0x30
  else if p = 0x3001 then 0x40
  else if p = 0x4009 then 0x50
  else if p = 0x4011 then 0x70
  else 0

/-- What two bytes across the boundary of the pages are stored at, as far as they get. -/
def sampleStores : List (List (Nat × UInt8)) := [[], [(0x5fff, 9)], [(0x5fff, 9), (0x7000, 8)]]

theorem zip_mem_sampleStores {done : List Nat} (h : Leading sampleMemory 0x1000 true 0x1fff done) :
    done.zip [9, 8] ∈ sampleStores := by
  have hleads : ∀ address physical, translateUserAddressWithAccess (readActiveEntry sampleMemory)
      0x1000 address true = .ok physical →
      LeadsTo sampleMemory 0x1000 true address.toNat physical.toNat := fun _ _ =>
    leadsTo_of_translate
  have hfirst : LeadsTo sampleMemory 0x1000 true 0x1fff 0x5fff :=
    hleads 0x1fff 0x5fff (by decide +kernel)
  have hsecond : LeadsTo sampleMemory 0x1000 true 0x2000 0x7000 :=
    hleads 0x2000 0x7000 (by decide +kernel)
  match done with
  | [] => decide
  | [p] =>
    obtain rfl := (h 0 p rfl).unique hfirst
    decide
  | p :: q :: rest =>
    obtain rfl := (h 0 p rfl).unique hfirst
    obtain rfl := (h 1 q rfl).unique hsecond
    simp [sampleStores]

theorem sampleMemory_tablesKept : TablesKept sampleMemory 0x1000 0x1fff [9, 8] := by
  have hall : ∀ stores ∈ sampleStores,
      SameWalks sampleMemory (store sampleMemory stores) 0x1000 true 0x1fff 2 := by
    unfold SameWalks
    decide +kernel
  exact fun done hdone => hall _ (zip_mem_sampleStores hdone)

/-- Two bytes, written across the boundary of the two pages. -/
theorem sampleMemory_written : TablesKept sampleMemory 0x1000 0x1fff [9, 8] ∧
    Ensures (copyToUser 0x1000 0x1fff [9, 8]) sampleMemory
      (fun _ m' => m' = store sampleMemory [(0x5fff, 9), (0x7000, 8)])
      fun _ m' => ∃ stores ∈ sampleStores, m' = store sampleMemory stores := by
  refine ⟨sampleMemory_tablesKept, ?_⟩
  refine ((user_copies_are_confined sampleMemory 0x1000).2.2 0x1fff [9, 8]
    sampleMemory_tablesKept).mono ?_ ?_
  · rintro _ _ ⟨all, hlength, hleads, rfl, -⟩
    obtain ⟨p, q, rfl⟩ := List.length_eq_two.mp hlength
    have hmem := zip_mem_sampleStores hleads
    simp [sampleStores] at hmem
    rw [zip_cons_cons, zip_cons_cons, zip_nil_left]
    simp [hmem]
  · rintro _ _ ⟨done, -, hleads, rfl, -⟩
    exact ⟨_, zip_mem_sampleStores hleads, rfl⟩

end Sisyphus.Syscalls
