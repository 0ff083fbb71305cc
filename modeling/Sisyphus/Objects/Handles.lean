import Sisyphus.Objects.Table

/-!
# What a handle confers

The reference count of a slot is the number of handles that the holder has to it, and a slot changes
its generation only while there are none.  So a live handle always finds its object, whatever the
generation counter has done, and the slot comes free with the last of them.

`Sound` is that invariant, with the rights along the line of each handle.  One lemma for each call
says that it keeps it.
-/

set_option autoImplicit false

namespace Sisyphus.Objects

open Bool Fallible Function List Run

variable {capacity : Nat} {slots slots' : ObjectTable} {handle handle' : Handle}
variable {kind : ObjectKind} {payload : UInt64} {rights : Rights}

/-! ## What a successful call did

`Names` is what `validate_slot` checks, on which every call but `allocate` relies. -/

theorem Rights.contains_trans {a b c : Rights} (hab : a.contains b = true)
    (hbc : b.contains c = true) : a.contains c = true := by
  simp only [Rights.contains, beq_iff_eq] at hab hbc ⊢
  rw [← hbc, ← UInt16.and_assoc, hab]

/-- The slot that a handle names is occupied and is the one the handle was made for. -/
structure Names (capacity : Nat) (slots : ObjectTable) (handle : Handle) : Prop where
  inside : handle.slot.toNat < capacity
  occupied : (slots handle.slot.toNat).occupied = true
  generation : (slots handle.slot.toNat).generation = handle.generation
  kind : (slots handle.slot.toNat).kind = handle.kind

theorem validateSlot_eq_ok {i : Nat} : slots.validateSlot capacity handle = .ok i ↔
    Names capacity slots handle ∧ handle.slot.toNat = i := by
  simp only [ObjectTable.validateSlot, except_bind_eq_ok, reject_eq_ok, decide_eq_false_iff_not,
    not_le, or_eq_false_iff, not_eq_false', bne_eq_false_iff_eq]
  constructor
  · rintro ⟨_, hinside, _, ⟨⟨hocc, hgen⟩, hkind⟩, hi⟩
    cases hi
    exact ⟨⟨hinside, hocc, hgen, hkind⟩, rfl⟩
  · rintro ⟨h, rfl⟩
    exact ⟨(), h.inside, (), ⟨⟨h.occupied, h.generation⟩, h.kind⟩, rfl⟩

theorem allocate_eq_ok (h : slots.allocate capacity kind payload rights = .ok (handle, slots')) :
    ∃ i, i < capacity ∧ (slots i).occupied = false ∧ handle.slot.toNat = i ∧ handle.kind = kind ∧
      slots' = update slots i ⟨true, handle.generation, kind, rights, 1, payload⟩ := by
  simp only [ObjectTable.allocate, except_bind_eq_ok, okOr_eq_ok, reject_eq_ok,
    decide_eq_false_iff_not, not_le] at h
  obtain ⟨i, hi, _, hlt, h⟩ := h
  cases h
  have hfree := find?_some hi
  exact ⟨i, mem_range.1 (mem_of_find?_eq_some hi), by simpa using hfree,
    by rw [UInt16.toNat_ofNat', Nat.mod_eq_of_lt hlt], rfl, rfl⟩

theorem duplicate_eq_ok (h : slots.duplicate capacity handle rights = .ok (handle', slots')) :
    handle.rights.contains rights = true ∧ Names capacity slots handle ∧
      (slots handle.slot.toNat).references.toNat + 1 < 2 ^ 32 ∧ handle' = { handle with rights } ∧
      slots' = update slots handle.slot.toNat
        { slots handle.slot.toNat with
          references := (slots handle.slot.toNat).references + 1 } := by
  simp only [ObjectTable.duplicate, except_bind_eq_ok, reject_eq_ok, validateSlot_eq_ok,
    not_eq_false', beq_eq_false_iff_ne] at h
  obtain ⟨_, hrights, i, ⟨hnames, rfl⟩, _, _, _, hlt, h⟩ := h
  cases h
  have := (slots handle.slot.toNat).references.toNat_lt
  exact ⟨hrights, hnames, by omega, rfl, rfl⟩

theorem resolve_of_names (h : Names capacity slots handle) (required : Rights) :
    slots.resolve capacity handle required = if handle.rights.contains required then
      .ok ⟨handle.kind, (slots handle.slot.toNat).payloadHandle, handle.rights⟩
    else .error .insufficientRights := by
  rw [← h.kind]
  simp only [ObjectTable.resolve, validateSlot_eq_ok.2 ⟨h, rfl⟩]
  cases handle.rights.contains required <;> rfl

/-! ## The invariant

`live` are the handles that were issued and not closed, each with the number of its object, and
`allocated` is how many objects there have been. -/

abbrev Issue.slot (issue : Issue) : Nat := issue.handle.slot.toNat

/-- Every live handle names its slot, which has what was granted (`names`, `holds`); an occupied
slot has handles and counts them (`counted`); two handles share a slot just when they are to one
object (`apart`); and none has a right that one above it lacks (`contained`). -/
structure Sound (capacity : Nat) (slots : ObjectTable) (live : List Issue) (allocated : Nat) :
    Prop where
  names : ∀ a ∈ live, Names capacity slots a.handle
  holds : ∀ a ∈ live, a.handle.kind = a.kind ∧ (slots a.slot).payloadHandle = a.payload
  counted : ∀ i, (slots i).occupied = true → (slots i).references ≠ 0 ∧
    (slots i).references.toNat = live.countP (·.slot == i)
  apart : ∀ a ∈ live, ∀ b ∈ live, a.slot = b.slot ↔ a.object = b.object
  numbered : ∀ a ∈ live, a.object < allocated
  contained : ∀ a ∈ live, ∀ rights ∈ a.ancestors, rights.contains a.handle.rights = true

/-- Another slot was written, so a handle finds what it found. -/
protected theorem Names.update {i : Nat} {slot : Slot} (h : Names capacity slots handle)
    (hi : handle.slot.toNat ≠ i) : Names capacity (update slots i slot) handle := by
  refine ⟨h.inside, ?_, ?_, ?_⟩ <;> rw [update_of_ne hi]
  exacts [h.occupied, h.generation, h.kind]

/-- Only the reference count of its slot was written. -/
theorem Names.recount {i : Nat} (references : UInt32) (h : Names capacity slots handle) :
    Names capacity (update slots i { slots i with references }) handle := by
  by_cases hi : handle.slot.toNat = i
  · subst hi
    exact ⟨h.inside, by simp [h.occupied], by simp [h.generation], by simp [h.kind]⟩
  · exact h.update hi

theorem payloadHandle_recount (slots : ObjectTable) (i j : Nat) (references : UInt32) :
    (update slots i { slots i with references } j).payloadHandle =
      (slots j).payloadHandle := by
  by_cases hj : j = i <;> simp [hj]

variable {live rest : List Issue} {allocated : Nat} {issue : Issue}

section

variable (h : Sound capacity slots live allocated)
include h

/-- A new object is in a slot that was free, which no live handle names, because those they name
are occupied. -/
theorem Sound.allocate
    (hcall : slots.allocate capacity kind payload rights = .ok (handle, slots')) :
    Sound capacity slots' (⟨handle, allocated, kind, payload, []⟩ :: live) (allocated + 1) := by
  obtain ⟨i, hi, hfree, rfl, hkind, rfl⟩ := allocate_eq_ok hcall
  have hne : ∀ a ∈ live, a.slot ≠ handle.slot.toNat := by
    intro a ha heq
    rw [← heq] at hfree
    exact absurd (h.names a ha).occupied (eq_false_iff.1 hfree)
  refine ⟨forall_mem_cons.2 ⟨⟨hi, by simp, by simp, by simp [hkind]⟩, fun a ha =>
      (h.names a ha).update (hne a ha)⟩, forall_mem_cons.2 ⟨⟨hkind, by simp [Issue.slot]⟩,
      fun a ha => ?_⟩, fun j hj => ?_, ?_, ?_, forall_mem_cons.2 ⟨by simp, h.contained⟩⟩
  · rw [update_of_ne (hne a ha)]
    exact h.holds a ha
  · by_cases hji : j = handle.slot.toNat
    · subst hji
      have hnone : live.countP (·.slot == handle.slot.toNat) = 0 :=
        countP_eq_zero.2 fun a ha => by simpa using hne a ha
      simp [Issue.slot, ← hnone]
    · rw [update_of_ne hji] at hj ⊢
      rw [countP_cons_of_neg (by simpa [Issue.slot] using Ne.symm hji)]
      exact h.counted j hj
  · refine forall_mem_cons.2 ⟨forall_mem_cons.2 ⟨by simp, fun b hb => ?_⟩, fun a ha =>
      forall_mem_cons.2 ⟨?_, h.apart a ha⟩⟩
    · exact iff_of_false (hne b hb).symm (h.numbered b hb).ne'
    · exact iff_of_false (hne a ha) (h.numbered a ha).ne
  · exact forall_mem_cons.2 ⟨Nat.lt_succ_self _, fun a ha => (h.numbered a ha).trans
      (Nat.lt_succ_self _)⟩

/-- The reference count does not wrap: `duplicate` checks it, so it stays the number of handles. -/
theorem Sound.duplicate (hissue : issue ∈ live)
    (hcall : slots.duplicate capacity issue.handle rights = .ok (handle, slots')) :
    Sound capacity slots'
      ({ issue with handle, ancestors := issue.handle.rights :: issue.ancestors } :: live)
      allocated := by
  obtain ⟨hrights, hnames, hlt, rfl, rfl⟩ := duplicate_eq_ok hcall
  have hsame : ∀ b ∈ live, issue.slot = b.slot ↔ issue.object = b.object := h.apart issue hissue
  refine ⟨fun a ha => Names.recount _ ?_, fun a ha => ?_, fun j hj => ?_,
    forall_mem_cons.2 ⟨forall_mem_cons.2 ⟨by simp, hsame⟩, fun a ha =>
      forall_mem_cons.2 ⟨h.apart a ha issue hissue, h.apart a ha⟩⟩,
    forall_mem_cons.2 ⟨h.numbered issue hissue, h.numbered⟩,
    forall_mem_cons.2 ⟨forall_mem_cons.2 ⟨hrights, fun r hr =>
      Rights.contains_trans (h.contained issue hissue r hr) hrights⟩, h.contained⟩⟩
  · rcases mem_cons.1 ha with rfl | ha
    · exact ⟨hnames.inside, hnames.occupied, hnames.generation, hnames.kind⟩
    · exact h.names a ha
  · rw [payloadHandle_recount]
    rcases mem_cons.1 ha with rfl | ha
    · exact h.holds issue hissue
    · exact h.holds a ha
  · by_cases hji : j = issue.slot
    · subst hji
      rw [countP_cons_of_pos (by simp [Issue.slot]), ← (h.counted _ hnames.occupied).2]
      simp only [Issue.slot, update_self]
      have hadd : ((slots issue.handle.slot.toNat).references + 1).toNat =
          (slots issue.handle.slot.toNat).references.toNat + 1 := by
        rw [UInt32.toNat_add, UInt32.toNat_one, Nat.mod_eq_of_lt hlt]
      exact ⟨fun hzero => by simp [hzero] at hadd, hadd⟩
    · rw [update_of_ne hji] at hj ⊢
      rw [countP_cons_of_neg (by simpa [Issue.slot] using Ne.symm hji)]
      exact h.counted j hj

/-- Closing a handle in hand succeeds, and says whether there is no other to its object; the others
are `rest`. -/
theorem Sound.close (hperm : live.Perm (issue :: rest)) :
    ∃ slots', slots.close capacity issue.handle =
        .ok (rest.all (·.object != issue.object), slots') ∧
      (slots' issue.slot).occupied = rest.any (·.object == issue.object) ∧
      Sound capacity slots' rest allocated := by
  have hissue : issue ∈ live := hperm.mem_iff.2 mem_cons_self
  have hrest : ∀ a ∈ rest, a ∈ live := fun a ha => hperm.mem_iff.2 (mem_cons_of_mem _ ha)
  have hnames := h.names issue hissue
  obtain ⟨hne, hcount⟩ := h.counted issue.slot hnames.occupied
  rw [hperm.countP_eq, countP_cons_of_pos (by simp)] at hcount
  have hsub : ((slots issue.slot).references - 1).toNat = rest.countP (·.slot == issue.slot) := by
    rw [UInt32.toNat_sub_of_le _ _ (UInt32.le_iff_toNat_le.2 (by rw [hcount]; simp)), hcount]
    simp
  have hother (j : Nat) (hj : j ≠ issue.slot) :
      live.countP (·.slot == j) = rest.countP (·.slot == j) := by
    rw [hperm.countP_eq, countP_cons_of_neg (by simpa using Ne.symm hj)]
  have hsound {slot : Slot} {slots' : ObjectTable} (heq : update slots issue.slot slot = slots')
      (hnames' : ∀ a ∈ rest, Names capacity slots' a.handle)
      (hpayload : ∀ a ∈ rest, (slots' a.slot).payloadHandle = (slots a.slot).payloadHandle)
      (hslot : slot.occupied = true → slot.references ≠ 0 ∧
        slot.references.toNat = rest.countP (·.slot == issue.slot)) :
      Sound capacity slots' rest allocated := by
    refine ⟨hnames', fun a ha => ⟨(h.holds a (hrest a ha)).1,
        (hpayload a ha).trans (h.holds a (hrest a ha)).2⟩, fun j hj => ?_,
      fun a ha b hb => h.apart a (hrest a ha) b (hrest b hb), fun a ha => h.numbered a (hrest a ha),
      fun a ha => h.contained a (hrest a ha)⟩
    rw [← heq] at hj ⊢
    by_cases hji : j = issue.slot
    · subst hji
      rw [update_self] at hj ⊢
      exact hslot hj
    · rw [update_of_ne hji] at hj ⊢
      rw [← hother j hji]
      exact h.counted j hj
  simp only [ObjectTable.close, validateSlot_eq_ok.2 ⟨hnames, rfl⟩, bind, Except.bind, pure,
    Except.pure]
  change ∃ slots', (if (slots issue.slot).references - 1 = 0 then _ else _) = _ ∧ _
  by_cases hlast : (slots issue.slot).references - 1 = 0
  · -- No other handle is to this slot, so none is to this object.
    have hnone : ∀ a ∈ rest, a.slot ≠ issue.slot := by
      rw [hlast] at hsub
      simpa using countP_eq_zero.1 hsub.symm
    have hgone : ∀ a ∈ rest, a.object ≠ issue.object := fun a ha hobj =>
      hnone a ha ((h.apart a (hrest a ha) issue hissue).2 hobj)
    refine ⟨_, by rw [if_pos hlast, all_eq_true.2 fun a ha => by simpa using hgone a ha], ?_,
      hsound rfl (fun a ha => (h.names a (hrest a ha)).update (hnone a ha)) (fun a ha => by
        rw [update_of_ne (hnone a ha)]) fun hj => by cases hj⟩
    rw [any_eq_false.2 fun a ha => by simpa using hgone a ha]
    simp [Issue.slot]
  · obtain ⟨b, hb, hslot⟩ : ∃ b ∈ rest, b.slot = issue.slot := by
      by_contra hnone
      refine hlast (UInt32.toNat_inj.1 (hsub.trans (countP_eq_zero.2 fun a ha => ?_)))
      exact fun hslot => hnone ⟨a, ha, by simpa using hslot⟩
    have hobj := (h.apart b (hrest b hb) issue hissue).1 hslot
    refine ⟨_, by
        rw [if_neg hlast, all_eq_false.2 ⟨b, hb, by simp [hobj]⟩], ?_,
      hsound rfl (fun a ha => (h.names a (hrest a ha)).recount _)
        (fun a ha => payloadHandle_recount _ _ _ _) fun _ => ⟨hlast, hsub⟩⟩
    rw [any_eq_true.2 ⟨b, hb, by simp [hobj]⟩]
    simpa [Issue.slot] using hnames.occupied

end

theorem Sound.perform {l : Ledger} (h : Sound capacity l.slots l.live l.allocated)
    (call : Call) : Sound capacity (l.perform capacity call).slots (l.perform capacity call).live
      (l.perform capacity call).allocated := by
  fun_cases Ledger.perform capacity l call
  case case1 hcall => exact h.allocate hcall
  case case3 hposition _ _ hcall => exact h.duplicate (mem_of_getElem? hposition) hcall
  case case7 position issue hposition _ _ hcall =>
    obtain ⟨hlt, rfl⟩ := List.getElem?_eq_some_iff.1 hposition
    obtain ⟨_, hclose, -, hsound⟩ := h.close (List.getElem_cons_eraseIdx_perm hlt).symm
    rw [hcall] at hclose
    cases hclose
    exact hsound
  all_goals exact h

theorem sound_run (capacity : Nat) (calls : List Call) :
    let l := final (Ledger.step capacity) Ledger.new calls
    Sound capacity l.slots l.live l.allocated :=
  invariant_final (I := fun l : Ledger => Sound capacity l.slots l.live l.allocated)
    (fun _ call h => h.perform call)
    ⟨by simp [Ledger.new], by simp [Ledger.new], by simp [Ledger.new, Slot.empty],
      by simp [Ledger.new], by simp [Ledger.new], by simp [Ledger.new]⟩

/-! ## Handles confer what was granted -/

/-- After any calls, every handle that was issued and not closed resolves to the kind and payload of
its object, for exactly the rights it carries, and these are among the rights of every handle it
descends from.  Closing it succeeds on a count that is not zero, and it frees the slot exactly when
it was the last handle of the object.  Slots are occupied exactly by the objects with live handles,
each by one. -/
theorem handles_confer_what_was_granted (capacity : Nat) (calls : List Call) :
    let l := final (Ledger.step capacity) Ledger.new calls
    (∀ issue ∈ l.live,
      (∀ required, l.slots.resolve capacity issue.handle required =
        if issue.handle.rights.contains required then
          .ok ⟨issue.kind, issue.payload, issue.handle.rights⟩
        else .error .insufficientRights) ∧
      ∀ rights ∈ issue.ancestors, rights.contains issue.handle.rights = true) ∧
    (∀ position issue, l.live[position]? = some issue → (l.slots issue.slot).references ≠ 0 ∧
      ∃ slots', l.slots.close capacity issue.handle =
          .ok ((l.live.eraseIdx position).all (·.object != issue.object), slots') ∧
        (slots' issue.slot).occupied = (l.live.eraseIdx position).any (·.object == issue.object)) ∧
    (∀ i, (l.slots i).occupied = true ↔ ∃ issue ∈ l.live, issue.slot = i) ∧
    ∀ a ∈ l.live, ∀ b ∈ l.live, a.slot = b.slot ↔ a.object = b.object := by
  intro l
  have h : Sound capacity l.slots l.live l.allocated := sound_run capacity calls
  refine ⟨fun issue hissue => ⟨fun required => ?_, h.contained issue hissue⟩,
    fun position issue hposition => ?_, fun i => ⟨fun hocc => ?_, ?_⟩, h.apart⟩
  · obtain ⟨hkind, hpayload⟩ := h.holds issue hissue
    rw [resolve_of_names (h.names issue hissue), hkind, ← hpayload]
  · obtain ⟨hlt, rfl⟩ := List.getElem?_eq_some_iff.1 hposition
    obtain ⟨slots', hclose, hocc, -⟩ := h.close (List.getElem_cons_eraseIdx_perm hlt).symm
    exact ⟨(h.counted _ (h.names _ (List.getElem_mem hlt)).occupied).1, slots', hclose, hocc⟩
  · obtain ⟨hne, hcount⟩ := h.counted i hocc
    have hpos : 0 < l.live.countP (·.slot == i) := by
      rw [← hcount, Nat.pos_iff_ne_zero]
      exact fun hzero => hne (UInt32.toNat_inj.1 hzero)
    obtain ⟨a, ha, hslot⟩ := List.countP_pos_iff.1 hpos
    exact ⟨a, ha, by simpa using hslot⟩
  · rintro ⟨issue, hissue, rfl⟩
    exact (h.names issue hissue).occupied

end Sisyphus.Objects
