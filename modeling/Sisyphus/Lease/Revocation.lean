import Sisyphus.Lease.Conservation

/-!
# How long a revocation lasts

`revoke` empties one slot.  What keeps the token of the revoked lease out afterwards is that the
slot has another generation, or another seal; what keeps the leases derived from it out is that
their walk up the parents meets another generation in its slot.  A generation has sixteen bits and
leaves out zero, so that after 65535 moves it is back.  The lease that is put in the slot then can
be taken for the one that was there: by a lease derived from that one, which asks for the generation
only (`orphan_accepted_again`), and, if it happens to get the same seal, by its token.

`Distinguishable` says of a call that it hands out no such lease, and revocation is permanent in
every run of such calls (`revocation_permanent`).  The invariant is that a reference by slot and
generation, and for a token by its seal, leads to the lease it was made for or to none
(`Refers`).  The slots have to fit into sixteen bits beside the value that stands for no parent.
-/

set_option autoImplicit false

namespace Sisyphus.Lease

open Fallible Function LeaseState List Run Words

variable {n : Nat}

/-- The record that a call makes for slot `i`, if it is a call that hands out a lease. -/
def LeaseState.newRecord (s : LeaseState n) (i : Fin n) : Call → Option LeaseRecord
  | .issueRoot rights notBefore expiresAt quota =>
    some (rootRecord (nextGeneration (s.records i).generation) rights notBefore expiresAt quota)
  | .attenuate parent rights expiresAt quota nowTick =>
    (slotAt n parent.slot).map fun p => childRecord (nextGeneration (s.records i).generation) p
      (s.records p) rights expiresAt quota nowTick
  | _ => none

namespace Book

/-- The next generation of the slot that the lease was put in is the one that it had. -/
def Recurs (b : Book n) (g : Grant n) : Prop := 65535 ∣ b.moves g.slot + 1 - g.move

instance (b : Book n) (g : Grant n) : Decidable (b.Recurs g) := inferInstanceAs (Decidable (_ ∣ _))

/-- The lease that a call puts in a slot can be told from those that were there: from one whose
generation recurs no lease in the table was derived, and its token had another seal. -/
def Distinguishable (secret : UInt64) (b : Book n) (call : Call) : Prop :=
  ∀ i ∈ b.state.position, ∀ record ∈ b.state.newRecord i call,
    (∀ j, ∀ p ∈ (b.line j)[1]?, p.slot = i → ¬b.Recurs p) ∧
    ∀ entry ∈ b.tokens, ∀ g ∈ entry.2.head?, g.slot = i → b.Recurs g →
      sealTag secret i record b.state.issuanceNonce ≠ entry.1.tag

instance (secret : UInt64) (b : Book n) (call : Call) :
    Decidable (b.Distinguishable secret call) := by
  unfold Distinguishable
  infer_instance

/-! ## References -/

/-- A slot, a generation and perhaps a seal were those of the first lease of a line, and nothing
else in the table answers to them. -/
def Refers (b : Book n) (slot : Nat) (generation : UInt16) (tag : Option UInt32)
    (line : List (Grant n)) : Prop :=
  ∃ g, line.head? = some g ∧ slot = g.slot ∧ generation.toNat = g.move % 65535 + 1 ∧
    g.move ≤ b.moves g.slot ∧
    ((b.state.records g.slot).active = true → (b.state.records g.slot).generation = generation →
      (∀ x ∈ tag, (b.state.records g.slot).tag = x) → b.line g.slot = line)

/-- The parent fields of a record lead to the leases that it was derived from. -/
def Derived (b : Book n) (parentSlot parentGeneration : UInt16) (ancestors : List (Grant n)) :
    Prop :=
  parentSlot = rootParent ∧ ancestors = [] ∨
    parentSlot ≠ rootParent ∧ b.Refers parentSlot.toNat parentGeneration none ancestors

/-- Every parent field and every token leads to the lease that it was made for, or to none. -/
structure Traced (b : Book n) : Prop where
  generation : ∀ i, (b.state.records i).generation.toNat = b.moves i % 65535 + 1
  lease : ∀ i, (b.state.records i).active = true → ∃ g ancestors, b.line i = g :: ancestors ∧
    g.slot = i ∧ g.move = b.moves i ∧
    b.Derived (b.state.records i).parentSlot (b.state.records i).parentGeneration ancestors
  revoked : ∀ g ∈ b.revoked, g.move < b.moves g.slot
  tokens : ∀ entry ∈ b.tokens,
    b.Refers entry.1.slot entry.1.generation (some entry.1.tag) entry.2

variable {b b' : Book n} {t : LeaseState n} {i : Fin n} {slot : Nat} {generation : UInt16}
variable {tag : Option UInt32} {line : List (Grant n)}

theorem slotAt_eq_some {index : Nat} (h : slotAt n index = some i) : index = i := by
  unfold slotAt at h
  split at h
  · exact congrArg Fin.val (Option.some.inj h)
  · cases h

theorem toNat_slot (hn : n ≤ 65535) (i : Fin n) : (UInt16.ofNat i).toNat = i := by
  rw [UInt16.toNat_ofNat']
  omega

theorem Refers.line_eq (h : b.Refers slot generation tag line) (hslot : slotAt n slot = some i)
    (hactive : (b.state.records i).active = true)
    (hgeneration : (b.state.records i).generation = generation)
    (htag : ∀ x ∈ tag, (b.state.records i).tag = x) : b.line i = line := by
  obtain ⟨g, -, hg, -, -, hline⟩ := h
  obtain rfl : g.slot = i := Fin.ext (hg.symm.trans (slotAt_eq_some hslot))
  exact hline hactive hgeneration htag

/-- A change of one slot leaves a reference as it is, if what is in the slot now does not answer to
it. -/
theorem Refers.change (h : b.Refers slot generation tag line)
    (hmoves : ∀ j, b.moves j ≤ b'.moves j)
    (hother : ∀ j ≠ i, b'.state.records j = b.state.records j ∧ b'.line j = b.line j)
    (hi : ∀ g ∈ line.head?, g.slot = i → generation.toNat = g.move % 65535 + 1 →
      g.move ≤ b.moves g.slot → (b'.state.records i).active = true →
      (b'.state.records i).generation = generation → ∃ x ∈ tag, (b'.state.records i).tag ≠ x) :
    b'.Refers slot generation tag line := by
  obtain ⟨g, hhead, hslot, hgeneration, hmove, hline⟩ := h
  refine ⟨g, hhead, hslot, hgeneration, hmove.trans (hmoves _), fun hactive hsame htag => ?_⟩
  by_cases hg : g.slot = i
  · rw [hg] at hactive hsame htag
    obtain ⟨x, hx, hne⟩ := hi g hhead hg hgeneration hmove hactive hsame
    exact absurd (htag x hx) hne
  · rw [(hother _ hg).1] at hactive hsame htag
    rw [(hother _ hg).2]
    exact hline hactive hsame htag

theorem toNat_nextGeneration {g : UInt16} {k : Nat} (h : g.toNat = k % 65535 + 1) :
    (nextGeneration g).toNat = (k + 1) % 65535 + 1 := by
  have hadd : (g + 1).toNat = (g.toNat + 1) % 2 ^ 16 := UInt16.toNat_add _ _
  have hmax : nextGeneration g = if g + 1 ≤ 1 then 1 else g + 1 := rfl
  rw [hmax]
  split <;> rename_i hle <;> rw [UInt16.le_iff_toNat_le, UInt16.toNat_one, hadd] at hle
  · rw [UInt16.toNat_one]
    omega
  · omega

-- Bit by bit: the three fields of a token do not overlap.
theorem token_new (slot generation : UInt16) (tag : UInt32) :
    let token := LeaseToken.new slot generation tag
    token.slot = slot.toNat ∧ token.generation = generation ∧ token.tag = tag := by
  refine ⟨congrArg UInt16.toNat (UInt16.toBitVec_inj.1 (BitVec.eq_of_getElem_eq fun i hi => ?_)),
    UInt16.toBitVec_inj.1 (BitVec.eq_of_getElem_eq fun i hi => ?_),
    UInt32.toBitVec_inj.1 (BitVec.eq_of_getElem_eq fun i hi => ?_)⟩
  · simp [LeaseToken.new]
  · simp [LeaseToken.new, LeaseToken.generation]
    grind
  · simp [LeaseToken.new, LeaseToken.tag]
    grind

/-! ## The calls -/

/-- Nothing but the uses of a record has changed. -/
theorem Traced.charged {amount : UInt32} {admissions : List (List (Grant n))} (h : b.Traced)
    (hcharged : Charged b.state i amount t) :
    ({ b with state := t, admissions } : Book n).Traced := by
  obtain ⟨-, -, -, uses, -, hrecords⟩ := hcharged
  have hsame : t.records = fun j => { b.state.records j with
      uses := if j = i then uses else (b.state.records j).uses } := by
    rw [hrecords]
    funext j
    by_cases hj : j = i
    · subst hj
      simp
    · simp [hj]
  obtain ⟨records, nonce⟩ := t
  obtain rfl : records = _ := hsame
  exact ⟨h.generation, h.lease, h.revoked, h.tokens⟩

/-- **A slot changes hands.**  Its generation is moved on, and whatever lease it has then does not
answer to a reference to another one. -/
theorem Traced.change {r : LeaseRecord} (h : b.Traced)
    (hrecords : b'.state.records = update b.state.records i r)
    (hline : b'.line = update b.line i line)
    (hmoves : b'.moves = update b.moves i (b.moves i + 1))
    (hgeneration : r.generation.toNat = (b.moves i + 1) % 65535 + 1)
    (hlease : r.active = true → ∃ g ancestors, line = g :: ancestors ∧ g.slot = i ∧
      g.move = b.moves i + 1 ∧ b.Derived r.parentSlot r.parentGeneration ancestors ∧
      ∀ p ∈ ancestors.head?, p.slot ≠ i)
    (hchildren : r.active = true → ∀ j, ∀ p ∈ (b.line j)[1]?, p.slot = i → ¬b.Recurs p)
    (hrevoked : ∀ g ∈ b'.revoked, g ∈ b.revoked ∨ g.slot = i ∧ g.move = b.moves i)
    (htokens : ∀ entry ∈ b'.tokens,
      b'.Refers entry.1.slot entry.1.generation (some entry.1.tag) entry.2 ∨
      entry ∈ b.tokens ∧ (r.active = true → ∀ g ∈ entry.2.head?, g.slot = i → b.Recurs g →
        r.tag ≠ entry.1.tag)) : b'.Traced := by
  have hself : b'.state.records i = r := by rw [hrecords, update_self]
  have hother : ∀ j ≠ i, b'.state.records j = b.state.records j ∧ b'.line j = b.line j := by
    intro j hj
    rw [hrecords, hline, update_of_ne hj, update_of_ne hj]
    exact ⟨rfl, rfl⟩
  have hmono : ∀ j, b.moves j ≤ b'.moves j := by
    intro j
    rw [hmoves, update_apply]
    split
    · next hj => exact hj ▸ Nat.le_succ _
    · exact le_rfl
  have hrecurs : ∀ {g : Grant n} {generation : UInt16}, g.slot = i →
      generation.toNat = g.move % 65535 + 1 → g.move ≤ b.moves g.slot →
      r.generation = generation → b.Recurs g := by
    rintro g _ hslot hg hmove rfl
    rw [Recurs, hslot]
    rw [hslot] at hmove
    omega
  refine ⟨fun j => ?_, fun j hactive => ?_, fun g hg => ?_, fun entry hentry => ?_⟩
  · by_cases hj : j = i
    · subst hj
      rw [hself, hmoves, update_self, hgeneration]
    · rw [(hother j hj).1, hmoves, update_of_ne hj, h.generation j]
  · by_cases hj : j = i
    · subst hj
      rw [hself] at hactive ⊢
      obtain ⟨g, ancestors, rfl, hslot, hmove, hderived, hparent⟩ := hlease hactive
      exact ⟨g, ancestors, by rw [hline, update_self], hslot, by rw [hmove, hmoves, update_self],
        hderived.imp_right fun ⟨hne, hrefers⟩ => ⟨hne, hrefers.change hmono hother fun p hp hpj =>
          absurd hpj (hparent p hp)⟩⟩
    · rw [(hother j hj).1] at hactive ⊢
      obtain ⟨g, ancestors, hj', hslot, hmove, hderived⟩ := h.lease j hactive
      refine ⟨g, ancestors, (hother j hj).2.trans hj', hslot, ?_, hderived.imp_right ?_⟩
      · rw [hmove, hmoves, update_of_ne hj]
      · rintro ⟨hne, hrefers⟩
        refine ⟨hne, hrefers.change hmono hother fun p hp hpi hgen hle hlive hsame => ?_⟩
        rw [hself] at hlive hsame
        refine absurd (hrecurs hpi hgen hle hsame) (hchildren hlive j p ?_ hpi)
        rw [hj', getElem?_cons_succ, ← head?_eq_getElem?]
        exact hp
  · rcases hrevoked g hg with hold | ⟨rfl, hmove⟩
    · exact (h.revoked g hold).trans_le (hmono _)
    · rw [hmove, hmoves, update_self]
      exact Nat.lt_succ_self _
  · rcases htokens entry hentry with hnew | ⟨hold, htag⟩
    · exact hnew
    · refine (h.tokens entry hold).change hmono hother fun g hg hgi hgen hle hlive hsame => ?_
      rw [hself] at hlive hsame ⊢
      exact ⟨_, rfl, htag hlive g hg hgi (hrecurs hgi hgen hle hsame)⟩

theorem Traced.enter {base : LeaseState n} {secret : UInt64} {r : LeaseRecord}
    {ancestors : List (Grant n)} {token : LeaseToken} (hn : n ≤ 65535)
    (h : ({ b with state := base } : Book n).Traced) (hi : b.state.position = some i)
    (hentered : Entered secret base i r token t)
    (hgeneration : r.generation.toNat = (b.moves i + 1) % 65535 + 1)
    (hderived : ({ b with state := base } : Book n).Derived
      r.parentSlot r.parentGeneration ancestors)
    (hparent : ∀ p ∈ ancestors.head?, p.slot ≠ i)
    (hchildren : ∀ j, ∀ p ∈ (b.line j)[1]?, p.slot = i → ¬b.Recurs p)
    (htags : ∀ entry ∈ b.tokens, ∀ g ∈ entry.2.head?, g.slot = i → b.Recurs g →
      sealTag secret i r base.issuanceNonce ≠ entry.1.tag)
    (rights : LeaseRights) (expiresAt : UInt64) (quota : UInt32) :
    (b.enter rights expiresAt quota ancestors token t).Traced := by
  obtain ⟨-, -, rfl, hrecords⟩ := hentered
  simp only [Book.enter, hi]
  refine h.change hrecords rfl rfl hgeneration (fun _ => ⟨_, _, rfl, rfl, rfl, hderived, hparent⟩)
    (fun _ => hchildren) (fun _ => .inl) (forall_mem_cons.2 ⟨.inl ?_, fun entry hentry =>
      .inr ⟨hentry, fun _ => htags entry hentry⟩⟩)
  obtain ⟨hslot, hgen, -⟩ := token_new (UInt16.ofNat i) r.generation
    (sealTag secret i r base.issuanceNonce)
  refine ⟨_, rfl, hslot.trans (toNat_slot hn i), ?_, ?_, fun _ _ _ => ?_⟩
  · rw [hgen, hgeneration]
  · simp
  · simp

theorem Traced.revoke (h : b.Traced) (hactive : (b.state.records i).active = true)
    (hrecords : t.records = update b.state.records i
      { LeaseRecord.empty with generation := nextGeneration (b.state.records i).generation }) :
    ({ b with
      state := t
      line := update b.line i []
      moves := update b.moves i (b.moves i + 1)
      revoked := (b.line i).head?.toList ++ b.revoked } : Book n).Traced := by
  obtain ⟨g, ancestors, hline, hslot, hmove, -⟩ := h.lease i hactive
  refine h.change hrecords rfl rfl (toNat_nextGeneration (h.generation i)) (fun hdead => ?_)
    (fun hdead => ?_) (fun g' hg' => ?_) fun entry hentry => .inr ⟨hentry, fun hdead => ?_⟩
  · cases hdead
  · cases hdead
  · rw [hline] at hg'
    rcases mem_cons.1 hg' with rfl | hold
    · exact .inr ⟨hslot, hmove⟩
    · exact .inl hold
  · cases hdead

theorem Traced.step {secret : UInt64} (hn : n ≤ 65535) (h : b.Traced) (call : Call)
    (hcall : b.Distinguishable secret call) : (b.step secret call).2.Traced := by
  cases call with
  | issueRoot rights notBefore expiresAt quota =>
    rcases (ensures_issueRoot b.state secret rights notBefore expiresAt quota).cases with
      ⟨token, t, heq, i, hi, ht⟩ | ⟨e, t, heq, rfl⟩ <;>
        simp only [Book.step, LeaseState.step, heq, answer, record]
    · obtain ⟨hchildren, htags⟩ := hcall i hi _ rfl
      exact h.enter hn hi ht (toNat_nextGeneration (h.generation i)) (.inl ⟨rfl, rfl⟩)
        (fun _ h => by cases h) hchildren htags rights expiresAt quota
    · exact h
  | attenuate parent rights expiresAt quota now =>
    rcases (ensures_attenuate b.state secret parent rights expiresAt quota now).cases with
      ⟨token, t, heq, p, i, charged, hp, hi, -, -, hcharged, ht⟩ | ⟨e, t, heq, rfl⟩ <;>
        simp only [Book.step, LeaseState.step, heq, answer, record]
    · simp only [lineOf, hp]
      obtain ⟨hchildren, htags⟩ := hcall i hi _ (by rw [newRecord, hp]; rfl)
      rw [← hcharged.nonce] at htags
      have hbase : ({ b with state := charged } : Book n).Traced := h.charged hcharged
      obtain ⟨g, ancestors, hline, hslot, hmove, -⟩ := h.lease p hcharged.active
      have hne : p ≠ i := by
        rintro rfl
        cases hcharged.active.symm.trans (active_of_position hi)
      refine hbase.enter hn hi ht (toNat_nextGeneration (h.generation i)) (.inr ⟨?_, ?_⟩) ?_
        hchildren htags rights expiresAt quota
      · intro hroot
        have hp := congrArg UInt16.toNat (show UInt16.ofNat p = rootParent from hroot)
        rw [toNat_slot hn p] at hp
        exact absurd hp (p.isLt.trans_le hn).ne
      · exact ⟨g, by rw [hline]; rfl, by rw [hslot]; exact toNat_slot hn p,
          by rw [hmove]; exact h.generation p, by rw [hslot, hmove], fun _ _ _ => by rw [hslot]⟩
      · rw [hline]
        rintro _ ⟨⟩
        exact hslot ▸ hne
    · exact h
  | admitLease token required now =>
    rcases (ensures_admitLease b.state token required now).cases with
      ⟨admission, t, heq, i, hi, hcharged⟩ | ⟨e, t, heq, rfl⟩ <;>
        simp only [Book.step, LeaseState.step, heq, answer, record]
    · exact h.charged hcharged
    · exact h
  | revoke token =>
    rcases (ensures_revoke b.state token).cases with
      ⟨_, t, heq, i, hi, hactive, hrecords⟩ | ⟨e, t, heq, rfl⟩ <;>
        simp only [Book.step, LeaseState.step, heq, answer, record]
    · simp only [hi]
      exact h.revoke hactive hrecords
    · exact h

/-! ## Acceptance -/

/-- The checks that `attenuate` and `admit` share, at some time and with a use left. -/
def Passes (s : LeaseState n) (token : LeaseToken) : Prop :=
  ∃ now i, s.validateToken token now = .ok i ∧ s.validateAncestry i = .ok () ∧
    (s.records i).uses < (s.records i).quotaLimit

/-- Some call of `attenuate` or `admit` with the token succeeds. -/
def Accepted (secret : UInt64) (s : LeaseState n) (token : LeaseToken) : Prop :=
  (∃ required now a, (s.step secret (.admitLease token required now)).1 = .admitted a) ∨
    ∃ rights expiresAt quota now a,
      (s.step secret (.attenuate token rights expiresAt quota now)).1 = .token a

theorem accepted_iff_passes (secret : UInt64) (s : LeaseState n) (token : LeaseToken) :
    Accepted secret s token ↔ Passes s token := by
  constructor
  · rintro (⟨required, now, a, h⟩ | ⟨rights, expiresAt, quota, now, a, h⟩)
    · have hpasses : Ensures (admitLease token required now) s (fun _ _ => Passes s token)
          fun _ _ => True := by
        simp only [admitLease, charge, ensures_rules]
        intro i hi _ hwalk _ huses
        exact ⟨now, i, hi, hwalk, UInt32.not_le.1 (by simpa using huses)⟩
      obtain ⟨_, _, _, hp⟩ | ⟨e, t, hcall, -⟩ := hpasses.cases
      · exact hp
      · simp [LeaseState.step, hcall, answer] at h
    · have hpasses : Ensures (attenuate secret token rights expiresAt quota now) s
          (fun _ _ => Passes s token) fun _ _ => True := by
        simp only [attenuate, charge, ensures_rules]
        intro hzero i hi _ hwalk _ _ _ _ hquota _ _
        refine ⟨now, i, hi, hwalk, ?_⟩
        have hpos : quota.toNat ≠ 0 := fun h => beq_eq_false_iff_ne.1 hzero (UInt32.toNat_inj.1 h)
        rw [decide_eq_false_iff_not, UInt32.not_lt, UInt32.le_iff_toNat_le, toNat_saturatingSub32]
          at hquota
        exact UInt32.lt_iff_toNat_lt.2 (by omega)
      obtain ⟨_, _, _, hp⟩ | ⟨e, t, hcall, -⟩ := hpasses.cases
      · exact hp
      · simp [LeaseState.step, hcall, answer] at h
  · rintro ⟨now, i, hi, hwalk, huses⟩
    have hcontains : (s.records i).rights.contains ⟨0⟩ = true := by simp [LeaseRights.contains]
    exact .inl ⟨⟨0⟩, now, _, by simp [LeaseState.step, admitLease, answer, hi, hwalk, hcontains,
      UInt32.not_le.2 huses, propagate, refuse, charge]; rfl⟩

theorem climb_eq_ok {s : LeaseState n} {hops : Nat} (h : s.climb hops i = .ok ()) :
    (s.records i).parentSlot = rootParent ∨ ∃ fewer p, hops = fewer + 1 ∧
      slotAt n (s.records i).parentSlot.toNat = some p ∧ (s.records p).active = true ∧
      (s.records p).generation = (s.records i).parentGeneration ∧ s.climb fewer p = .ok () := by
  refine or_iff_not_imp_left.2 fun hne => ?_
  unfold LeaseState.climb at h
  rw [if_neg hne] at h
  cases hops with
  | zero => cases h
  | succ fewer =>
    cases hslot : slotAt n (s.records i).parentSlot.toNat with
    | none => simp [hslot] at h
    | some p =>
      simp only [hslot, ite_error_eq_ok, Bool.or_eq_true, not_or, Bool.not_eq_true',
        Bool.not_eq_false, bne_iff_ne, not_not] at h
      exact ⟨fewer, p, rfl, rfl, h.1.1, h.1.2, h.2⟩

/-- A walk up the parents that succeeds has met the leases of the line, each where it was put. -/
theorem Traced.climb (h : b.Traced) {hops : Nat} (hactive : (b.state.records i).active = true)
    (hclimb : b.state.climb hops i = .ok ()) : ∀ g ∈ b.line i, g.move = b.moves g.slot := by
  induction hops using Nat.strong_induction_on generalizing i with
  | _ hops ih =>
    obtain ⟨g, ancestors, hline, rfl, hmove, hderived⟩ := h.lease i hactive
    rw [hline, forall_mem_cons]
    refine ⟨hmove, ?_⟩
    rcases hderived with ⟨-, rfl⟩ | ⟨hne, hrefers⟩
    · exact forall_mem_nil _
    · obtain ⟨fewer, p, rfl, hslot, hlive, hgeneration, hrest⟩ :=
        (climb_eq_ok hclimb).resolve_left hne
      rw [← hrefers.line_eq hslot hlive hgeneration nofun]
      exact ih fewer (Nat.lt_succ_self _) hlive hrest

/-- **How long a revocation lasts.**  In every run of distinguishable calls, on a lattice of at most
65535 slots, no token of a lease that was revoked or derived from a revoked one is accepted by
`attenuate` or `admit`. -/
theorem revocation_permanent {n : Nat} (hn : n ≤ 65535) (secret : UInt64) (calls : List Call)
    (hcalls : EveryStep (step secret) (Distinguishable secret) (new n) calls) :
    let b := final (step secret) (new n) calls
    ∀ entry ∈ b.tokens, (∃ g ∈ entry.2, g ∈ b.revoked) → ¬Accepted secret b.state entry.1 := by
  intro b entry hentry ⟨g, hg, hrevoked⟩ haccepted
  have hb : b.Traced := hcalls.invariant (fun _ call hcall h => h.step hn call hcall)
    ⟨fun _ => rfl, nofun, nofun, nofun⟩
  obtain ⟨now, i, hi, hwalk, -⟩ := (accepted_iff_passes secret b.state entry.1).1 haccepted
  obtain ⟨hslot, hactive, hgeneration, htag⟩ := validateToken_eq_ok hi
  have hline := (hb.tokens entry hentry).line_eq hslot hactive hgeneration (by simpa using htag)
  have hmove := hb.climb hactive hwalk g (hline ▸ hg)
  exact (hb.revoked g hrevoked).ne hmove

/-! ## A generation that comes back -/

/-- What was written down stays. -/
theorem subset_step (secret : UInt64) (b : Book n) (call : Call) :
    b.tokens ⊆ (b.step secret call).2.tokens ∧ b.revoked ⊆ (b.step secret call).2.revoked := by
  simp only [step]
  generalize b.state.step secret call = answer
  fun_cases record b answer.2 call answer.1
  case case1 | case2 =>
    unfold enter
    split <;> simp
  all_goals simp

/-- A root lease in the first slot, one derived from it in the second, and the root revoked. -/
def orphaning : List Call :=
  [.issueRoot .delegate 0 9 9, .attenuate ⟨13891435879068729344⟩ ⟨0⟩ 9 1 0,
    .revoke ⟨13891435879068729344⟩]

def orphan : LeaseToken := ⟨9512384200133705729⟩

def orphanRecord : LeaseRecord := ⟨true, 2, 1, ⟨0⟩, 0, 2, 0, 9, 1, 0, orphan.tag⟩

/-- The first slot is free, its generation moved `k` times from the first one. -/
structure Vacant (k : Nat) (s : LeaseState 2) : Prop where
  free : (s.records 0).active = false
  generation : (s.records 0).generation.toNat = k % 65535 + 1
  orphan : s.records 1 = orphanRecord

variable {k : Nat} {s : LeaseState 2}

theorem Vacant.issue (h : Vacant k s) :
    ∃ r t, issueRoot 1 ⟨0⟩ 0 1 1 s = .ok (.new 0 r.generation r.tag) t ∧
      t.records = update s.records 0 r ∧ r.active = true ∧
      r.parentSlot = rootParent ∧ r.generation.toNat = (k + 1) % 65535 + 1 := by
  have hposition : s.position = some 0 := by
    simp [LeaseState.position, finRange_succ, h.free]
  let r := rootRecord (nextGeneration (s.records 0).generation) ⟨0⟩ 0 1 1
  exact ⟨{ r with tag := sealTag 1 0 r s.issuanceNonce }, _, by
    simp [issueRoot, validateLifetime, hposition, propagate, refuse, orThrow, Lease.enter]
    rfl, rfl, rfl, rfl, toNat_nextGeneration h.generation⟩

theorem Vacant.churn (h : Vacant k s) (m : Nat) :
    ∃ calls, Vacant (k + 2 * m) (final (LeaseState.step 1) s calls) := by
  induction m with
  | zero => exact ⟨[], h⟩
  | succ m ih =>
    obtain ⟨calls, h⟩ := ih
    obtain ⟨r, t, hissue, ht, hactive, -, hgeneration⟩ := h.issue
    refine ⟨calls ++ [.issueRoot ⟨0⟩ 0 1 1, .revoke (.new 0 r.generation r.tag)], ?_⟩
    obtain ⟨hslot, hgen, htag⟩ := token_new 0 r.generation r.tag
    have hvalid : t.validateTokenWithoutTime (.new 0 r.generation r.tag) = .ok 0 := by
      simp [validateTokenWithoutTime, slotAt, hslot, hgen, htag, ht, hactive]
    have hstate : (final (LeaseState.step 1) s (calls ++ [.issueRoot ⟨0⟩ 0 1 1,
        .revoke (.new 0 r.generation r.tag)])).records = update t.records 0
          { LeaseRecord.empty with generation := nextGeneration r.generation } := by
      rw [final_append]
      simp [final, LeaseState.step, hissue, answer, revoke, hvalid, propagate, ht]
    refine ⟨by rw [hstate]; rfl, ?_, ?_⟩
    · rw [hstate, update_self]
      exact toNat_nextGeneration hgeneration
    · rw [hstate, update_of_ne (by decide), ht, update_of_ne (by decide)]
      exact h.orphan

/-- Up to here no generation has come back, and the orphan is not accepted. -/
theorem orphan_refused : let b := final (step 1) (new 2) orphaning
    ∀ entry ∈ b.tokens, (∃ g ∈ entry.2, g ∈ b.revoked) → ¬Accepted 1 b.state entry.1 :=
  revocation_permanent (by decide) 1 orphaning (by decide +kernel)

def rootGrant : Grant 2 := ⟨0, ⟨0, Nat.two_pos⟩, 1, .delegate, 9, 9⟩

def orphanGrant : Grant 2 := ⟨1, ⟨1, Nat.one_lt_two⟩, 1, ⟨0⟩, 9, 1⟩

/-- The generation of the first slot is back after 131070 moves, with another lease in the slot. -/
theorem orphan_accepted_again : ∃ calls,
    let b := final (step 1) (new 2) calls
    ∃ entry ∈ b.tokens, (∃ g ∈ entry.2, g ∈ b.revoked) ∧ Accepted 1 b.state entry.1 := by
  have hvacant : Vacant 2 (final (LeaseState.step 1) (.new 2) orphaning) :=
    ⟨by decide +kernel, by decide +kernel, by decide +kernel⟩
  obtain ⟨calls, h⟩ := hvacant.churn 65534
  obtain ⟨r, t, hissue, ht, hactive, hroot, hgeneration⟩ := h.issue
  have hback : r.generation = 2 := UInt16.toNat_inj.1 hgeneration
  let calls := calls ++ [.issueRoot ⟨0⟩ 0 1 1]
  have hstate : (final (step 1) (new 2) (orphaning ++ calls)).state = t := by
    rw [state_final, final_append, final_append]
    exact congrArg Prod.snd (congrArg (answer Reply.token) hissue)
  have hkept : (orphan, [orphanGrant, rootGrant]) ∈
        (final (step 1) (new 2) (orphaning ++ calls)).tokens ∧
      rootGrant ∈ (final (step 1) (new 2) (orphaning ++ calls)).revoked := by
    rw [final_append]
    refine invariant_final (I := fun b : Book 2 => (orphan, [orphanGrant, rootGrant]) ∈ b.tokens ∧
      rootGrant ∈ b.revoked) (fun b call h => ?_) ⟨by decide +kernel, by decide +kernel⟩
    exact ⟨(subset_step 1 b call).1 h.1, (subset_step 1 b call).2 h.2⟩
  refine ⟨orphaning ++ calls, _, hkept.1, ⟨rootGrant, by simp, hkept.2⟩, ?_⟩
  have horphan : t.records 1 = orphanRecord := by
    rw [ht, update_of_ne (by decide), h.orphan]
  have hparent : t.records 0 = r := by rw [ht, update_self]
  rw [hstate, accepted_iff_passes]
  refine ⟨0, 1, ?_, ?_, by rw [horphan]; decide⟩
  · have hslot : slotAt 2 orphan.slot = some 1 := by decide +kernel
    have hgen : orphan.generation = 2 := by decide +kernel
    simp [validateToken, validateTokenWithoutTime, hslot, hgen, horphan, orphanRecord]
  · have hclimb : t.climb 7 0 = .ok () := by
      rw [climb, hparent, if_pos hroot]
    rw [validateAncestry, show maximumDelegationDepth.toNat = 7 + 1 from rfl, climb]
    simp [horphan, orphanRecord, slotAt, hparent, hactive, hback, hclimb, rootParent]

end Book

end Sisyphus.Lease
