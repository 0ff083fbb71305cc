import Sisyphus.Lease.Lattice

/-!
# Leases only attenuate, and quotas are conserved

The table forgets: a revoked record is overwritten, its slot is used again, and after enough reuse
its generation comes back as well.  What a lease *is* therefore has to be kept beside the table.  A
`Book` runs the lattice and writes down, for each slot, the lease in it followed by the leases it
was derived from (`line`), and for each successful admission the line of the lease whose record
was charged.  It reads the calls and their replies and never influences them (`state_final`).  The
tokens, the revocations and the steps of the generations are for the next module.

The rights of a record never change and `attenuate` compares them with the parent's, so the first
half of the result is a comparison along the line.  For the second half, fix any lease `g`.  The
admissions made through `g` and its descendants, together with the uses that live descendants of
`g` have left, never grow: an admission turns a use that is left into one that is made,
`attenuate` moves uses from the parent's record to the child's, and `revoke` only loses some.
Nothing in the argument looks at generations or seals, so reuse does not matter to it.
-/

set_option autoImplicit false

namespace Sisyphus.Lease

open Fallible Finset Function List Run Words

variable {n : Nat} {amount : UInt32}

/-! ## What the calls do to the table -/

variable {token : LeaseToken} {i : Fin n}

namespace LeaseState

variable {s t : LeaseState n}

theorem validateTokenWithoutTime_eq_ok (h : s.validateTokenWithoutTime token = .ok i) :
    slotAt n token.slot = some i ∧ (s.records i).active = true ∧
      (s.records i).generation = token.generation ∧ (s.records i).tag = token.tag := by
  rw [validateTokenWithoutTime] at h
  cases hslot : slotAt n token.slot with
  | none => simp [hslot] at h
  | some index =>
    simp only [hslot, ite_error_eq_ok, Bool.or_eq_true, not_or, Bool.not_eq_true',
      Bool.not_eq_false, bne_iff_ne, not_not] at h
    obtain ⟨⟨hlive, hgeneration⟩, htag, ⟨⟩⟩ := h
    exact ⟨rfl, hlive, hgeneration, htag⟩

theorem validateToken_eq_ok {now : UInt64} (h : s.validateToken token now = .ok i) :
    slotAt n token.slot = some i ∧ (s.records i).active = true ∧
      (s.records i).generation = token.generation ∧ (s.records i).tag = token.tag := by
  rw [validateToken] at h
  cases hv : s.validateTokenWithoutTime token with
  | error e => simp [hv] at h
  | ok index =>
    simp only [hv, ite_error_eq_ok] at h
    obtain ⟨-, -, ⟨⟩⟩ := h
    exact validateTokenWithoutTime_eq_ok hv

/-- A new lease is in slot `i`, sealed and handed out, and nothing else has changed. -/
structure Entered (secret : UInt64) (s : LeaseState n) (i : Fin n) (record : LeaseRecord)
    (token : LeaseToken) (t : LeaseState n) : Prop where
  free : (s.records i).active = false
  fresh : record.active = true ∧ record.uses = 0
  token : token = .new (UInt16.ofNat i) record.generation
    (sealTag secret i record s.issuanceNonce)
  records : t.records = update s.records i
    { record with tag := sealTag secret i record s.issuanceNonce }

/-- The record of slot `i` is charged, and nothing else. -/
structure Charged (s : LeaseState n) (i : Fin n) (amount : UInt32) (t : LeaseState n) : Prop where
  active : (s.records i).active = true
  fits : (s.records i).uses.toNat + amount.toNat ≤ (s.records i).quotaLimit.toNat
  nonce : t.issuanceNonce = s.issuanceNonce
  record : ∃ uses : UInt32, uses.toNat = (s.records i).uses.toNat + amount.toNat ∧
    t.records = update s.records i { s.records i with uses := uses }

end LeaseState

open LeaseState

section Effects

variable {s : LeaseState n} (secret : UInt64)

theorem ensures_enter {record : LeaseRecord} (hfree : (s.records i).active = false)
    (hfresh : record.active = true ∧ record.uses = 0) :
    Ensures (enter secret i record) s (fun token t => Entered secret s i record token t)
      (fun _ _ => False) := ⟨hfree, hfresh, rfl, rfl⟩

theorem ensures_charge (hactive : (s.records i).active = true)
    (hfits : (s.records i).uses.toNat + amount.toNat ≤ (s.records i).quotaLimit.toNat) :
    Ensures (charge i amount) s (fun _ t => Charged s i amount t) (fun _ _ => False) := by
  have hlt := (s.records i).quotaLimit.toNat_lt
  exact ⟨hactive, hfits, rfl, _, (toNat_saturatingAdd32 _ _).trans (by omega), rfl⟩

variable (s)

theorem ensures_issueRoot (rights : LeaseRights) (notBefore expiresAt : UInt64) (quota : UInt32) :
    Ensures (issueRoot secret rights notBefore expiresAt quota) s
      (fun token t => ∃ i, s.position = some i ∧ Entered secret s i (rootRecord (nextGeneration
        (s.records i).generation) rights notBefore expiresAt quota) token t)
      (fun _ t => t = s) := by
  simp only [issueRoot, ensures_rules]
  intro _ _ _ i hi
  refine (ensures_enter secret (active_of_position hi) ⟨rfl, rfl⟩).mono
    (fun _ t ht => ⟨i, hi, ht⟩) fun _ _ h => h.elim

theorem ensures_attenuate (parent : LeaseToken) (rights : LeaseRights) (expiresAt : UInt64)
    (quota : UInt32) (now : UInt64) :
    Ensures (attenuate secret parent rights expiresAt quota now) s
      (fun token t => ∃ p i charged, slotAt n parent.slot = some p ∧ s.position = some i ∧
        (s.records p).rights.contains rights = true ∧ expiresAt ≤ (s.records p).expiresAt ∧
        Charged s p quota charged ∧ Entered secret charged i (childRecord (nextGeneration
          (s.records i).generation) p (s.records p) rights expiresAt quota now) token t)
      (fun _ t => t = s) := by
  simp only [attenuate, ensures_rules]
  intro hzero p hp _ _ _ _ hrights htime hquota i hi
  obtain ⟨hslot, hactive, -⟩ := validateToken_eq_ok hp
  rw [beq_eq_false_iff_ne] at hzero
  have hcontains : (s.records p).rights.contains rights = true := by simpa using hrights
  have htime : expiresAt ≤ (s.records p).expiresAt := by
    rw [Bool.or_eq_false_iff, decide_eq_false_iff_not] at htime
    exact UInt64.not_lt.mp htime.1
  have hfits : (s.records p).uses.toNat + quota.toNat ≤ (s.records p).quotaLimit.toNat := by
    rw [decide_eq_false_iff_not, UInt32.not_lt, UInt32.le_iff_toNat_le, toNat_saturatingSub32]
      at hquota
    have hpos : quota.toNat ≠ 0 := fun h => hzero (UInt32.toNat_inj.mp h)
    omega
  refine (ensures_charge hactive hfits).mono (fun _ charged hcharged => ?_) fun _ _ h => h.elim
  have hfree : (charged.records i).active = false := by
    obtain ⟨uses, -, hrecords⟩ := hcharged.record
    have hne : i ≠ p := by
      rintro rfl
      rw [active_of_position hi] at hactive
      cases hactive
    rw [hrecords, update_of_ne hne, active_of_position hi]
  refine (ensures_enter secret hfree ⟨rfl, rfl⟩).mono (fun _ t ht => ?_) fun _ _ h => h.elim
  exact ⟨p, i, charged, hslot, hi, hcontains, htime, hcharged, ht⟩

theorem ensures_admitLease (token : LeaseToken) (required : LeaseRights) (now : UInt64) :
    Ensures (admitLease token required now) s
      (fun _ t => ∃ i, slotAt n token.slot = some i ∧ Charged s i 1 t)
      (fun _ t => t = s) := by
  simp only [admitLease, ensures_rules]
  intro i hi _ _ _ huses
  obtain ⟨hslot, hactive, -⟩ := validateToken_eq_ok hi
  have hfits : (s.records i).uses.toNat + (1 : UInt32).toNat ≤ (s.records i).quotaLimit.toNat := by
    rw [decide_eq_false_iff_not, UInt32.le_iff_toNat_le] at huses
    rw [UInt32.toNat_one]
    omega
  exact (ensures_charge hactive hfits).mono (fun _ t ht => ⟨i, hslot, ht⟩) fun _ _ h => h.elim

theorem ensures_revoke (token : LeaseToken) : Ensures (revoke token) s
      (fun _ t => ∃ i, slotAt n token.slot = some i ∧ (s.records i).active = true ∧
        t.records = update s.records i
          { LeaseRecord.empty with generation := nextGeneration (s.records i).generation })
      (fun _ t => t = s) := by
  simp only [revoke, ensures_rules]
  intro i hi
  obtain ⟨hslot, hactive, -⟩ := validateTokenWithoutTime_eq_ok hi
  exact ⟨i, hslot, hactive, rfl⟩

end Effects

/-! ## The book -/

/-- A lease as it was handed out. -/
structure Grant (n : Nat) where
  serial : Nat
  slot : Fin n
  /-- How often the generation of the slot had been moved on when the lease was put in it. -/
  move : Nat
  rights : LeaseRights
  expiresAt : UInt64
  quota : UInt32
  deriving DecidableEq

/-- A lattice with what there is to remember of its past. -/
structure Book (n : Nat) where
  state : LeaseState n
  /-- The lease in a slot, followed by the leases it was derived from, nearest first. -/
  line : Fin n → List (Grant n)
  issued : Nat
  /-- The line of the lease that each admission went through, latest first. -/
  admissions : List (List (Grant n))
  /-- How often the generation of a slot has been moved on. -/
  moves : Fin n → Nat
  /-- The tokens handed out, each with the line of its lease. -/
  tokens : List (LeaseToken × List (Grant n))
  revoked : List (Grant n)

namespace Book

def new (n : Nat) : Book n where
  state := LeaseState.new n
  line := fun _ => []
  issued := 0
  admissions := []
  moves := fun _ => 0
  tokens := []
  revoked := []

/-- The line of the lease whose record a token leads to. -/
def lineOf (b : Book n) (token : LeaseToken) : List (Grant n) :=
  match slotAt n token.slot with
  | some i => b.line i
  | none => []

/-- A new lease, in the slot that was free. -/
def enter (b : Book n) (rights : LeaseRights) (expiresAt : UInt64) (quota : UInt32)
    (ancestors : List (Grant n)) (token : LeaseToken) (t : LeaseState n) : Book n :=
  match b.state.position with
  | none => { b with state := t }
  | some i =>
    let line := ⟨b.issued, i, b.moves i + 1, rights, expiresAt, quota⟩ :: ancestors
    { b with
      state := t
      line := update b.line i line
      issued := b.issued + 1
      moves := update b.moves i (b.moves i + 1)
      tokens := (token, line) :: b.tokens }

/-- Writes down what a call that was answered did. -/
def record (b : Book n) (t : LeaseState n) : Call → Reply → Book n
  | .issueRoot rights _ expiresAt quota, .token token => b.enter rights expiresAt quota [] token t
  | .attenuate parent rights expiresAt quota _, .token token =>
    b.enter rights expiresAt quota (b.lineOf parent) token t
  | .admitLease token _ _, .admitted _ =>
    { b with state := t, admissions := b.lineOf token :: b.admissions }
  | .revoke token, .revoked =>
    match slotAt n token.slot with
    | none => { b with state := t }
    | some i =>
      { b with
        state := t
        line := update b.line i []
        moves := update b.moves i (b.moves i + 1)
        revoked := (b.line i).head?.toList ++ b.revoked }
  | _, _ => { b with state := t }

def step (secret : UInt64) (b : Book n) (call : Call) : Reply × Book n :=
  let (reply, t) := b.state.step secret call
  (reply, b.record t call reply)

theorem state_record (b : Book n) (t : LeaseState n) (call : Call) (reply : Reply) :
    (b.record t call reply).state = t := by
  fun_cases record b t call reply
  case case1 | case2 =>
    unfold enter
    split <;> rfl
  all_goals rfl

/-- The book runs the lattice, whatever it writes down. -/
theorem state_final (secret : UInt64) (b : Book n) (calls : List Call) :
    (final (step secret) b calls).state = final (LeaseState.step secret) b.state calls := by
  induction calls generalizing b with
  | nil => rfl
  | cons call rest ih =>
    rw [final, final, ih]
    congr 1
    exact state_record ..

/-! ## What holds of every book -/

/-- The uses that a record has left, if its lease is `g` or was derived from `g`. -/
def leftOf (g : Grant n) (r : LeaseRecord) (line : List (Grant n)) : Nat :=
  if r.active = true ∧ g ∈ line then r.quotaLimit.toNat - r.uses.toNat else 0

/-- The uses left in all of `g` and its descendants, in a table whose leases have these lines. -/
def left (s : LeaseState n) (line : Fin n → List (Grant n)) (g : Grant n) : Nat :=
  ∑ i, leftOf g (s.records i) (line i)

/-- The admissions made through `g` and its descendants. -/
def made (b : Book n) (g : Grant n) : Nat := b.admissions.countP fun line => g ∈ line

/-- A record is the newest lease of its line and exceeds none of the line. -/
structure Bound (r : LeaseRecord) (line : List (Grant n)) : Prop where
  own : ∃ g ancestors, line = g :: ancestors ∧ r.rights = g.rights ∧ r.expiresAt = g.expiresAt
  rights : ∀ g ∈ line, g.rights.contains r.rights = true
  expiresAt : ∀ g ∈ line, r.expiresAt ≤ g.expiresAt

structure Sound (b : Book n) : Prop where
  bound : ∀ i, (b.state.records i).active = true → Bound (b.state.records i) (b.line i)
  held : ∀ i, ∀ g ∈ b.line i, g.serial < b.issued
  admitted : ∀ line ∈ b.admissions, ∀ g ∈ line, g.serial < b.issued
  budget : ∀ g, b.made g + left b.state b.line g ≤ g.quota.toNat

variable {s t : LeaseState n} {i : Fin n} {r : LeaseRecord}

/-- What a change of one slot does to the uses that are left. -/
theorem left_update (hrecords : t.records = update s.records i r)
    (line : Fin n → List (Grant n)) (l : List (Grant n)) (g : Grant n) :
    left t (update line i l) g + leftOf g (s.records i) (line i) =
      left s line g + leftOf g r l := by
  have hsum : (fun j => leftOf g (t.records j) (update line i l j)) =
      update (fun j => leftOf g (s.records j) (line j)) i (leftOf g r l) := by
    funext j
    by_cases hj : j = i
    · subst hj
      simp [hrecords]
    · simp [hrecords, update_of_ne hj]
  have hother := add_sum_erase univ
    (fun j => leftOf g (s.records j) (line j)) (mem_univ i)
  rw [left, left, hsum, sum_update_of_mem (mem_univ i), ← hother, sdiff_singleton_eq_erase]
  omega

variable {g : Grant n}

theorem left_eq_zero {line : Fin n → List (Grant n)} (h : ∀ i, g ∉ line i) : left s line g = 0 := by
  refine Finset.sum_eq_zero fun i _ => ?_
  rw [leftOf, if_neg fun hg => h i hg.2]

theorem leftOf_of_not_active {line : List (Grant n)} (h : r.active = false) :
    leftOf g r line = 0 := by
  simp [leftOf, h]

/-- A charge takes from the uses of the record's whole line. -/
theorem left_charged (h : Charged s i amount t) (line : Fin n → List (Grant n)) (g : Grant n) :
    left t line g + (if g ∈ line i then amount.toNat else 0) = left s line g := by
  obtain ⟨hactive, hfits, -, uses, huses, hrecords⟩ := h
  have hleft := left_update hrecords line (line i) g
  rw [update_eq_self] at hleft
  by_cases hg : g ∈ line i
  · simp only [leftOf, hactive, hg, and_self, if_true, huses] at hleft ⊢
    omega
  · simp only [leftOf, hg, and_false, if_false] at hleft ⊢
    omega

variable {b : Book n}

section

variable (hb : b.Sound)
include hb

/-- A charge leaves every record bound to its line. -/
theorem Sound.bound_charged (h : Charged b.state i amount t)
    (j : Fin n) (hactive : (t.records j).active = true) : Bound (t.records j) (b.line j) := by
  obtain ⟨hlive, -, -, uses, -, hrecords⟩ := h
  rw [hrecords] at hactive ⊢
  by_cases hj : j = i
  · subst hj
    rw [update_self]
    obtain ⟨hown, hrights, hexpires⟩ := hb.bound j hlive
    exact ⟨hown, hrights, hexpires⟩
  · rw [update_of_ne hj] at hactive ⊢
    exact hb.bound j hactive

/-- Nothing has been done yet through a lease that is still to be handed out. -/
theorem Sound.made_eq_zero (hg : b.issued ≤ g.serial) : b.made g = 0 := by
  refine countP_eq_zero.mpr fun line hline => ?_
  rw [decide_eq_true_eq]
  intro hmem
  have := hb.admitted line hline g hmem
  omega

/-- Handing out a lease, from a state `base` in which its quota has been taken from its
ancestors. -/
theorem Sound.enter {base : LeaseState n} {secret : UInt64} {token : LeaseToken}
    {ancestors : List (Grant n)} (hposition : b.state.position = some i)
    (hbound : ∀ j, (base.records j).active = true → Bound (base.records j) (b.line j))
    (hheld : ∀ g ∈ ancestors, g.serial < b.issued)
    (hrights : ∀ g ∈ ancestors, g.rights.contains r.rights = true)
    (hexpires : ∀ g ∈ ancestors, r.expiresAt ≤ g.expiresAt)
    (hbudget : ∀ g, b.made g + (left base b.line g +
      if g ∈ ancestors then r.quotaLimit.toNat else 0) ≤ g.quota.toNat)
    (hentered : Entered secret base i r token t) :
    (b.enter r.rights r.expiresAt r.quotaLimit ancestors token t).Sound := by
  obtain ⟨hfree, ⟨hactive, huses⟩, -, hrecords⟩ := hentered
  simp only [Book.enter, hposition]
  constructor
  case bound =>
    intro j hj
    dsimp only at hj ⊢
    rw [hrecords] at hj ⊢
    by_cases hij : j = i
    · subst hij
      rw [update_self, update_self]
      exact ⟨⟨_, _, rfl, rfl, rfl⟩, forall_mem_cons.mpr ⟨LeaseRights.contains_refl _, hrights⟩,
        forall_mem_cons.mpr ⟨UInt64.le_refl _, hexpires⟩⟩
    · rw [update_of_ne hij] at hj
      rw [update_of_ne hij, update_of_ne hij]
      exact hbound j hj
  case held =>
    refine (forall_update_iff b.line fun _ l => ∀ g ∈ l, g.serial < b.issued + 1).mpr
      ⟨forall_mem_cons.mpr ⟨Nat.lt_succ_self _, fun g hg => Nat.lt_succ_of_lt (hheld g hg)⟩, ?_⟩
    exact fun j _ g hg => Nat.lt_succ_of_lt (hb.held j g hg)
  case admitted => exact fun line hl g hg => (hb.admitted line hl g hg).trans (Nat.lt_succ_self _)
  case budget =>
    intro g
    have hleft := left_update hrecords b.line
      (⟨b.issued, i, b.moves i + 1, r.rights, r.expiresAt, r.quotaLimit⟩ :: ancestors) g
    rw [leftOf_of_not_active hfree, Nat.add_zero] at hleft
    change b.made g + left t _ g ≤ _
    rw [hleft]
    by_cases hnew : g = ⟨b.issued, i, b.moves i + 1, r.rights, r.expiresAt, r.quotaLimit⟩
    · -- the lease itself, through which nothing has been done yet
      subst hnew
      rw [hb.made_eq_zero (Nat.le_refl _),
        left_eq_zero fun j hj => Nat.lt_irrefl _ (hb.held j _ hj)]
      simp [leftOf, hactive, huses]
    · refine le_of_eq_of_le ?_ (hbudget g)
      simp [leftOf, hactive, huses, hnew]

theorem Sound.revoke {moves : Fin n → Nat} {revoked : List (Grant n)} (hactive : r.active = false)
    (hrecords : t.records = update b.state.records i r) :
    ({ b with state := t, line := update b.line i [], moves, revoked } : Book n).Sound := by
  constructor
  case bound =>
    intro j hj
    change Bound (t.records j) (update b.line i [] j)
    rw [hrecords] at hj ⊢
    by_cases hij : j = i
    · subst hij
      rw [update_self, hactive] at hj
      cases hj
    · rw [update_of_ne hij] at hj
      rw [update_of_ne hij, update_of_ne hij]
      exact hb.bound j hj
  case held =>
    exact (forall_update_iff b.line fun _ l => ∀ g ∈ l, g.serial < b.issued).mpr
      ⟨forall_mem_nil _, fun j _ => hb.held j⟩
  case admitted => exact hb.admitted
  case budget =>
    intro g
    have hleft := left_update hrecords b.line [] g
    rw [leftOf_of_not_active hactive] at hleft
    have hbudget := hb.budget g
    change b.made g + left t (update b.line i []) g ≤ _
    omega

theorem Sound.admitLease (hcharged : Charged b.state i 1 t) :
    ({ b with state := t, admissions := b.line i :: b.admissions } : Book n).Sound := by
  constructor
  case bound => exact hb.bound_charged hcharged
  case held => exact hb.held
  case admitted =>
    rintro line (_ | ⟨_, hline⟩) g hg
    · exact hb.held i g hg
    · exact hb.admitted line hline g hg
  case budget =>
    intro g
    have hleft := left_charged hcharged b.line g
    have hbudget := hb.budget g
    change (b.line i :: b.admissions).countP _ + left t b.line g ≤ _
    rw [countP_cons]
    rw [made] at hbudget
    simp only [decide_eq_true_eq, UInt32.toNat_one] at hleft ⊢
    omega

theorem Sound.attenuate {charged : LeaseState n} {p : Fin n} {secret : UInt64}
    (hposition : b.state.position = some i)
    (hrights : (b.state.records p).rights.contains r.rights = true)
    (hexpires : r.expiresAt ≤ (b.state.records p).expiresAt)
    (hcharged : Charged b.state p r.quotaLimit charged)
    (hentered : Entered secret charged i r token t) :
    (b.enter r.rights r.expiresAt r.quotaLimit (b.line p) token t).Sound := by
  have hparent := hb.bound p hcharged.active
  refine hb.enter hposition (hb.bound_charged hcharged) (hb.held p) ?_ ?_ ?_ hentered
  · exact fun g hg => LeaseRights.contains_trans (hparent.rights g hg) hrights
  · exact fun g hg => UInt64.le_trans hexpires (hparent.expiresAt g hg)
  · intro g
    rw [left_charged hcharged]
    exact hb.budget g

/-- **Every call keeps the book sound.** -/
theorem Sound.step (secret : UInt64) (call : Call) : (b.step secret call).2.Sound := by
  cases call with
  | issueRoot rights notBefore expiresAt quota =>
    rcases (ensures_issueRoot b.state secret rights notBefore expiresAt quota).cases with
      ⟨token, t, hcall, i, hi, hentered⟩ | ⟨e, t, hcall, rfl⟩
    · simp only [Book.step, LeaseState.step, hcall, answer, record]
      refine hb.enter hi hb.bound (forall_mem_nil _) (forall_mem_nil _) (forall_mem_nil _) ?_
        hentered
      simpa using hb.budget
    · simp only [Book.step, LeaseState.step, hcall, answer, record]
      exact hb
  | attenuate parent rights expiresAt quota now =>
    rcases (ensures_attenuate b.state secret parent rights expiresAt quota now).cases with
      ⟨token, t, hcall, p, i, charged, hp, hi, hrights, hexpires, hcharged, hentered⟩ |
        ⟨e, t, hcall, rfl⟩
    · simp only [Book.step, LeaseState.step, hcall, answer, record, lineOf, hp]
      have hsame := LeaseRights.intersect_eq_of_contains hrights
      have := hb.attenuate hi (hsame.symm ▸ hrights :) hexpires hcharged hentered
      simpa only [childRecord, hsame] using this
    · simp only [Book.step, LeaseState.step, hcall, answer, record]
      exact hb
  | admitLease token required now =>
    rcases (ensures_admitLease b.state token required now).cases with
      ⟨admission, t, hcall, i, hi, hcharged⟩ | ⟨e, t, hcall, rfl⟩
    · simp only [Book.step, LeaseState.step, hcall, answer, record, lineOf, hi]
      exact hb.admitLease hcharged
    · simp only [Book.step, LeaseState.step, hcall, answer, record]
      exact hb
  | revoke token =>
    rcases (ensures_revoke b.state token).cases with
      ⟨_, t, hcall, i, hi, -, hrecords⟩ | ⟨e, t, hcall, rfl⟩
    · simp only [Book.step, LeaseState.step, hcall, answer, record, hi]
      exact hb.revoke rfl hrecords
    · simp only [Book.step, LeaseState.step, hcall, answer, record]
      exact hb

end

theorem sound_new (n : Nat) : (Book.new n).Sound := by
  constructor
  case bound =>
    intro i hi
    cases hi
  case held => exact fun _ => forall_mem_nil _
  case admitted => exact forall_mem_nil _
  case budget =>
    intro g
    have hleft : left (Book.new n).state (Book.new n).line g = 0 :=
      left_eq_zero fun _ => not_mem_nil
    rw [hleft]
    exact Nat.zero_le _

end Book

/-! ## The result -/

/-- **Leases only attenuate and quotas are conserved.**  After any calls on a lattice of any
capacity: the lease in every live slot has no right that one of the leases it was derived from did
not have and expires no later than any of them, and as many admissions as its quota, at most, have
ever gone through a lease and all the leases derived from it, directly or not. -/
theorem leases_attenuate_and_quotas_are_conserved (n : Nat) (secret : UInt64) (calls : List Call) :
    let b := final (Book.step secret) (Book.new n) calls
    b.state = final (LeaseState.step secret) (LeaseState.new n) calls ∧
    (∀ i, (b.state.records i).active = true → ∃ g ancestors, b.line i = g :: ancestors ∧
        (b.state.records i).rights = g.rights ∧ (b.state.records i).expiresAt = g.expiresAt ∧
        ∀ a ∈ ancestors, a.rights.contains (b.state.records i).rights = true ∧
          (b.state.records i).expiresAt ≤ a.expiresAt) ∧
    ∀ g : Grant n, b.admissions.countP (fun line => g ∈ line) ≤ g.quota.toNat := by
  intro b
  have hb : b.Sound := invariant_final (fun _ call hb => hb.step secret call) (Book.sound_new n)
  refine ⟨Book.state_final secret _ calls, fun i hi => ?_, fun g => ?_⟩
  · obtain ⟨⟨g, ancestors, hline, hrights, hexpires⟩, hall, hlate⟩ := hb.bound i hi
    refine ⟨g, ancestors, hline, hrights, hexpires, fun a ha => ?_⟩
    have hmem : a ∈ b.line i := by
      rw [hline]
      exact List.mem_cons_of_mem g ha
    exact ⟨hall a hmem, hlate a hmem⟩
  · exact (Nat.le_add_right _ _).trans (hb.budget g)

end Sisyphus.Lease
