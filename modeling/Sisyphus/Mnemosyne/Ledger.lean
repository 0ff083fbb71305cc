import Sisyphus.Foundation.Ensures
import Sisyphus.Foundation.Recent
import Sisyphus.Foundation.Run
import Sisyphus.Foundation.Words

/-!
# The event ledger

A model of `mnemosyne_ledger.rs`.  A ring of `N` entries holds the last events of an epoch.  Each
entry is sealed with a root over its own fields and the root of the entry before it.  When the ring
is full, the root of the entry that is overwritten becomes the anchor of the chain.

Every round of the mixing function is injective, so an entry's root determines each of its fields
once the others are given.
-/

set_option autoImplicit false

namespace Sisyphus.Mnemosyne

open Fallible Function List Words

/-- In the order of their codes, which start at one. -/
inductive LedgerEventKind
  | observation
  | policyDecision
  | dmaPrepared
  | dmaCommitted
  | dmaRevoked
  | temporalViolation
  | quarantine
  | recovery
  | checkpoint
  | deviceReset

structure LedgerEvent where
  tick : UInt64
  subject : UInt64
  data0 : UInt64
  data1 : UInt64
  kind : LedgerEventKind
  severity : UInt8
  flags : UInt8

structure LedgerEntry where
  sequence : UInt64
  tick : UInt64
  subject : UInt64
  data0 : UInt64
  data1 : UInt64
  previousRoot : UInt64
  chainRoot : UInt64
  kind : UInt16
  severity : UInt8
  flags : UInt8

structure LedgerSeal where
  epoch : UInt64
  retained : Nat
  overwritten : UInt64
  firstSequence : UInt64
  lastSequence : UInt64
  anchorRoot : UInt64
  chainRoot : UInt64

inductive LedgerError
  | zeroCapacity
  | empty
  | sequenceExhausted
  | corruptPreviousRoot
  | corruptEntryRoot
  | corruptSequence
  | invalidEpoch

/-! ## Roots -/

def avalanche (value : UInt64) : UInt64 :=
  let value := value ^^^ (value >>> 30)
  let value := value * 0xbf58476d1ce4e5b9
  let value := value ^^^ (value >>> 27)
  let value := value * 0x94d049bb133111eb
  value ^^^ (value >>> 31)

def absorb (state word : UInt64) : UInt64 := avalanche (state ^^^ word * 0x9e3779b97f4a7c15)

def genesisRoot (secret epoch : UInt64) : UInt64 :=
  avalanche (secret ^^^ rotateLeft epoch 17 ^^^ 0x4d4e454d4f53594e)

def entryRoot (secret epoch : UInt64) (entry : LedgerEntry) : UInt64 :=
  let state := [entry.sequence, entry.tick, entry.subject, entry.data0, entry.data1,
    entry.kind.toUInt64, entry.severity.toUInt64, entry.flags.toUInt64].foldl absorb
      (genesisRoot (secret ^^^ entry.previousRoot) epoch)
  -- a rotation to the right by 11
  avalanche (state ^^^ rotateLeft secret 53)

/-- The entry that records an event. -/
def sealEvent (secret epoch sequence previousRoot : UInt64) (event : LedgerEvent) : LedgerEntry :=
  let entry : LedgerEntry :=
    { sequence, tick := event.tick, subject := event.subject, data0 := event.data0,
      data1 := event.data1, previousRoot, chainRoot := 0, kind := .ofNat (event.kind.ctorIdx + 1),
      severity := event.severity, flags := event.flags }
  { entry with chainRoot := entryRoot secret epoch entry }

/-! ## The ring -/

/-- `MnemosyneLedger` with the state behind its lock. -/
structure MnemosyneLedger (N : Nat) where
  secret : UInt64
  entries : Nat → LedgerEntry
  head : Nat
  length : Nat
  nextSequence : UInt64
  epoch : UInt64
  anchorRoot : UInt64
  overwritten : UInt64

namespace MnemosyneLedger

variable {N : Nat}

def new (secret epoch : UInt64) : MnemosyneLedger N :=
  { secret, entries := fun _ => ⟨0, 0, 0, 0, 0, 0, 0, 0, 0, 0⟩, head := 0, length := 0,
    nextSequence := 1, epoch, anchorRoot := genesisRoot secret epoch, overwritten := 0 }

variable (self : MnemosyneLedger N)

def logicalIndex (offset : Nat) : Nat := (self.head + offset) % N

/-- The entry at an offset from the oldest. -/
def entry (offset : Nat) : LedgerEntry := self.entries (self.logicalIndex offset)

def latest : Option LedgerEntry :=
  if self.length = 0 then none else some (self.entry (self.length - 1))

def append (event : LedgerEvent) : EStateM LedgerError (MnemosyneLedger N) LedgerEntry := do
  refuse (N = 0) .zeroCapacity
  let self ← get
  let sequence := self.nextSequence
  refuse (sequence = 0 ∨ sequence = 0xffffffffffffffff) .sequenceExhausted
  let previousRoot := (self.latest.map (·.chainRoot)).getD self.anchorRoot
  let (index, next) : Nat × MnemosyneLedger N :=
    if self.length < N then
      (self.logicalIndex self.length, { self with length := self.length + 1 })
    else
      (self.head, { self with anchorRoot := (self.entries self.head).chainRoot
                              head := (self.head + 1) % N
                              overwritten := saturatingAdd self.overwritten 1 })
  let entry := sealEvent self.secret self.epoch sequence previousRoot event
  set (show MnemosyneLedger N from
    { next with entries := update self.entries index entry, nextSequence := sequence + 1 })
  return entry

/-- One pass through the loop of `verify`. -/
def verifyEntry (expected : UInt64 × Option UInt64) (offset : Nat) :
    Except LedgerError (UInt64 × Option UInt64) := do
  let entry := self.entry offset
  reject (entry.previousRoot != expected.1) .corruptPreviousRoot
  reject (expected.2.elim (entry.sequence = 0) (entry.sequence ≠ · + 1)) .corruptSequence
  reject (entry.chainRoot != entryRoot self.secret self.epoch entry) .corruptEntryRoot
  return (entry.chainRoot, some entry.sequence)

def verify : Except LedgerError LedgerSeal := do
  reject (N = 0) .zeroCapacity
  let (chainRoot, last) ← (range self.length).foldlM self.verifyEntry (self.anchorRoot, none)
  return { epoch := self.epoch, retained := self.length, overwritten := self.overwritten,
           firstSequence := if self.length = 0 then 0 else (self.entries self.head).sequence,
           lastSequence := last.getD 0, anchorRoot := self.anchorRoot, chainRoot }

/-- What `copy_recent` writes into a buffer of that length. -/
def copyRecent (room : Nat) : List LedgerEntry :=
  if N = 0 ∨ room = 0 then []
  else
    let count := min room self.length
    (range' (self.length - count) count).map self.entry

def resetEpoch (newEpoch : UInt64) : EStateM LedgerError (MnemosyneLedger N) LedgerSeal := do
  refuse (N = 0) .zeroCapacity
  refuse (newEpoch = 0) .invalidEpoch
  let fresh : MnemosyneLedger N := new (← get).secret newEpoch
  set fresh
  return { epoch := newEpoch, retained := 0, overwritten := 0, firstSequence := 0,
           lastSequence := 0, anchorRoot := fresh.anchorRoot, chainRoot := fresh.anchorRoot }

end MnemosyneLedger

/-! ## The ledger and its history -/

inductive Request
  | append (event : LedgerEvent)
  | resetEpoch (newEpoch : UInt64)

/-- A ledger with the events that it has accepted in its epoch, oldest first. -/
structure Chronicle (N : Nat) where
  ledger : MnemosyneLedger N
  events : List LedgerEvent

namespace Chronicle

variable {N : Nat}

def start (secret epoch : UInt64) : Chronicle N := ⟨.new secret epoch, []⟩

def step (c : Chronicle N) : Request → Unit × Chronicle N
  | .append event =>
    match c.ledger.append event with
    | .ok _ ledger => ((), ⟨ledger, c.events ++ [event]⟩)
    | .error _ ledger => ((), ⟨ledger, c.events⟩)
  | .resetEpoch newEpoch =>
    match c.ledger.resetEpoch newEpoch with
    | .ok _ ledger => ((), ⟨ledger, []⟩)
    | .error _ ledger => ((), ⟨ledger, c.events⟩)

end Chronicle

variable {offset : Nat}

namespace MnemosyneLedger

variable {N : Nat} {l l' : MnemosyneLedger N} {events : List LedgerEvent}

/-- The root that the entry at an offset has to name. -/
def rootBefore (l : MnemosyneLedger N) : Nat → UInt64
  | 0 => l.anchorRoot
  | offset + 1 => (l.entry offset).chainRoot

/-- The entry at an offset records the event that belongs there, under its number and sealed on top
of the entry before. -/
def Records (l : MnemosyneLedger N) (events : List LedgerEvent) (offset : Nat) : Prop :=
  (l.entry offset).sequence.toNat = events.length - l.length + offset + 1 ∧
    ∃ event, events[events.length - l.length + offset]? = some event ∧
      l.entry offset = sealEvent l.secret l.epoch (l.entry offset).sequence (l.rootBefore offset)
        event

/-- **The ring holds the last events**. -/
structure Holds (l : MnemosyneLedger N) (events : List LedgerEvent) : Prop where
  head_lt : 0 < N → l.head < N
  length_eq : l.length = min events.length N
  sequence : l.nextSequence.toNat = events.length + 1
  entry : ∀ offset < l.length, l.Records events offset

theorem holds_new (secret epoch : UInt64) : (new secret epoch : MnemosyneLedger N).Holds [] where
  head_lt h := h
  length_eq := by simp [new]
  sequence := rfl
  entry _ h := absurd h (Nat.not_lt_zero _)

/-- One more entry, whether the ring moves on by one or not. -/
theorem Holds.push (h : l.Holds events) (event : LedgerEvent) (moved : Nat)
    (hsame : l'.secret = l.secret ∧ l'.epoch = l.epoch) (hhead : 0 < N → l'.head < N)
    (hlength : l'.length + moved = l.length + 1) (hroom : l'.length = min (events.length + 1) N)
    (hsequence : l'.nextSequence.toNat = events.length + 2)
    (hanchor : l'.anchorRoot = l.rootBefore moved)
    (hold : ∀ offset, offset + moved < l.length → l'.entry offset = l.entry (offset + moved))
    (hnew : ∀ offset, offset + moved = l.length → l'.entry offset =
      sealEvent l.secret l.epoch l.nextSequence (l.rootBefore l.length) event) :
    l'.Holds (events ++ [event]) := by
  refine ⟨hhead, by simpa using hroom, by simpa using hsequence, fun offset hoffset => ?_⟩
  have hbefore : l'.rootBefore offset = l.rootBefore (offset + moved) := by
    cases offset with
    | zero => rw [Nat.zero_add, ← hanchor, rootBefore]
    | succ offset => rw [Nat.succ_add, rootBefore, hold offset (by omega), rootBefore]
  have hle : l.length ≤ events.length := h.length_eq ▸ min_le_left ..
  have hnumber : (events ++ [event]).length - l'.length + offset =
      events.length - l.length + (offset + moved) := by
    rw [length_append, length_singleton]
    omega
  rw [Records, hnumber, hbefore, hsame.1, hsame.2]
  obtain hlt | heq := (show offset + moved ≤ l.length by omega).lt_or_eq
  · rw [hold offset hlt, getElem?_append_left (by omega)]
    exact h.entry _ hlt
  · rw [hnew offset heq, heq, Nat.sub_add_cancel hle]
    exact ⟨h.sequence, event, getElem?_concat_length, rfl⟩

theorem previous_eq (l : MnemosyneLedger N) :
    (l.latest.map (·.chainRoot)).getD l.anchorRoot = l.rootBefore l.length := by
  rw [latest]
  cases l.length with
  | zero | succ length => rfl

theorem ensures_append (h : l.Holds events) (event : LedgerEvent) : Ensures (append event) l
    (fun _ next => next.Holds (events ++ [event])) fun _ next => next = l := by
  simp only [append, ensures_rules, previous_eq, decide_eq_false_iff_not, not_or]
  rintro hN ⟨-, hlast⟩
  have hhead := h.head_lt (Nat.pos_of_ne_zero hN)
  have hlength := h.length_eq
  have hsequence := h.sequence
  have hnext : (l.nextSequence + 1).toNat = events.length + 2 := by
    have hlt := l.nextSequence.toNat_lt
    rw [← UInt64.toNat_inj] at hlast
    change _ ≠ 2 ^ 64 - 1 at hlast
    rw [toNat_add_one_of_lt (by omega), hsequence]
  split <;> dsimp only
  · next hroom =>
    refine h.push event 0 ⟨rfl, rfl⟩ h.head_lt rfl (by dsimp only; omega) hnext rfl
      (fun offset hoffset => ?_) ?_
    · have hne : (l.head + offset) % N ≠ l.logicalIndex l.length :=
        Recent.mod_ne_mod (by omega) (by omega)
      exact update_of_ne hne ..
    · rintro _ rfl
      exact update_self ..
  · next hfull =>
    have hindex (offset : Nat) : ((l.head + 1) % N + offset) % N = (l.head + (offset + 1)) % N := by
      rw [Nat.mod_add_mod, Nat.add_right_comm, Nat.add_assoc]
    have hself : l.head % N = l.head := Nat.mod_eq_of_lt hhead
    refine h.push event 1 ⟨rfl, rfl⟩ (Nat.mod_lt _) rfl (by dsimp only; omega) hnext
      ?_ (fun offset hoffset => ?_) fun offset hoffset => ?_ <;>
      simp only [rootBefore, entry, logicalIndex, hindex]
    · rw [Nat.add_zero, hself]
    · refine update_of_ne (fun heq => ?_) ..
      exact Recent.mod_ne_mod (n := N) (by omega) (by omega) (hself.trans heq.symm)
    · rw [show l.head + (offset + 1) = l.head + N by omega, Nat.add_mod_right, hself,
        update_self]

/-! ## Verification -/

theorem Holds.roots (h : l.Holds events) (hoffset : offset < l.length) :
    (l.entry offset).previousRoot = l.rootBefore offset ∧
      (l.entry offset).chainRoot = entryRoot l.secret l.epoch (l.entry offset) := by
  obtain ⟨-, event, -, hentry⟩ := h.entry offset hoffset
  rw [hentry]
  simp only [sealEvent, entryRoot, and_self]

theorem Holds.verifyEntry_eq (h : l.Holds events) (hoffset : offset < l.length)
    {last : Option UInt64}
    (hlast : ∀ previous ∈ last, previous.toNat = events.length - l.length + offset) :
    l.verifyEntry (l.rootBefore offset, last) offset =
      .ok (l.rootBefore (offset + 1), some (l.entry offset).sequence) := by
  have hnumber := (h.entry offset hoffset).1
  obtain ⟨hprevious, hroot⟩ := h.roots hoffset
  simp only [verifyEntry, except_bind_eq_ok, reject_eq_ok, hprevious, ← hroot, bne_self_eq_false,
    true_and]
  refine ⟨⟨⟩, ⟨⟩, ?_, ⟨⟩, rfl⟩
  cases last with
  | none =>
    have hne : (l.entry offset).sequence ≠ 0 := by
      rintro hzero
      rw [hzero] at hnumber
      cases hnumber
    simpa using hne
  | some previous =>
    have hlast := hlast previous rfl
    have heq : (l.entry offset).sequence = previous + 1 := by
      have hlt := (l.entry offset).sequence.toNat_lt
      rw [← UInt64.toNat_inj, toNat_add_one_of_lt (by omega)]
      omega
    simpa using heq

theorem Holds.verify_eq (h : l.Holds events) (hN : 0 < N) : ∃ sealed, l.verify = .ok sealed := by
  suffices ∀ n ≤ l.length, ∃ last, (range n).foldlM l.verifyEntry (l.anchorRoot, none) =
      .ok (l.rootBefore n, last) ∧
        ∀ previous ∈ last, previous.toNat = events.length - l.length + n by
    obtain ⟨last, hloop, -⟩ := this l.length le_rfl
    simp [verify, hloop, reject, hN.ne', bind, Except.bind, pure, Except.pure]
  intro n hn
  induction n with
  | zero => exact ⟨none, rfl, by simp⟩
  | succ n ih =>
    obtain ⟨last, hloop, hlast⟩ := ih (by omega)
    refine ⟨some (l.entry n).sequence, ?_, ?_⟩
    · simp only [range_succ, foldlM_append, hloop, foldlM_cons, foldlM_nil, except_bind_eq_ok]
      exact ⟨_, rfl, _, h.verifyEntry_eq hn hlast, rfl⟩
    · rintro _ ⟨⟩
      exact (h.entry n hn).1

theorem copyRecent_eq (l : MnemosyneLedger N) (hN : 0 < N) (room : Nat) :
    l.copyRecent room = ((range l.length).map l.entry).drop (l.length - room) := by
  rw [copyRecent, ← map_drop, range_eq_range', drop_range']
  split
  · next h => simp [h.resolve_left hN.ne']
  · simp only [Nat.zero_add]
    congr 2 <;> omega

end MnemosyneLedger

namespace Chronicle

open MnemosyneLedger Run

variable {N : Nat}

theorem holds_final (secret epoch : UInt64) (requests : List Request) :
    let c := final step (start secret epoch : Chronicle N) requests
    c.ledger.Holds c.events := by
  refine invariant_final (I := fun c : Chronicle N => c.ledger.Holds c.events)
    (fun c r h => ?_) (holds_new secret epoch)
  cases r with
  | append event =>
    obtain ⟨_, l, hx, hl⟩ | ⟨_, _, hx, rfl⟩ := (ensures_append h event).cases <;> rw [step, hx]
    · exact hl
    · exact h
  | resetEpoch newEpoch =>
    have hreset : Ensures (resetEpoch newEpoch) c.ledger (fun _ l => l.Holds []) fun _ l =>
        l = c.ledger := by
      simp only [resetEpoch, ensures_rules]
      exact fun _ _ => holds_new _ _
    obtain ⟨_, l, hx, hl⟩ | ⟨_, _, hx, rfl⟩ := hreset.cases <;> rw [step, hx]
    · exact hl
    · exact h

/-- **The ledger is faithful.**  After every run a ledger of positive capacity verifies.  It retains
the last events of its epoch, in order and under consecutive numbers, and a copy of the recent ones
is the end of what it retains. -/
theorem ledger_faithful (hN : 0 < N) (secret epoch : UInt64) (requests : List Request) :
    let c := final step (start secret epoch : Chronicle N) requests
    (∃ sealed, c.ledger.verify = .ok sealed) ∧ c.ledger.length = min c.events.length N ∧
      (∀ offset < c.ledger.length, c.ledger.Records c.events offset) ∧
      ∀ room, c.ledger.copyRecent room =
        ((range c.ledger.length).map c.ledger.entry).drop (c.ledger.length - room) := by
  have h := holds_final (N := N) secret epoch requests
  exact ⟨h.verify_eq hN, h.length_eq, h.entry, copyRecent_eq _ hN⟩

def sampleEvent (tick : UInt64) : LedgerEvent :=
  { tick, subject := 9, data0 := tick * 10, data1 := 0, kind := .observation, severity := 1,
    flags := 0 }

theorem ledger_faithful_after_five : 0 < 3 ∧
    let c := final step (start 0x1234 7 : Chronicle 3)
      ([1, 2, 3, 4, 5].map fun tick => .append (sampleEvent tick))
    c.events.length = 5 ∧ c.ledger.length = 3 ∧ ∃ sealed, c.ledger.verify = .ok sealed :=
  ⟨by decide, by decide +kernel, by decide +kernel, (ledger_faithful (by decide) _ _ _).1⟩

/-- A ledger without room verifies after no run. -/
theorem verify_of_zero_capacity (secret epoch : UInt64) (requests : List Request) :
    (final step (start secret epoch : Chronicle 0) requests).ledger.verify =
      .error .zeroCapacity := rfl

theorem zero_capacity_refused :
    (final step (start 0x1234 7 : Chronicle 0) [.append (sampleEvent 1)]).ledger.verify =
      .error .zeroCapacity := verify_of_zero_capacity ..

end Chronicle

/-! ## Tampering -/

theorem avalanche_injective : Injective avalanche := by
  have hmul {a b : UInt64} (h : a * b = 1) : Injective (· * a) :=
    (IsUnit.of_mul_eq_one b h).mul_left_injective
  have hfirst := hmul (a := 0xbf58476d1ce4e5b9) (b := 0x96de1b173f119089) (by decide)
  have hsecond := hmul (a := 0x94d049bb133111eb) (b := 0x319642b2d24d8ec3) (by decide)
  exact (xor_shiftRight_injective (by decide)).comp <| hsecond.comp <|
    (xor_shiftRight_injective (by decide)).comp <| hfirst.comp <|
      xor_shiftRight_injective (by decide)

@[simp] theorem absorb_left_inj {a b word : UInt64} : absorb a word = absorb b word ↔ a = b := by
  simp [absorb, avalanche_injective.eq_iff]

@[simp] theorem absorb_right_inj {state a b : UInt64} :
    absorb state a = absorb state b ↔ a = b := by
  have hmul := (IsUnit.of_mul_eq_one (M := UInt64) (a := 0x9e3779b97f4a7c15) 0xf1de83e19937733d
    (by decide)).mul_left_injective
  simp [absorb, avalanche_injective.eq_iff, hmul.eq_iff]

/-- One of the fields that enter the chain is replaced by another value. -/
inductive Tampers (entry : LedgerEntry) : LedgerEntry → Prop
  | sequence : ∀ value ≠ entry.sequence, Tampers entry { entry with sequence := value }
  | tick : ∀ value ≠ entry.tick, Tampers entry { entry with tick := value }
  | subject : ∀ value ≠ entry.subject, Tampers entry { entry with subject := value }
  | data0 : ∀ value ≠ entry.data0, Tampers entry { entry with data0 := value }
  | data1 : ∀ value ≠ entry.data1, Tampers entry { entry with data1 := value }
  | previousRoot : ∀ value ≠ entry.previousRoot, Tampers entry { entry with previousRoot := value }
  | chainRoot : ∀ value ≠ entry.chainRoot, Tampers entry { entry with chainRoot := value }
  | kind : ∀ value ≠ entry.kind, Tampers entry { entry with kind := value }
  | severity : ∀ value ≠ entry.severity, Tampers entry { entry with severity := value }
  | flags : ∀ value ≠ entry.flags, Tampers entry { entry with flags := value }

/-- An entry and its forgery do not both carry the root of their fields. -/
theorem Tampers.root_ne {entry forged : LedgerEntry} (h : Tampers entry forged)
    {secret epoch : UInt64} (hroot : entry.chainRoot = entryRoot secret epoch entry) :
    forged.chainRoot ≠ entryRoot secret epoch forged := by
  intro hforged
  cases h with
  | chainRoot value hne => exact hne (hforged.trans hroot.symm)
  | _ value hne =>
    refine hne ?_
    have := hforged.symm.trans hroot
    simpa [entryRoot, genesisRoot, avalanche_injective.eq_iff, UInt16.toUInt64_inj,
      UInt8.toUInt64_inj] using this

/-- A ledger that verifies has the root of its fields in every entry. -/
theorem MnemosyneLedger.root_of_verify {N : Nat} {l : MnemosyneLedger N} {sealed : LedgerSeal}
    (h : l.verify = .ok sealed) (hoffset : offset < l.length) :
    (l.entry offset).chainRoot = entryRoot l.secret l.epoch (l.entry offset) := by
  simp only [verify, except_bind_eq_ok] at h
  obtain ⟨-, -, _, hloop, -⟩ := h
  refine foldlM_eq_ok (I := fun done _ => ∀ offset ∈ done,
    (l.entry offset).chainRoot = entryRoot l.secret l.epoch (l.entry offset)) hloop
    (by simp) (fun done offset _ _ _ hdone hstep => ?_) offset (mem_range.mpr hoffset)
  simp only [verifyEntry, except_bind_eq_ok, reject_eq_ok, bne_eq_false_iff_eq] at hstep
  obtain ⟨-, -, -, -, -, hroot, -⟩ := hstep
  simpa [or_imp, forall_and] using ⟨hdone, hroot⟩

/-- The ledger with another entry at an offset. -/
def MnemosyneLedger.replace {N : Nat} (l : MnemosyneLedger N) (offset : Nat) (entry : LedgerEntry) :
    MnemosyneLedger N :=
  { l with entries := update l.entries (l.logicalIndex offset) entry }

namespace Chronicle

open MnemosyneLedger Run

variable {N : Nat}

/-- **Every tampering is detected.**  No ledger verifies in which one field of one retained entry
has been replaced by another value. -/
theorem tampering_detected (secret epoch : UInt64) (requests : List Request) :
    let l := (final step (start secret epoch : Chronicle N) requests).ledger
    ∀ offset < l.length, ∀ forged, Tampers (l.entry offset) forged →
      ∀ sealed, (l.replace offset forged).verify ≠ .ok sealed := by
  intro l offset hoffset forged hforged sealed hverify
  have hroot := ((holds_final secret epoch requests).roots hoffset).2
  have hforgery := root_of_verify hverify
    (show offset < (l.replace offset forged).length from hoffset)
  rw [show (l.replace offset forged).entry offset = forged from update_self ..] at hforgery
  exact hforged.root_ne hroot hforgery

theorem tampered_tick_detected :
    let l := (final step (start 0x1234 7 : Chronicle 3) [.append (sampleEvent 1)]).ledger
    0 < l.length ∧ ∀ sealed, (l.replace 0 { l.entry 0 with tick := 2 }).verify ≠ .ok sealed :=
  ⟨by decide, tampering_detected _ _ _ 0 (by decide) _ (.tick 2 (by decide))⟩

end Chronicle

end Sisyphus.Mnemosyne
