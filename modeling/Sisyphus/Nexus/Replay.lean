import Sisyphus.Nexus.Gateway
import Sisyphus.Foundation.Recent

/-!
# How often a command is admitted

A sequence number that the gateway has accepted is refused as a duplicate for as long as it is one
of the last `n` accepted.  After that nothing stands in its way: the freshness check looks at a
stamp that the gateway has made for the occasion (`CausalClock.stamp_eq_iff`), so it bounds nothing.

`passes` collects the checks that come before the shield's memory is asked: the frame is valid, the
lattice is there and the lease admits, and the caller's tick is not behind the clock.  A run admits
every number at most once exactly when no command that passes them carries a number that was
admitted before and is no longer among the last `n` (`admitted_nodup_iff`).
-/

set_option autoImplicit false

namespace Sisyphus.Nexus

open Fallible Function Lease List Recent Run Words

variable {n : Nat}

/-! ## The shield -/

namespace ReplayShield

variable {s : ReplayShield n}

/-- The nonces in the slots. -/
def kept (s : ReplayShield n) (i : Fin n) : Option UInt64 :=
  if (s.slots i).active then some (s.slots i).nonce else none

/-- The shield has accepted these nonces, oldest first. -/
structure Remembers (s : ReplayShield n) (past : List UInt64) : Prop where
  keeps : Keeps s.kept past
  cursor : 0 < n → s.cursor = past.length % n
  /-- A shield without slots accepts nothing. -/
  slotless : ¬0 < n → past = []

theorem knows_iff (nonce : UInt64) : s.knows nonce = true ↔ ∃ i, s.kept i = some nonce := by
  rw [knows, any_eq_true]
  constructor
  · rintro ⟨i, -, hi⟩
    rw [Bool.and_eq_true, beq_iff_eq] at hi
    exact ⟨i, by rw [kept, if_pos hi.1, hi.2]⟩
  · rintro ⟨i, hi⟩
    rw [kept] at hi
    split at hi
    · next hactive =>
      exact ⟨i, mem_finRange i, by simp [hactive, Option.some.inj hi]⟩
    · cases hi

variable {past : List UInt64}

theorem Remembers.knows_iff (h : s.Remembers past) (nonce : UInt64) :
    s.knows nonce = true ↔ nonce ∈ recent n past := by
  rw [ReplayShield.knows_iff, h.keeps.exists_iff]

theorem kept_remember (hn : 0 < n) (nonce : UInt64) :
    (s.remember hn nonce).kept = update s.kept ⟨s.cursor, s.cursor_lt hn⟩ (some nonce) := by
  funext i
  by_cases hi : i = ⟨s.cursor, s.cursor_lt hn⟩
  · rw [hi, update_self]
    simp [kept, remember]
  · simp [kept, remember, update_of_ne hi]

theorem Remembers.remember (h : s.Remembers past) (hn : 0 < n) (nonce : UInt64) :
    (s.remember hn nonce).Remembers (past ++ [nonce]) := by
  have hcursor := h.cursor hn
  refine ⟨?_, fun _ => ?_, fun hzero => absurd hn hzero⟩
  · rw [kept_remember]
    exact h.keeps.push hcursor nonce
  · change (s.cursor + 1) % n = _
    rw [hcursor, Nat.mod_add_mod, length_append, length_singleton]

/-- A refusal only counts. -/
theorem Remembers.rejected (h : s.Remembers past) (k : UInt64) :
    ({ s with rejected := k } : ReplayShield n).Remembers past :=
  ⟨h.keeps, h.cursor, h.slotless⟩

theorem ensures_reject {Q : Unit → ReplayShield n → Prop} {E : ReplayError → ReplayShield n → Prop}
    (error : ReplayError) : Ensures (reject error) s Q E ↔
      E error { s with rejected := saturatingAdd s.rejected 1 } := by
  rw [reject, ensures_bind, ensures_modify, ensures_throw]

/-- What `accept` does with an envelope without payload when no distance in time is allowed. -/
theorem ensures_accept (h : s.Remembers past) (stamp : CausalStamp) (nonce : UInt64)
    (route : UInt32) (now : UInt64) :
    Ensures (accept (CausalEnvelope.new stamp nonce route 0 0) now 0 0) s
      (fun _ t => t.Remembers (past ++ [nonce]) ∧ stamp.physicalTick = now ∧ nonce ∉ recent n past)
      (fun _ t => t.Remembers past ∧
        (stamp.physicalTick = now → 0 < n → nonce ∈ recent n past)) := by
  rw [accept]
  by_cases hn : 0 < n
  · have hempty : ¬causalPayloadBytes < (CausalEnvelope.new stamp nonce route 0 0).length.toNat :=
      Nat.not_lt_zero causalPayloadBytes
    rw [dif_pos hn, if_neg hempty, saturatingAdd_zero, saturatingAdd_zero]
    simp only [ensures_ite, ensures_reject, ensures_rules]
    refine ⟨fun hold => ⟨h.rejected _, ?_⟩, fun hold => ⟨fun hahead => ⟨h.rejected _, ?_⟩,
      fun hahead => ⟨fun hknown => ⟨h.rejected _, fun _ _ => (h.knows_iff nonce).mp hknown⟩,
        fun hnew => ⟨h.remember hn nonce, ?_, fun hmem => hnew ((h.knows_iff nonce).mpr hmem)⟩⟩⟩⟩
    · rintro rfl
      exact absurd hold (UInt64.lt_irrefl _)
    · rintro rfl
      exact absurd hahead (UInt64.lt_irrefl _)
    · exact UInt64.le_antisymm (UInt64.not_lt.mp hahead) (UInt64.not_lt.mp hold)
  · rw [dif_neg hn, ensures_reject]
    exact ⟨h.rejected _, fun _ h => absurd h hn⟩

end ReplayShield

/-! ## The gateway -/

/-- The gateway's own stamp is never old, and it is of the present exactly when the caller's tick is
not behind the clock. -/
theorem CausalClock.stamp_eq_iff (c : CausalClock) (now : UInt64) :
    (c.stamp now).physicalTick = now ↔ c.physicalTick ≤ now := by
  rw [stamp, advance]
  split
  · next hlt => exact ⟨fun _ => UInt64.le_of_lt hlt, fun _ => rfl⟩
  · next hge =>
    change c.physicalTick = now ↔ _
    exact ⟨UInt64.le_of_eq, fun hle => UInt64.le_antisymm hle (UInt64.not_lt.mp hge)⟩

namespace NexusGateway

/-- A call of the lease lattice succeeds. -/
def admits : EStateM.Result LeaseError (LeaseState 256) LeaseAdmission → Bool
  | .ok _ _ => true
  | .error _ _ => false

/-- The command passes every check but the last: its frame is valid, its lease admits it and the
clock is not ahead of the caller. -/
def passes (g : NexusGateway n) (command : NexusCommand) (now : UInt64) : Bool :=
  match command.validate, g.leases with
  | .ok opcode, some lattice =>
    admits (Lease.admitLease ⟨command.capability⟩ (rightsForOpcode opcode) now lattice.state) &&
      decide (g.clock.physicalTick ≤ now)
  | _, _ => false

variable {g : NexusGateway n}

theorem ensures_settleReplay {x : EStateM ReplayError (ReplayShield n) Unit} {r : ReplayShield n}
    {Q : Unit → NexusGateway n → Prop} {E : GatewayError → NexusGateway n → Prop} :
    Ensures (settleReplay (x r)) g Q E ↔ Ensures x r (fun _ t => Q () { g with replay := t })
        (fun e t => E (.replay e) { g with replay := t }) := by
  rw [Ensures, Ensures]
  cases x r with
  | ok a t | error e t => rfl

variable {past : List UInt64}

theorem ensures_admitCommand (h : g.replay.Remembers past) (command : NexusCommand) (now : UInt64) :
    Ensures (admitCommand command now) g (fun a t => a.sequence = command.sequence ∧
        t.replay.Remembers (past ++ [command.sequence]) ∧
        g.passes command now = true ∧ command.sequence ∉ recent n past)
      (fun _ t => t.replay.Remembers past ∧
        (g.passes command now = true → 0 < n → command.sequence ∈ recent n past)) := by
  cases hvalid : command.validate with
  | error e => simp [admitCommand, validated, passes, hvalid, h]
  | ok opcode =>
    cases hleases : g.leases with
    | none => simp [admitCommand, validated, passes, hvalid, hleases, h]
    | some lattice =>
      cases hlease : Lease.admitLease ⟨command.capability⟩ (rightsForOpcode opcode) now
          lattice.state with
      | error e t =>
        simp [admitCommand, validated, passes, hvalid, hleases, hlease, settleLease, admits, h]
      | ok admission t =>
        have hpasses : g.passes command now = true ↔
            (g.clock.stamp now).physicalTick = now := by
          simp [passes, hvalid, hleases, hlease, admits, g.clock.stamp_eq_iff]
        simp only [admitCommand, validated, hvalid, hleases, ensures_rules, reduceCtorEq,
          Except.ok.injEq, Option.some.injEq, forall_eq', hlease, settleLease, ensures_settleReplay]
        refine (ReplayShield.ensures_accept h (g.clock.stamp now) command.sequence
          command.opcode.toUInt32 now).mono ?_ ?_
        · rintro _ t ⟨hremembers, htick, hnew⟩
          exact ⟨hremembers, hpasses.mpr htick, hnew⟩
        · rintro _ t ⟨hremembers, hknown⟩
          exact ⟨hremembers, fun hp => hknown (hpasses.mp hp)⟩

/-! ## Runs -/

/-- The sequence numbers admitted, oldest first. -/
def admitted (history : List (Event × Option Admission)) : List UInt64 :=
  history.filterMap fun entry => entry.2.map Admission.sequence

/-- A command that passes the other checks carries no number that was admitted and is no longer
among the last `n`. -/
def NotForgotten (history : List (Event × Option Admission)) (g : NexusGateway n) :
    Event → Prop
  | .present command now => g.passes command now = true →
    command.sequence ∈ admitted history → command.sequence ∈ recent n (admitted history)
  | .boot _ | .lease _ => True

/-- What an event adds to the numbers admitted. -/
theorem step_cases (h : g.replay.Remembers past) (event : Event) :
    (∃ command now, event = .present command now ∧ g.passes command now = true ∧
      (g.step event).1.map Admission.sequence = some command.sequence ∧
      (g.step event).2.replay.Remembers (past ++ [command.sequence]) ∧
      command.sequence ∉ recent n past) ∨
    ((g.step event).1 = none ∧ (g.step event).2.replay.Remembers past ∧
      ∀ command now, event = .present command now → g.passes command now = true → 0 < n →
        command.sequence ∈ recent n past) := by
  cases event with
  | boot secret =>
    refine .inr ⟨rfl, ?_, fun _ _ h => by cases h⟩
    rw [step, bootLeases]
    cases g.leases with
    | none | some lattice => exact h
  | lease call =>
    refine .inr ⟨rfl, ?_, fun _ _ h => by cases h⟩
    rw [step, callLeases]
    cases g.leases with
    | none | some lattice => exact h
  | present command now =>
    rcases (ensures_admitCommand h command now).cases with
      ⟨a, t, hcall, hsequence, hremembers, hpasses, hnew⟩ | ⟨e, t, hcall, hremembers, hknown⟩
    · refine .inl ⟨command, now, rfl, hpasses, ?_, ?_, hnew⟩
      · simp [step, hcall, outcome, hsequence]
      · simpa [step, hcall, outcome] using hremembers
    · refine .inr
        ⟨by simp [step, hcall, outcome], by simpa [step, hcall, outcome] using hremembers, ?_⟩
      rintro _ _ ⟨⟩
      exact hknown

theorem admitted_snoc (history : List (Event × Option Admission)) (event : Event)
    (a : Option Admission) :
    admitted (history ++ [(event, a)]) = admitted history ++ (a.map Admission.sequence).toList := by
  rw [admitted, filterMap_append]
  cases a with
  | none | some a => rfl

variable {history : List (Event × Option Admission)}

/-- The shield goes on remembering what has been admitted. -/
theorem remembers_step (hg : g.replay.Remembers (admitted history)) (event : Event) :
    (g.step event).2.replay.Remembers (admitted (history ++ [(event, (g.step event).1)])) := by
  rw [admitted_snoc]
  rcases step_cases hg event with ⟨command, now, -, -, hsequence, hremembers, -⟩ |
    ⟨hnone, hremembers, -⟩
  · rwa [hsequence, Option.toList_some]
  · rwa [hnone, Option.map_none, Option.toList_none, append_nil]

/-- An event keeps the numbers distinct exactly when it presents none that is forgotten. -/
theorem notForgotten_iff (hg : g.replay.Remembers (admitted history))
    (hnodup : (admitted history).Nodup) (event : Event) : NotForgotten history g event ↔
      (admitted (history ++ [(event, (g.step event).1)])).Nodup := by
  rw [admitted_snoc]
  rcases step_cases hg event with ⟨command, now, rfl, hpasses, hsequence, -, hnew⟩ |
    ⟨hnone, -, hknown⟩
  · have hiff : NotForgotten history g (.present command now) ↔
        command.sequence ∉ admitted history :=
      ⟨fun h hmem => hnew (h hpasses hmem), fun h _ hmem => absurd hmem h⟩
    rw [hsequence, Option.toList_some, ← concat_eq_append, nodup_concat, hiff]
    exact (and_iff_left hnodup).symm
  · rw [hnone, Option.map_none, Option.toList_none, append_nil]
    refine iff_of_true ?_ hnodup
    cases event with
    | boot secret | lease call => trivial
    | present command now =>
      intro hpasses hmem
      by_cases hn : 0 < n
      · exact hknown command now rfl hpasses hn
      · rw [hg.slotless hn] at hmem
        cases hmem

/-- **Sequence numbers are admitted at most once exactly when the shield never meets one that it has
forgotten.** -/
theorem admitted_nodup_iff (n : Nat) (node : UInt16) (events : List Event) :
    (admitted (trace step (NexusGateway.new n node) events)).Nodup ↔
      EveryMoment step NotForgotten [] (NexusGateway.new n node) events := by
  let I : List (Event × Option Admission) → NexusGateway n → Prop :=
    fun history g => g.replay.Remembers (admitted history)
  have hback : ∀ past more : List (Event × Option Admission),
      (admitted (past ++ more)).Nodup → (admitted past).Nodup := by
    intro past more h
    rw [admitted, List.filterMap_append] at h
    exact h.of_append_left
  have hnew : I [] (NexusGateway.new n node) :=
    ⟨keeps_nil, fun _ => (Nat.zero_mod n).symm, fun _ => rfl⟩
  exact (everyMoment_iff (fun past g event (hg : I past g) => remembers_step hg event)
    (fun past g event hg hnodup => notForgotten_iff hg hnodup event) hback hnew
    List.nodup_nil).symm

/-- Sequence numbers 1, 2, 3 and once more 1, presented under one root lease, for a shield of two
slots. -/
def replayedRun : List Event :=
  [.boot 7, .lease (.issueRoot ⟨0x8000000f⟩ 0 0xffffffffffffffff 100)] ++
    [1, 2, 3, 1].map fun sequence =>
      .present (NexusCommand.new 1 sequence 12086478020408377344 fun _ => 0) 10

/-- The first command is admitted again as soon as two others have been admitted. -/
theorem replayedRun_admits_twice :
    admitted (trace step (NexusGateway.new 2 0) replayedRun) = [1, 2, 3, 1] ∧
      ¬(admitted (trace step (NexusGateway.new 2 0) replayedRun)).Nodup := by
  decide +kernel

end NexusGateway

end Sisyphus.Nexus
