import Sisyphus.Foundation.CycleRing
import Sisyphus.Foundation.Words
import Sisyphus.Xhci.Machine

/-!
# Who owns a block

Commands are numbered as they are handed over.  Command `k` goes to block `k % 255`, with the cycle
bit of its lap.  `Commands` relates the command ring to the controller, `Events` the event ring to
the machine, and each holds at every instant, between any two bytes.  The controller's steps keep
them (`Inv.step`), and so do the bytes that the driver writes: those that prepare a block which the
controller does not own (`Commands.poke_hidden`), those of the link while the controller is in front
of it (`Commands.poke_link`), and the one that hands a block over (`Commands.handOver`).
-/

set_option autoImplicit false

namespace Sisyphus.Xhci

open Bytes CycleRing Function List UInt64

/-! ## Commands -/

/-- The address and the block of a command. -/
def command (base : UInt64) (k : Nat) : UInt64 × RawTrb :=
  (base + UInt64.ofNat (trbBytes * (k % commandCapacity)),
    XhciRingMachine.noOpTrb (lapCycle commandCapacity k))

def link (base : UInt64) (cycle : Bool) : UInt64 × RawTrb :=
  (base + UInt64.ofNat (trbBytes * commandLinkIndex), linkTrb base cycle)

/-- The controller is at the block of command `n`. -/
def AtCommand (base : UInt64) (n : Nat) (c : Controller) : Prop :=
  c.dequeue = (command base n).1 ∧ c.cycle = lapCycle commandCapacity n

/-- It is still at the link in front of it. -/
def AtLink (base : UInt64) (n : Nat) (c : Controller) : Prop :=
  n % commandCapacity = 0 ∧ commandCapacity ≤ n ∧ c.dequeue = (link base c.cycle).1 ∧
    c.cycle = lapCycle commandCapacity (n - 1)

/-- The command ring after `p` commands. -/
structure Commands (base : UInt64) (p : Nat) (page : Page) (c : Controller) : Prop where
  cells : ∀ i < commandCapacity, cycleAt page i = cellCycle commandCapacity p i
  published : ∀ k, c.executed.length ≤ k → k < p →
    slot page (k % commandCapacity) = (command base k).2
  /-- The link is in place, except while the machine may be writing it. -/
  link : p % commandCapacity + 1 ≠ commandLinkIndex → commandCapacity ≤ p →
    slot page commandLinkIndex = linkTrb base (lapCycle commandCapacity (p - commandCapacity))
  position : AtCommand base c.executed.length c ∨ AtLink base c.executed.length c
  executed : c.executed = (List.range c.executed.length).map (command base)
  observed : ∀ x ∈ c.observed, (∃ k < p, x = command base k) ∨ ∃ cycle, x = Xhci.link base cycle
  le : c.executed.length ≤ p
  serial : p ≤ c.executed.length + 1

theorem noOpTrb_cycle (cycle : Bool) : (XhciRingMachine.noOpTrb cycle).cycle = cycle := by
  cases cycle <;> decide

theorem noOpTrb_type (cycle : Bool) : (XhciRingMachine.noOpTrb cycle).trbType ≠ trbTypeLink := by
  cases cycle <;> decide

theorem linkTrb_cycle (base : UInt64) (cycle : Bool) : (linkTrb base cycle).cycle = cycle := by
  simp only [RawTrb.cycle, linkTrb]
  cases cycle <;> decide

theorem linkTrb_type (base : UInt64) (cycle : Bool) :
    (linkTrb base cycle).trbType = trbTypeLink := by
  simp only [RawTrb.trbType, linkTrb]
  cases cycle <;> decide

theorem linkTrb_toggle (base : UInt64) (cycle : Bool) :
    (linkTrb base cycle).control &&& linkToggleCycle ≠ 0 := by
  simp only [linkTrb]
  cases cycle <;> decide

variable {byte : UInt8}

section

variable {base : UInt64} {p : Nat} {page : Page} {c : Controller}

theorem commandCapacity_pos : 0 < commandCapacity := by decide

/-- No command goes to the block of the link. -/
theorem mod_ne_link (k : Nat) : k % commandCapacity ≠ commandLinkIndex :=
  Nat.ne_of_lt (Nat.mod_lt k commandCapacity_pos)

theorem address_succ (base : UInt64) (i : Nat) :
    base + ofNat (trbBytes * i) + 16 = base + ofNat (trbBytes * (i + 1)) := by
  rw [add_assoc, Nat.mul_add, ofNat_add]
  rfl

theorem and_not_of_aligned (haligned : base.toNat % pageSize = 0) : base &&& ~~~0xf = base := by
  refine UInt64.toNat_inj.mp ?_
  rw [Words.toNat_and_not (k := 4) rfl]
  rw [pageSize] at haligned
  omega

/-- The controller after the next command. -/
def Controller.execute (c : Controller) (base : UInt64) : Controller :=
  { c with
    dequeue := c.dequeue + 16
    observed := c.observed ++ [command base c.executed.length] }

/-- The controller after the link. -/
def Controller.follow (c : Controller) (base : UInt64) : Controller :=
  { c with
    dequeue := base
    cycle := !c.cycle
    observed := c.observed ++ [Xhci.link base c.cycle] }

theorem executed_execute (c : Controller) (base : UInt64) :
    (c.execute base).executed = c.executed ++ [command base c.executed.length] := by
  simp only [Controller.executed, Controller.execute, filter_append]
  congr 1
  exact filter_cons_of_pos (by simpa [command] using noOpTrb_type _)

theorem executed_follow (c : Controller) (base : UInt64) :
    (c.follow base).executed = c.executed := by
  simp only [Controller.executed, Controller.follow, filter_append]
  rw [filter_cons_of_neg (by simpa [Xhci.link] using linkTrb_type _ _), filter_nil, append_nil]

theorem AtCommand.execute (h : AtCommand base c.executed.length c) :
    AtCommand base (c.executed.length + 1) (c.execute base) ∨
      AtLink base (c.executed.length + 1) (c.execute base) := by
  have hdequeue : (c.execute base).dequeue =
      base + ofNat (trbBytes * (c.executed.length % commandCapacity + 1)) := by
    rw [← address_succ]
    exact congrArg (· + 16) h.1
  rw [AtCommand, AtLink, hdequeue, show (c.execute base).cycle = c.cycle from rfl, h.2]
  rcases succ_mod commandCapacity_pos c.executed.length with ⟨-, hsucc⟩ | ⟨hlast, hwrap⟩
  · rw [command, hsucc, lapCycle_succ_of_mod (by omega)]
    exact .inl ⟨rfl, rfl⟩
  · rw [hlast]
    exact .inr ⟨hwrap, Nat.le_of_dvd (Nat.succ_pos _) (Nat.dvd_of_mod_eq_zero hwrap), rfl, rfl⟩

theorem AtLink.follow {n : Nat} (h : AtLink base n c) : AtCommand base n (c.follow base) := by
  obtain ⟨hwrap, hle, -, hcycle⟩ := h
  refine ⟨?_, ?_⟩
  · rw [command, hwrap]
    exact (add_zero base).symm
  · have hpos : n - 1 + 1 = n := Nat.sub_add_cancel (commandCapacity_pos.trans_le hle)
    rw [Controller.follow]
    rw [hcycle, ← lapCycle_succ_of_wrap (by rw [hpos]; exact hwrap), hpos]

theorem AtCommand.not_atLink {n : Nat} (h : AtCommand base n c) : ¬AtLink base n c := by
  rintro ⟨hwrap, hle, -, hcycle⟩
  have hpos : n - 1 + 1 = n := Nat.sub_add_cancel (commandCapacity_pos.trans_le hle)
  have hnext := lapCycle_succ_of_wrap (p := n - 1) (N := commandCapacity)
    (by rw [hpos]; exact hwrap)
  rw [hpos, ← h.2, ← hcycle] at hnext
  simp at hnext

section

variable (h : Commands base p page c)
include h

theorem Commands.execute (hlt : c.executed.length < p)
    (hat : AtCommand base c.executed.length c) : Commands base p page (c.execute base) := by
  have hlength : (c.execute base).executed.length = c.executed.length + 1 := by
    rw [executed_execute, length_append, length_singleton]
  refine ⟨h.cells, fun k hk => h.published k (by omega), h.link, ?_, ?_, ?_, by omega, ?_⟩
  · rw [hlength]
    exact hat.execute
  · rw [hlength, executed_execute, range_succ, map_append, ← h.executed]
    rfl
  · exact forall_mem_append.mpr ⟨h.observed, forall_mem_singleton.mpr (.inl ⟨_, hlt, rfl⟩)⟩
  · rw [hlength]
    exact Nat.le_add_right_of_le h.serial

theorem Commands.follow (hat : AtLink base c.executed.length c) :
    Commands base p page (c.follow base) := by
  have hex := executed_follow c base
  refine ⟨h.cells, by rw [hex]; exact h.published, h.link, ?_, by rw [hex]; exact h.executed, ?_,
    by rw [hex]; exact h.le, by rw [hex]; exact h.serial⟩
  · rw [hex]
    exact .inl hat.follow
  · exact forall_mem_append.mpr ⟨h.observed, forall_mem_singleton.mpr (.inr ⟨_, rfl⟩)⟩

/-- The link that the controller is at is in place. -/
theorem Commands.slot_link (hat : AtLink base c.executed.length c) :
    slot page commandLinkIndex = linkTrb base c.cycle := by
  obtain ⟨hwrap, hle, -, hcycle⟩ := hat
  have hnext := h.le
  have hserial := h.serial
  have hlink := h.link
  rw [show commandLinkIndex = 255 from rfl] at hlink ⊢
  rw [show commandCapacity = 255 from rfl] at hwrap hle hcycle hlink
  rw [hlink (by omega) (by omega), hcycle, lapCycle, lapCycle,
    show (p - 255) / 255 = (c.executed.length - 1) / 255 by omega]

/-- **The controller takes complete blocks only.**  It finds nothing of its own, or the next command
that was handed over, or the link, each of them whole. -/
theorem Commands.consume (haligned : base.toNat % pageSize = 0) :
    ∃ i ≤ commandLinkIndex, c.dequeue = base + ofNat (trbBytes * i) ∧
      (c.executed.length = p ∧ c.consume (slot page i) = c ∨
        (c.executed.length < p ∧ AtCommand base c.executed.length c) ∧
          c.consume (slot page i) = c.execute base ∨
        AtLink base c.executed.length c ∧ c.consume (slot page i) = c.follow base) := by
  rcases h.position with hat | hat
  · have hi := Nat.mod_lt c.executed.length commandCapacity_pos
    refine ⟨_, Nat.le_of_lt hi, hat.1, ?_⟩
    have hown : (slot page (c.executed.length % commandCapacity)).cycle = c.cycle ↔
        c.executed.length < p := by
      rw [cycle_slot, h.cells _ hi, hat.2]
      exact cellCycle_eq_lapCycle_iff commandCapacity_pos h.le
        (h.serial.trans (Nat.add_le_add_left commandCapacity_pos _))
    by_cases hlt : c.executed.length < p
    · refine .inr (.inl ⟨⟨hlt, hat⟩, ?_⟩)
      have hcommand : command base c.executed.length =
          (c.dequeue, (command base c.executed.length).2) := Prod.ext hat.1.symm rfl
      rw [Controller.consume, if_neg (not_not.mpr (hown.mpr hlt)), h.published _ le_rfl hlt,
        if_neg (show (command base c.executed.length).2.trbType ≠ trbTypeLink from noOpTrb_type _),
        Controller.execute, ← hcommand]
    · refine .inl ⟨Nat.le_antisymm h.le (Nat.not_lt.mp hlt), ?_⟩
      rw [Controller.consume, if_pos fun he => hlt (hown.mp he)]
  · refine ⟨_, le_rfl, hat.2.2.1, .inr (.inr ⟨hat, ?_⟩)⟩
    have hlink : Xhci.link base c.cycle = (c.dequeue, linkTrb base c.cycle) :=
      Prod.ext hat.2.2.1.symm rfl
    rw [h.slot_link hat, Controller.consume, linkTrb_cycle, if_neg (by simp),
      if_pos (linkTrb_type _ _), if_pos (linkTrb_toggle _ _),
      show (linkTrb base c.cycle).parameter = base from rfl, and_not_of_aligned haligned,
      Controller.follow, hlink]

end

/-! The bytes that the driver writes. -/

theorem slot_update_of_ne {i j k : Nat} (hk : k < trbBytes) (hne : j ≠ i) :
    slot (update page (trbBytes * i + k) byte) j = slot page j := by
  have h : slot (patch page (trbBytes * i + k) [byte]) j = slot page j :=
    slot_patch_of_ne (Nat.le_add_right _ _) (by rw [length_singleton]; omega) hne
  exact h

theorem cycleAt_update {i j k : Nat} (hk : k < trbBytes) :
    cycleAt (update page (trbBytes * i + k) byte) j =
      if j = i ∧ k = 12 then byte.toNat % 2 == 1 else cycleAt page j := by
  rw [cycleAt, cycleAt, update_apply]
  rw [trbBytes] at *
  by_cases hj : j = i ∧ k = 12
  · rw [if_pos hj, if_pos (by rw [hj.1, hj.2])]
  · rw [if_neg hj, if_neg (by omega)]

section

variable (h : Commands base p page c)
include h

/-- A block that the controller waits for may be written as long as its cycle bit stays. -/
theorem Commands.poke_hidden (hidle : c.executed.length = p) {k : Nat} (hk : k < trbBytes)
    (hbyte : k = 12 → (byte.toNat % 2 == 1) = !lapCycle commandCapacity p) :
    Commands base p (update page (trbBytes * (p % commandCapacity) + k) byte) c := by
  refine ⟨fun i hi => ?_, fun j hj hlt => ?_, fun hne hle => ?_, h.position, h.executed, h.observed,
    h.le, h.serial⟩
  · rw [cycleAt_update hk]
    by_cases hik : i = p % commandCapacity ∧ k = 12
    · rw [if_pos hik, hbyte hik.2, hik.1, cellCycle_self]
    · rw [if_neg hik, h.cells i hi]
  · rw [hidle] at hj
    exact absurd hlt (Nat.not_lt.mpr hj)
  · rw [slot_update_of_ne hk (mod_ne_link p).symm, h.link hne hle]

/-- The link may be written before the last block of a lap is handed over. -/
theorem Commands.poke_link
    (hlast : p % commandCapacity + 1 = commandLinkIndex) {k : Nat} (hk : k < trbBytes)
    (byte : UInt8) :
    Commands base p (update page (trbBytes * commandLinkIndex + k) byte) c := by
  refine ⟨fun i hi => ?_, fun j hj hlt => ?_, fun hne => absurd hlast hne, h.position, h.executed,
    h.observed, h.le, h.serial⟩
  · rw [cycleAt_update hk, if_neg (fun he => Nat.ne_of_lt hi he.1), h.cells i hi]
  · rw [slot_update_of_ne hk (mod_ne_link j), h.published j hj hlt]

/-- **The cycle bit hands a block over**, once the rest of the block and the link are in place. -/
theorem Commands.handOver (hidle : c.executed.length = p)
    (hslot : slot (update page (trbBytes * (p % commandCapacity) + 12) byte)
      (p % commandCapacity) = (command base p).2)
    (hlink : p % commandCapacity + 1 = commandLinkIndex →
      slot page commandLinkIndex = linkTrb base (lapCycle commandCapacity p)) :
    Commands base (p + 1) (update page (trbBytes * (p % commandCapacity) + 12) byte) c := by
  have hk : 12 < trbBytes := by decide
  have hcycle := congrArg RawTrb.cycle hslot
  rw [cycle_slot, command, noOpTrb_cycle] at hcycle
  refine ⟨fun i hi => ?_, fun j hj hlt => ?_, fun hne hle => ?_, h.position, h.executed,
    fun x hx => ?_, Nat.le_add_right_of_le h.le, by rw [hidle]⟩
  · rw [cellCycle_succ hi]
    by_cases hi' : i = p % commandCapacity
    · rw [if_pos hi', hi', hcycle]
    · rw [if_neg hi', cycleAt_update hk, if_neg (fun he => hi' he.1), h.cells i hi]
  · obtain rfl : j = p := by omega
    exact hslot
  · rw [slot_update_of_ne hk (mod_ne_link p).symm]
    rcases succ_mod commandCapacity_pos p with ⟨hlt, hsucc⟩ | ⟨hlast, hwrap⟩
    · have hle' : commandCapacity ≤ p := by
        by_contra hp
        rw [Nat.mod_eq_of_lt (Nat.not_le.mp hp)] at hlt
        omega
      rw [h.link (Nat.ne_of_lt hlt) hle', Nat.sub_add_comm hle', lapCycle_succ_of_mod]
      rw [← Nat.sub_add_comm hle', ← Nat.add_mod_right, Nat.sub_add_cancel hle, hsucc]
      exact Nat.succ_ne_zero _
    · have hpar := lapCycle_add_self commandCapacity_pos (p + 1 - commandCapacity)
      rw [Nat.sub_add_cancel hle, lapCycle_succ_of_wrap hwrap, Bool.not_inj_iff] at hpar
      rw [hlink hlast, hpar]
  · rcases h.observed x hx with ⟨k, hk, rfl⟩ | hx
    · exact .inl ⟨k, Nat.lt_succ_of_lt hk, rfl⟩
    · exact .inr hx

/-- Reporting a command does not concern the command ring. -/
theorem Commands.report (reported : Nat) :
    Commands base p page { c with reported } :=
  ⟨h.cells, h.published, h.link, h.position, h.executed, h.observed, h.le, h.serial⟩

end

end

/-! ## Events -/

/-- The machine has gone past `q` events.  The block at `i` is a completion, with the cycle bit that
the machine looks for there next. -/
def Fresh (q : Nat) (page : Page) (i : Nat) : Prop :=
  i < eventCapacity ∧ World.isReport (slot page i) = true ∧
    (slot page i).cycle = !cellCycle eventCapacity q i

/-- The event ring when the machine has seen the completions of `q` commands. -/
structure Events (q : Nat) (page : Page) (reported : Nat) : Prop where
  none : reported = q → ∀ i, ¬Fresh q page i
  one : ∃ j, ∀ i, Fresh q page i → i = j

section

variable {q reported i j : Nat} {page : Page} {event : RawTrb}

theorem fresh_patch : Fresh q (patch page (trbBytes * i) event.encode) j →
    j = i ∧ World.isReport event = true ∨ j ≠ i ∧ Fresh q page j := by
  rintro ⟨hj, hreport, hcycle⟩
  rw [slot_patch] at hreport hcycle
  by_cases hji : j = i
  · rw [if_pos hji] at hreport
    exact .inl ⟨hji, hreport⟩
  · rw [if_neg hji] at hreport hcycle
    exact .inr ⟨hji, hj, hreport, hcycle⟩

/-- The one completion that is due. -/
theorem Events.report (h : Events q page reported) (hdue : reported = q) (i : Nat)
    (event : RawTrb) :
    Events q (patch page (trbBytes * i) event.encode) (reported + 1) := by
  refine ⟨fun he => by omega, i, fun j hj => ?_⟩
  rcases fresh_patch hj with ⟨hji, -⟩ | ⟨-, hold⟩
  · exact hji
  · exact absurd hold (h.none hdue j)

/-- Any other event. -/
theorem Events.other (h : Events q page reported) (i : Nat)
    (hevent : World.isReport event = false) :
    Events q (patch page (trbBytes * i) event.encode) reported := by
  have hold : ∀ j, Fresh q (patch page (trbBytes * i) event.encode) j →
      Fresh q page j := by
    intro j hj
    rcases fresh_patch hj with ⟨-, hreport⟩ | ⟨-, hold⟩
    · rw [hevent] at hreport
      cases hreport
    · exact hold
  obtain ⟨j, hone⟩ := h.one
  exact ⟨fun he i hi => h.none he i (hold i hi), j, fun i hi => hone i (hold i hi)⟩

/-- The machine goes past the only completion there is. -/
theorem Events.seen (h : Events q page reported) (hfresh : Fresh q page (q % eventCapacity)) :
    Events (q + 1) page reported := by
  obtain ⟨j, hone⟩ := h.one
  have hnone : ∀ i, ¬Fresh (q + 1) page i := by
    rintro i ⟨hi, hreport, hcycle⟩
    rw [cellCycle_succ hi] at hcycle
    by_cases hii : i = q % eventCapacity
    · -- The bit that it has is the one of the lap that the machine has just left here.
      have hlap := hfresh.2.2
      rw [cellCycle_self, ← hii, hcycle, if_pos hii] at hlap
      simp at hlap
    · rw [if_neg hii] at hcycle
      exact hii ((hone i ⟨hi, hreport, hcycle⟩).trans (hone _ hfresh).symm)
  exact ⟨fun _ => hnone, 0, fun i hi => absurd hi (hnone i)⟩

end

/-! ## The invariant -/

/-- The memory and the controller after `p` commands were handed over and `q` completions seen. -/
structure Inv (base : UInt64) (p q : Nat) (w : World) : Prop where
  running : w.controller.running = true
  region : ∃ region, w.region .commandRing = some region ∧ region.deviceAddressStart = base
  aligned : base.toNat % pageSize = 0
  commands : Commands base p (w.page .commandRing) w.controller
  events : Events q (w.page .eventRing) w.controller.reported
  seen : q ≤ w.controller.reported
  reported : w.controller.reported ≤ w.controller.executed.length
  outstanding : p ≤ q + 1

section

variable {base : UInt64} {p q : Nat} {w : World}

/-- Once all completions were seen, the controller waits for the next command. -/
theorem Inv.idle (h : Inv base p p w) : w.controller.executed.length = p :=
  Nat.le_antisymm h.commands.le (h.seen.trans h.reported)

theorem commandAt_eq {region : XhciDmaRegionRecord} (hregion : w.region .commandRing = some region)
    {i : Nat} (hi : i ≤ commandLinkIndex) :
    w.commandAt (region.deviceAddressStart + ofNat (trbBytes * i)) =
      some (slot (w.page .commandRing) i) := by
  have hi : i ≤ 255 := hi
  have hoffset : (region.deviceAddressStart + ofNat (trbBytes * i) -
      region.deviceAddressStart).toNat = trbBytes * i := by
    rw [UInt64.add_comm, UInt64.add_sub_cancel, UInt64.toNat_ofNat', trbBytes]
    omega
  rw [World.commandAt, hregion, Option.bind_some]
  rw [hoffset, if_pos (by rw [trbBytes, pageSize]; omega), slot]

section

variable (h : Inv base p q w)
include h

/-- **What a fetch does**: nothing, or the next command, or the link. -/
theorem Inv.fetch_cases : w.controller.executed.length = p ∧ w.fetch = w ∨
      (w.controller.executed.length < p ∧
        AtCommand base w.controller.executed.length w.controller) ∧
        w.fetch = { w with controller := w.controller.execute base } ∨
      AtLink base w.controller.executed.length w.controller ∧
        w.fetch = { w with controller := w.controller.follow base } := by
  obtain ⟨region, hregion, rfl⟩ := h.region
  obtain ⟨i, hi, hdequeue, hconsume⟩ := h.commands.consume h.aligned
  have hfetch : w.fetch =
      { w with controller := w.controller.consume (slot (w.page .commandRing) i) } := by
    rw [World.fetch, hdequeue, commandAt_eq hregion hi]
  rw [hfetch]
  rcases hconsume with ⟨hlength, heq⟩ | ⟨hat, heq⟩ | ⟨hat, heq⟩
  · exact .inl ⟨hlength, by rw [heq]⟩
  · exact .inr (.inl ⟨hat, by rw [heq]⟩)
  · exact .inr (.inr ⟨hat, by rw [heq]⟩)

theorem Inv.fetch : Inv base p q w.fetch := by
  rcases h.fetch_cases with ⟨-, heq⟩ | ⟨⟨hlt, hat⟩, heq⟩ | ⟨hat, heq⟩
  · rw [heq]
    exact h
  · rw [heq]
    refine { h with commands := h.commands.execute hlt hat, reported := ?_ }
    rw [executed_execute, length_append]
    exact Nat.le_add_right_of_le h.reported
  · rw [heq]
    refine { h with commands := h.commands.follow hat, reported := ?_ }
    rw [executed_follow]
    exact h.reported

theorem Inv.fetch_of_atCommand (hat : AtCommand base w.controller.executed.length w.controller) :
    w.fetch.controller.executed.length = p := by
  have hserial := h.commands.serial
  rcases h.fetch_cases with ⟨hlength, heq⟩ | ⟨⟨hlt, -⟩, heq⟩ | ⟨hlink, -⟩
  · rw [heq, hlength]
  · rw [heq]
    rw [executed_execute, length_append, length_singleton]
    omega
  · exact absurd hlink hat.not_atLink

theorem Inv.fetch_of_length (hlength : w.controller.executed.length = p) :
    w.fetch.controller.executed.length = p := by
  rcases h.fetch_cases with ⟨-, heq⟩ | ⟨⟨hlt, -⟩, -⟩ | ⟨-, heq⟩
  · rw [heq, hlength]
  · omega
  · rw [heq]
    rw [executed_follow, hlength]

/-- The controller is never more than a link and a command behind. -/
theorem Inv.caught_up : w.fetch.fetch.controller.executed.length = p := by
  rcases h.commands.position with hat | hat
  · exact h.fetch.fetch_of_length (h.fetch_of_atCommand hat)
  · rcases h.fetch_cases with ⟨hlength, -⟩ | ⟨⟨-, hcommand⟩, -⟩ | ⟨-, heq⟩
    · exact h.fetch.fetch_of_length (h.fetch_of_length hlength)
    · exact absurd hat hcommand.not_atLink
    · refine h.fetch.fetch_of_atCommand ?_
      rw [heq]
      rw [executed_follow]
      exact hat.follow

end

/-- Events are not in the command ring. -/
theorem update_eventRing (page : XhciDmaPurpose → Page) (events : Page) :
    update page .eventRing events .commandRing = page .commandRing :=
  update_of_ne (by decide) events page

theorem Inv.post (h : Inv base p q w) (i : Nat) (event : RawTrb) :
    Inv base p q (w.post i event) := by
  rw [World.post]
  split
  · split
    · next hdue =>
      have hlast := h.commands.le
      have hserial := h.outstanding
      have hseen := h.seen
      refine ⟨h.running, h.region, h.aligned, ?_, ?_, Nat.le_succ_of_le h.seen, hdue, h.outstanding⟩
      · dsimp only
        exact h.commands.report _
      · dsimp only
        exact h.events.report (by omega) i event
    · exact h
  · next hevent =>
    refine ⟨h.running, h.region, h.aligned, ?_, ?_, h.seen, h.reported, h.outstanding⟩
    · dsimp only
      exact h.commands
    · dsimp only
      exact h.events.other i (Bool.not_eq_true _ ▸ hevent)

/-- **No step of the controller breaks the invariant.** -/
theorem Inv.step (h : Inv base p q w) (step : Step) : Inv base p q (w.step step) := by
  cases step with
  | fetch =>
    rw [World.step]
    split
    · exact h.fetch
    · exact h
  | post i event =>
    rw [World.step]
    split
    · exact h.post i event
    · exact h

theorem Inv.turn {E : Type} (env : Environment E) (h : Inv base p q w) :
    Inv base p q (w.turn env) := by
  have hall : ∀ steps : List Step, ∀ w, Inv base p q w →
      Inv base p q (steps.foldl World.step w) := by
    intro steps
    induction steps with
    | nil => exact fun w h => h
    | cons step rest ih => exact fun w h => ih _ (h.step step)
  have hturn := hall (env.steps w.clock) w h
  exact { hturn with }

/-- A byte of the command ring. -/
theorem Inv.poke (h : Inv base p q w) {next offset : Nat}
    (hcommands : Commands base next (update (w.page .commandRing) offset byte) w.controller)
    (hnext : next ≤ q + 1) : Inv base next q (w.poke .commandRing offset byte) := by
  refine ⟨h.running, h.region, h.aligned, ?_, ?_, h.seen, h.reported, hnext⟩
  · rw [World.poke]
    dsimp only
    exact hcommands
  · rw [World.poke]
    dsimp only
    exact h.events

end

end Sisyphus.Xhci
