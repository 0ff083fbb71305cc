import Sisyphus.Crucible.Effects

/-!
# Dead-code elimination and compaction

`Edge` is the flow of control, by falling through and by jumping.  The search of dead-code
elimination does not follow it out of an instruction that is marked `DEAD` already, and `Flows` are
the edges that are left.  So what it is to find is `Reachable`, and an instruction that control
comes to only through a dead one is buried with it (`fallThrough_buried`).

The search keeps a queue of what it has reached, each instruction once; those it has taken out have
had their successors queued.  When the queue has been emptied, it is closed under `Flows`.

`Buried` and `Compacted` are the relations between the buffers before and after the two passes.
-/

set_option autoImplicit false

namespace Sisyphus.Crucible

open Fallible Function List

/-! ## Reachability -/

/-- Control goes from `pc` to `s`: to the next instruction, unless this one is a jump or a return,
and to the target of a jump. -/
def Edge (buf : IrBuffer) (pc s : Nat) : Prop :=
  s < buf.len ∧
    (((buf.instrs pc).op ≠ .jmp ∧ (buf.instrs pc).op ≠ .ret ∧ s = pc + 1) ∨
      (((buf.instrs pc).op = .jmp ∨ (buf.instrs pc).op = .jz) ∧ (buf.instrs pc).target pc = s))

/-- The edge leads out of an instruction that is not marked dead. -/
def Flows (buf : IrBuffer) (pc s : Nat) : Prop := (buf.instrs pc).op ≠ .dead ∧ Edge buf pc s

/-- What control comes to along such edges from the first instruction. -/
inductive Reachable (buf : IrBuffer) : Nat → Prop
  | entry : 0 < buf.len → Reachable buf 0
  | flow {pc s : Nat} : Reachable buf pc → Flows buf pc s → Reachable buf s

variable {pc : Nat}

theorem Reachable.lt_len {buf : IrBuffer} (h : Reachable buf pc) : pc < buf.len := by
  cases h with
  | entry h => exact h
  | flow _ h => exact h.2.1

/-- The state of the search: everything queued is reachable and marked, each once, and the
successors of the first `n` have been queued. -/
structure Searched (buf : IrBuffer) (f : Frontier) (n : Nat) : Prop where
  entry : 0 ∈ f.queue
  marked : ∀ pc, f.reachable pc = true ↔ pc ∈ f.queue
  distinct : f.queue.Nodup
  sound : ∀ pc ∈ f.queue, Reachable buf pc
  bound : n ≤ f.queue.length
  closed : ∀ pc ∈ f.queue.take n, ∀ s, Flows buf pc s → s ∈ f.queue

namespace Searched

variable {buf : IrBuffer} {f : Frontier} {n : Nat} {w : Workspace}

section

variable (h : Searched buf f n)
include h

theorem length_le : f.queue.length ≤ buf.len := by
  have hsub : f.queue ⊆ range buf.len := fun pc hpc =>
    mem_range.mpr (h.sound pc hpc).lt_len
  simpa using (subperm_of_subset h.distinct hsub).length_le

/-- The queue has room for an instruction that has not been reached. -/
theorem length_lt {next : Nat} (hnext : next < buf.len)
    (hnew : next ∉ f.queue) : f.queue.length < buf.len := by
  have hsub : next :: f.queue ⊆ range buf.len := by
    intro pc hpc
    rcases mem_cons.mp hpc with rfl | hpc
    · exact mem_range.mpr hnext
    · exact mem_range.mpr (h.sound pc hpc).lt_len
  have hnodup : (next :: f.queue).Nodup := nodup_cons.mpr ⟨hnew, h.distinct⟩
  simpa using (subperm_of_subset hnodup hsub).length_le

theorem ensures_visit {next : Nat} (hnext : Reachable buf next) : Ensures (visit f next) w
      (fun f' w' => w' = w ∧ Searched buf f' n ∧ next ∈ f'.queue ∧ f.queue <+: f'.queue ∧
        f'.qhead = f.qhead) NoHalt := by
  have hlt := hnext.lt_len
  have hmax := buf.len_le
  have hword : next / 64 < bitsetWords := by
    rw [bitsetWords, maxIrInstructions]
    rw [maxIrInstructions] at hmax
    omega
  simp only [visit, ensures_rules, decide_eq_true_eq, decide_eq_false_iff_not, ge_iff_le,
    Nat.not_le.mpr hword, not_false_eq_true, ensures_ite]
  refine ⟨fun hmarked => ?_, fun hnew => ?_⟩
  · exact ⟨h, (h.marked next).mp hmarked, prefix_rfl, trivial⟩
  · have hmem : next ∉ f.queue := fun hmem => hnew ((h.marked next).mpr hmem)
    have hroom : f.queue.length < maxIrInstructions := (h.length_lt hlt hmem).trans_le hmax
    rw [if_pos hroom]
    refine ⟨⟨?_, fun pc => ?_, ?_, ?_, ?_, ?_⟩, ?_, prefix_append _ _, trivial⟩
    · exact mem_append_left _ h.entry
    · rw [mem_append, mem_singleton, ← h.marked]
      by_cases hpc : pc = next
      · simp [hpc]
      · simp [hpc, update_of_ne]
    · refine nodup_append.mpr ⟨h.distinct, nodup_singleton _, ?_⟩
      rintro pc hpc s hs rfl
      exact hmem (mem_singleton.mp hs ▸ hpc)
    · exact forall_mem_concat.mpr ⟨h.sound, hnext⟩
    · rw [length_append]
      exact h.bound.trans (Nat.le_add_right _ _)
    · intro pc hpc s hs
      rw [take_append_of_le_length h.bound] at hpc
      exact mem_append_left _ (h.closed pc hpc s hs)
    · exact mem_append_right _ (mem_singleton_self _)

theorem ensures_visitNext (hpc : Reachable buf pc) (hlive : (buf.instrs pc).op ≠ .dead) :
    Ensures (visitNext f pc buf.len (buf.instrs pc)) w
      (fun f' w' => w' = w ∧ Searched buf f' n ∧ f.queue <+: f'.queue ∧ f'.qhead = f.qhead ∧
        ((buf.instrs pc).op ≠ .jmp → (buf.instrs pc).op ≠ .ret → pc + 1 < buf.len →
          pc + 1 ∈ f'.queue)) NoHalt := by
  rw [visitNext, ensures_ite]
  refine ⟨?_, fun hno => ?_⟩
  · rintro ⟨hjmp, hret, hlt⟩
    refine (h.ensures_visit (hpc.flow ⟨hlive, hlt, .inl ⟨hjmp, hret, rfl⟩⟩)).imp_ok ?_
    rintro f' w' ⟨hw, hf', hmem, hpre, hq⟩
    exact ⟨hw, hf', hpre, hq, fun _ _ _ => hmem⟩
  · exact ⟨rfl, h, prefix_rfl, rfl, fun hjmp hret hlt => absurd ⟨hjmp, hret, hlt⟩ hno⟩

theorem ensures_visitTarget (hpc : Reachable buf pc) (hlive : (buf.instrs pc).op ≠ .dead) :
    Ensures (visitTarget f pc buf.len (buf.instrs pc)) w
      (fun f' w' => w' = w ∧ Searched buf f' n ∧ f.queue <+: f'.queue ∧ f'.qhead = f.qhead ∧
        ∀ s < buf.len, (buf.instrs pc).op = .jmp ∨ (buf.instrs pc).op = .jz →
          (buf.instrs pc).target pc = s → s ∈ f'.queue) NoHalt := by
  rw [visitTarget, ensures_ite]
  refine ⟨?_, fun hno => ?_⟩
  · rintro ⟨hop, hpos, hlt⟩
    have hcast : (buf.instrs pc).target pc = ((buf.instrs pc).target pc).toNat :=
      (Int.toNat_of_nonneg hpos).symm
    have hflow : Flows buf pc ((buf.instrs pc).target pc).toNat :=
      ⟨hlive, by omega, .inr ⟨hop, hcast⟩⟩
    refine (h.ensures_visit (hpc.flow hflow)).imp_ok ?_
    rintro f' w' ⟨hw, hf', hmem, hpre, hq⟩
    refine ⟨hw, hf', hpre, hq, fun s _ _ hs => ?_⟩
    rw [hs] at hmem
    exact hmem
  · refine ⟨rfl, h, prefix_rfl, rfl, fun s hlt hop hs => absurd ⟨hop, ?_, ?_⟩ hno⟩
    · rw [hs]
      exact Int.natCast_nonneg s
    · rw [hs]
      exact_mod_cast hlt

end

/-- The search ends, and has marked what is reachable. -/
theorem ensures_reach {fuel : Nat} (h : Searched w.buf f f.qhead)
    (hfuel : w.buf.len < fuel + f.qhead) :
    Ensures (reach fuel f) w
      (fun f' w' => w' = w ∧ ∀ pc, f'.reachable pc = true ↔ Reachable w.buf pc) NoHalt := by
  induction fuel generalizing f with
  | zero =>
    have := h.length_le
    have := h.bound
    omega
  | succ fuel ih =>
    rw [reach]
    cases hhead : f.queue[f.qhead]? with
    | none =>
      have hall : f.queue.take f.qhead = f.queue :=
        take_of_length_le (getElem?_eq_none_iff.mp hhead)
      refine ⟨rfl, fun pc => ⟨fun hpc => h.sound pc ((h.marked pc).mp hpc), fun hpc => ?_⟩⟩
      rw [h.marked]
      induction hpc with
      | entry _ => exact h.entry
      | flow _ hflow hmem => exact h.closed _ (hall.symm ▸ hmem) _ hflow
    | some pc =>
      have hpc : pc ∈ f.queue := mem_of_getElem? hhead
      have hreach := h.sound pc hpc
      have hlt := hreach.lt_len
      have hbound : f.qhead < f.queue.length := (List.getElem?_eq_some_iff.mp hhead).1
      have htake : f.queue.take (f.qhead + 1) = f.queue.take f.qhead ++ [pc] := by
        rw [List.take_add_one, hhead, Option.toList_some]
      -- Once the successors of `pc` are queued, the search is one further.
      have hfinish : ∀ f' : Frontier, Searched w.buf f' f.qhead → f.queue <+: f'.queue →
          f'.qhead = f.qhead + 1 → (∀ s, Flows w.buf pc s → s ∈ f'.queue) →
          Searched w.buf f' f'.qhead := by
        rintro f' hf' ⟨more, hmore⟩ hq hsucc
        refine ⟨hf'.entry, hf'.marked, hf'.distinct, hf'.sound, ?_, ?_⟩
        · rw [hq, ← hmore, length_append]
          omega
        · rw [hq, ← hmore, take_append_of_le_length hbound, htake, hmore]
          refine forall_mem_concat.mpr ⟨fun p hp => hf'.closed p ?_, hsucc⟩
          rw [← hmore, take_append_of_le_length h.bound]
          exact hp
      have hstart : Searched w.buf { f with qhead := f.qhead + 1 } f.qhead :=
        ⟨h.entry, h.marked, h.distinct, h.sound, h.bound, h.closed⟩
      simp only [ensures_rules, ensures_ite]
      refine ⟨fun hge => absurd hlt (Nat.not_lt.mpr hge), fun _ => ?_⟩
      rw [ensures_fetch (hlt.trans_le w.buf.len_le)]
      refine ⟨fun hdead => ih (hfinish _ hstart prefix_rfl rfl ?_) (by simp only; omega),
        fun hlive => ?_⟩
      · exact fun s hflow => absurd hdead hflow.1
      · refine (hstart.ensures_visitNext hreach hlive).imp_ok ?_
        rintro f₁ w₁ ⟨rfl, hf₁, hpre₁, hq₁, hnext⟩
        refine (hf₁.ensures_visitTarget hreach hlive).imp_ok ?_
        rintro f₂ w₂ ⟨rfl, hf₂, hpre₂, hq₂, htarget⟩
        have hq : f₂.qhead = f.qhead + 1 := hq₂.trans hq₁
        refine ih (hfinish f₂ hf₂ (hpre₁.trans hpre₂) hq ?_) (by omega)
        rintro s ⟨_, hs, ⟨hjmp, hret, rfl⟩ | ⟨hop, htgt⟩⟩
        · exact hpre₂.subset (hnext hjmp hret hs)
        · exact htarget s hs hop htgt

/-- The frontier the search begins with. -/
theorem start (hlen : 0 < buf.len) : Searched buf ⟨fun i => i == 0, [0], 0⟩ 0 where
  entry := mem_singleton_self 0
  marked pc := by simp
  distinct := nodup_singleton 0
  sound pc hpc := mem_singleton.mp hpc ▸ .entry hlen
  bound := Nat.zero_le _
  closed := forall_mem_nil _

end Searched

/-- `buf'` is `buf` with what is not reachable overwritten. -/
structure Buried (buf buf' : IrBuffer) : Prop where
  len : buf'.len = buf.len
  kept : ∀ j, Reachable buf j → buf'.instrs j = buf.instrs j
  dead : ∀ j < buf.len, ¬ Reachable buf j → (buf'.instrs j).op = .dead

section

variable {fuel : Nat} {w : Workspace} {buf buf' : IrBuffer}

/-- The pass is its loop over the instructions, once what is reachable has been marked. -/
theorem ensures_runDce_of_loop {Q : Unit → Workspace → Prop} (hfuel : w.buf.len < fuel)
    (hloop : ∀ reachable, (∀ pc, reachable pc = true ↔ Reachable w.buf pc) →
      Ensures (forM (range w.buf.len) (bury reachable)) w Q NoHalt) :
    Ensures (runDce fuel) w Q NoHalt := by
  simp only [runDce, ensures_rules]
  by_cases hlen : w.buf.len = 0
  · have hnone : ∀ pc, ¬ Reachable w.buf pc := fun pc h =>
      absurd h.lt_len (by rw [hlen]; exact Nat.not_lt_zero pc)
    have := hloop (fun _ => false) fun pc => by simp [hnone]
    rw [hlen] at this
    rwa [if_neg (not_not.mpr hlen)]
  · rw [if_pos hlen, ensures_bind]
    refine (Searched.ensures_reach (Searched.start (Nat.pos_of_ne_zero hlen)) hfuel).imp_ok ?_
    rintro f _ ⟨rfl, hmarked⟩
    exact hloop f.reachable hmarked

theorem ensures_runDce (hfuel : w.buf.len < fuel) (hcounts : w.engine.dce = ⟨0, 0⟩) :
    Ensures (runDce fuel) w
      (fun _ w' => Buried w.buf w'.buf ∧ w'.engine.inliner = w.engine.inliner ∧
        w'.engine.unroller = w.engine.unroller) NoHalt := by
  refine ensures_runDce_of_loop hfuel fun reachable hmarked => ?_
  have hmax := w.buf.len_le
  refine (ensures_forM_range (I := fun n (w' : Workspace) => w'.buf.len = w.buf.len ∧
    (∀ j, Reachable w.buf j ∨ n ≤ j → w'.buf.instrs j = w.buf.instrs j) ∧
    (∀ j < n, ¬ Reachable w.buf j → (w'.buf.instrs j).op = .dead) ∧
    w'.engine.inliner = w.engine.inliner ∧ w'.engine.unroller = w.engine.unroller ∧
    w'.engine.dce.deadCount.toNat ≤ n ∧ w'.engine.dce.bytesRemoved.toNat ≤ 4 * n) ?_ ?_).imp_ok ?_
  · refine ⟨rfl, fun _ _ => rfl, fun j hj => absurd hj (Nat.not_lt_zero j), rfl, rfl, ?_, ?_⟩
    · rw [hcounts]
      rfl
    · rw [hcounts]
      rfl
  · rintro i hi w₂ ⟨hlen₂, hkept, hdead, hinl, hunr, hcount, hbytes⟩
    rw [bury, ensures_bind, ensures_fetch (by omega), ensures_ite]
    have hreach : reachable i = true ↔ Reachable w.buf i := hmarked i
    refine ⟨?_, fun hskip => ?_⟩
    · rintro ⟨hunreached, _⟩
      have hnot : ¬ Reachable w.buf i := fun h => by
        rw [hreach.mpr h] at hunreached
        exact absurd hunreached (by simp)
      have hmax' : maxIrInstructions < 2 ^ 20 := by decide
      have hcount' : (w₂.engine.dce.deadCount + 1).toNat = w₂.engine.dce.deadCount.toNat + 1 := by
        rw [UInt32.toNat_add, UInt32.toNat_one, Nat.mod_eq_of_lt (by omega)]
      have hbytes' : (w₂.engine.dce.bytesRemoved + 4).toNat =
          w₂.engine.dce.bytesRemoved.toNat + 4 := by
        rw [UInt32.toNat_add]
        exact Nat.mod_eq_of_lt (by simp only [UInt32.reduceToNat]; omega)
      rw [ensures_bind, ensures_store (by omega), ensures_bind, ensures_get, ensures_bind,
        ensures_addU32 (by simp only [UInt32.toNat_one]; omega), ensures_bind,
        ensures_addU32 (by simp only [UInt32.reduceToNat]; omega), ensures_set]
      refine ⟨hlen₂, fun j hj => ?_, fun j hj hnr => ?_, hinl, hunr, ?_, ?_⟩
      · have hne : j ≠ i := by
          rintro rfl
          exact hj.elim hnot (by omega)
        exact (update_of_ne hne _ _).trans (hkept j (hj.imp_right (by omega)))
      · rcases Nat.lt_succ_iff_lt_or_eq.mp hj with hj | rfl
        · exact (congrArg Instr.op (update_of_ne hj.ne _ _)).trans (hdead j hj hnr)
        · change (update w₂.buf.instrs j Instr.dead j).op = .dead
          rw [update_self]
          rfl
      · exact hcount'.le.trans (by omega)
      · exact hbytes'.le.trans (by omega)
    · refine ⟨hlen₂, fun j hj => hkept j (hj.imp_right (by omega)), fun j hj hnr => ?_, hinl, hunr,
        by omega, by omega⟩
      rcases Nat.lt_succ_iff_lt_or_eq.mp hj with hj | rfl
      · exact hdead j hj hnr
      · by_contra hlive
        refine hskip ⟨?_, hlive⟩
        rwa [← hreach, Bool.not_eq_true] at hnr
  · rintro _ w₂ ⟨hlen₂, hkept, hdead, hinl, hunr, _⟩
    exact ⟨⟨hlen₂, fun j hj => hkept j (.inl hj), fun j hj => hdead j hj⟩, hinl, hunr⟩

/-- Where all that is out of reach is dead already, there is nothing to do. -/
theorem ensures_runDce_of_dead (hfuel : w.buf.len < fuel)
    (hdead : ∀ j < w.buf.len, ¬ Reachable w.buf j → (w.buf.instrs j).op = .dead) :
    Ensures (runDce fuel) w (fun _ w' => w' = w) NoHalt := by
  refine ensures_runDce_of_loop hfuel fun reachable hmarked => ?_
  refine ensures_forM (I := fun w' => w' = w) rfl ?_
  rintro i hi w' rfl
  have hlt := mem_range.mp hi
  rw [bury, ensures_bind, ensures_fetch (hlt.trans_le w'.buf.len_le), ensures_ite]
  refine ⟨?_, fun _ => rfl⟩
  rintro ⟨hunreached, hlive⟩
  refine absurd (hdead i hlt fun h => ?_) hlive
  rw [(hmarked i).mpr h] at hunreached
  exact absurd hunreached (by simp)

theorem Buried.flows_iff (h : Buried buf buf') {s : Nat} (hpc : Reachable buf pc) :
    Flows buf' pc s ↔ Flows buf pc s := by
  rw [Flows, Flows, Edge, Edge, h.len, h.kept pc hpc]

/-- Burying what is out of reach brings nothing else out of reach. -/
theorem Buried.reachable_iff (h : Buried buf buf') {j : Nat} :
    Reachable buf' j ↔ Reachable buf j := by
  constructor
  · intro hj
    induction hj with
    | entry hpos => exact .entry (h.len ▸ hpos)
    | flow _ hflow ih => exact .flow ih ((h.flows_iff ih).mp hflow)
  · intro hj
    induction hj with
    | entry hpos => exact .entry (h.len.symm ▸ hpos)
    | flow hpc hflow ih => exact .flow ih ((h.flows_iff hpc).mpr hflow)

/-- **Dead-code elimination is exact and idempotent.**  On every program a fresh pass comes to its
end; the instructions that control can come to other than through dead ones are as they were, the
rest is dead, and a second pass changes nothing. -/
theorem dce_exact_and_idempotent (engine : CrucibleEngine) (buf : IrBuffer) (extra : Nat) :
    ∃ w', runDce (buf.len + 1 + extra) ⟨{ engine with dce := ⟨0, 0⟩ }, buf⟩ = .ok () w' ∧
      w'.buf.len = buf.len ∧
      (∀ j < buf.len, (Reachable buf j → w'.buf.instrs j = buf.instrs j) ∧
        (¬ Reachable buf j → (w'.buf.instrs j).op = .dead)) ∧
      runDce (buf.len + 1 + extra) w' = .ok () w' := by
  have hfuel : buf.len < buf.len + 1 + extra := by omega
  have hfirst := ensures_runDce (w := ⟨{ engine with dce := ⟨0, 0⟩ }, buf⟩) hfuel rfl
  rcases hfirst.cases with ⟨_, w', hrun, hburied, _⟩ | ⟨_, _, _, hhalt⟩
  · have hsecond := ensures_runDce_of_dead (hburied.len.le.trans_lt hfuel) fun j hj hnot =>
      hburied.dead j (hburied.len ▸ hj) (hburied.reachable_iff.not.mp hnot)
    rcases hsecond.cases with ⟨_, _, hrun', rfl⟩ | ⟨_, _, _, hhalt⟩
    · exact ⟨_, hrun, hburied.len, fun j hj => ⟨hburied.kept j, hburied.dead j hj⟩, hrun'⟩
    · exact hhalt.elim
  · exact hhalt.elim

/-- `DEAD; MOV; RET`. -/
def deadHead : IrBuffer := .decodeFrom [0xFF, 0, 0, 0, 1, 0, 0, 0, 6, 0, 0, 0]

/-- Control falls through to the move, from an instruction that is marked dead; the pass buries
it. -/
theorem fallThrough_buried : Edge deadHead 0 1 ∧ (deadHead.instrs 1).op = .mov ∧
    ∃ w', runDce 4 ⟨.new, deadHead⟩ = .ok () w' ∧ (w'.buf.instrs 1).op = .dead :=
  ⟨⟨by decide, .inl ⟨by decide, by decide, rfl⟩⟩, rfl, _, rfl, rfl⟩

end

/-! ## Compaction -/

/-- What compaction keeps. -/
def Live (buf : IrBuffer) (j : Nat) : Prop :=
  (buf.instrs j).op ≠ .dead ∧ (buf.instrs j).op ≠ .nop

instance (buf : IrBuffer) : DecidablePred (Live buf) := fun _ => inferInstanceAs (Decidable (_ ∧ _))

/-- `buf'` has the live instructions of `buf` in their order. -/
structure Compacted (buf buf' : IrBuffer) : Prop where
  len : buf'.len = Nat.count (Live buf) buf.len
  kept : ∀ j < buf.len, Live buf j → buf'.instrs (Nat.count (Live buf) j) = buf.instrs j

theorem ensures_compact {w : Workspace} :
    Ensures compact w (fun _ w' => Compacted w.buf w'.buf ∧ w'.engine = w.engine) NoHalt := by
  have hmax := w.buf.len_le
  simp only [compact, ensures_rules]
  have hloop : Ensures ((range w.buf.len).foldlM repack 0) w
      (fun write w' => write = Nat.count (Live w.buf) w.buf.len ∧ w'.engine = w.engine ∧
        w'.buf.len = w.buf.len ∧ ∀ j < w.buf.len, Live w.buf j →
          w'.buf.instrs (Nat.count (Live w.buf) j) = w.buf.instrs j) NoHalt := by
    refine (ensures_foldlM (I := fun done write (w' : Workspace) =>
      write = Nat.count (Live w.buf) done.length ∧ w'.engine = w.engine ∧
      w'.buf.len = w.buf.len ∧
      (∀ j < done.length, Live w.buf j →
        w'.buf.instrs (Nat.count (Live w.buf) j) = w.buf.instrs j) ∧
      ∀ j ≥ done.length, w'.buf.instrs j = w.buf.instrs j)
      ⟨by simp, rfl, rfl, fun j hj => absurd hj (Nat.not_lt_zero j), fun _ _ => rfl⟩ ?_).imp_ok ?_
    · rintro done read rest hsplit write w₁ ⟨rfl, hengine, hlen, hkept, hrest⟩
      have hlt : done.length < w.buf.len := by
        have := congrArg length hsplit
        rw [length_range, length_append, length_cons] at this
        omega
      obtain rfl : done.length = read := by
        have := congrArg (fun l : List Nat => l[done.length]?) hsplit
        simpa [hlt] using this
      have hcount : Nat.count (Live w.buf) done.length ≤ done.length := Nat.count_le _
      have hsucc := Nat.count_succ (Live w.buf) done.length
      rw [repack, ensures_bind, ensures_fetch (by omega), hrest _ le_rfl, ensures_ite,
        length_append, length_singleton, hsucc]
      refine ⟨fun hlive : Live w.buf done.length => ?_, fun hdead : ¬ Live w.buf done.length => ?_⟩
      · rw [ensures_bind, ensures_store (by omega), ensures_pure]
        refine ⟨by rw [if_pos hlive], hengine, hlen, fun j hj hjlive => ?_, fun j hj => ?_⟩
        · rcases Nat.lt_succ_iff_lt_or_eq.mp hj with hj | rfl
          · have := Nat.count_strict_mono hjlive hj
            exact (update_of_ne this.ne _ _).trans (hkept j hj hjlive)
          · exact update_self _ _ _
        · exact (update_of_ne (by omega) _ _).trans (hrest j (by omega))
      · refine ⟨by rw [if_neg hdead, Nat.add_zero], hengine, hlen, fun j hj hjlive => ?_,
          fun j hj => ?_⟩
        · rcases Nat.lt_succ_iff_lt_or_eq.mp hj with hj | rfl
          · exact hkept j hj hjlive
          · exact absurd hjlive hdead
        · exact hrest j (by omega)
    · rintro write w' ⟨hwrite, hengine, hlen, hkept, _⟩
      rw [length_range] at hwrite hkept
      exact ⟨hwrite, hengine, hlen, hkept⟩
  refine hloop.imp_ok ?_
  rintro write w' ⟨rfl, hengine, _, hkept⟩
  exact ⟨⟨Nat.min_eq_left ((Nat.count_le _).trans hmax), hkept⟩, hengine⟩

theorem Compacted.program_eq {buf buf' : IrBuffer} (h : Compacted buf buf') :
    (range buf'.len).map buf'.instrs = ((range buf.len).filter (Live buf)).map buf.instrs := by
  have hsteps : ∀ n ≤ buf.len, (range (Nat.count (Live buf) n)).map buf'.instrs =
      ((range n).filter (Live buf)).map buf.instrs := by
    intro n hn
    induction n with
    | zero => simp
    | succ n ih =>
      rw [Nat.count_succ, range_succ, filter_append, map_append, ← ih (by omega)]
      by_cases hlive : Live buf n
      · rw [if_pos hlive, range_succ, map_append]
        simp [hlive, h.kept n (by omega) hlive]
      · simp [hlive]
  rw [h.len, hsteps _ le_rfl]

/-! ## The pipeline -/

open Classical in
/-- The instructions that the compressed program is to consist of: what control comes to, without
what does nothing. -/
noncomputable def IrBuffer.survivors (buf : IrBuffer) : List Instr :=
  ((range buf.len).filter fun j => Reachable buf j ∧ Live buf j).map buf.instrs

/-- An instruction is live behind dead-code elimination when it was and control comes to it. -/
theorem Buried.program_eq {buf buf' : IrBuffer} (h : Buried buf buf') :
    ((range buf'.len).filter (Live buf')).map buf'.instrs = buf.survivors := by
  classical
  have hlive : ∀ j ∈ range buf.len, Live buf' j ↔ Reachable buf j ∧ Live buf j := by
    intro j hj
    by_cases hreach : Reachable buf j
    · simp [Live, h.kept j hreach, hreach]
    · simp [Live, h.dead j (mem_range.mp hj) hreach, hreach]
  rw [IrBuffer.survivors, h.len, filter_congr fun j hj => decide_eq_decide.mpr (hlive j hj)]
  refine map_congr_left fun j hj => h.kept j ?_
  exact (of_decide_eq_true (mem_filter.mp hj).2).1

/-- **Compressing a program** comes to its end on every input, and writes as many of the surviving
instructions as the output has room for, in their order. -/
theorem mutate_memoryCompression (engine : CrucibleEngine) (bodyBuf : Nat → Instr)
    (table : FunctionTable) (input : List UInt8) (room extra : Nat) :
    ∃ engine', CrucibleEngine.mutate (maxIrInstructions + 1 + extra) bodyBuf table
      .memoryCompression input room { engine with dce := ⟨0, 0⟩ } =
        .ok (((IrBuffer.decodeFrom input).survivors.take (room / instructionBytes)).flatMap
          Instr.toBytes) engine' := by
  have hfuel := (IrBuffer.decodeFrom input).len_le
  have hpasses : Ensures (optimize (maxIrInstructions + 1 + extra) bodyBuf table .memoryCompression)
      ⟨{ engine with dce := ⟨0, 0⟩ }, .decodeFrom input⟩
      (fun _ w => (range w.buf.len).map w.buf.instrs = (IrBuffer.decodeFrom input).survivors)
      NoHalt := by
    rw [optimize, ensures_bind]
    refine (ensures_runDce (by dsimp only; omega) rfl).imp_ok fun _ w hburied => ?_
    refine ensures_compact.imp_ok fun _ w' hcompacted => ?_
    rw [hcompacted.1.program_eq, hburied.1.program_eq]
  rcases hpasses.cases with ⟨_, w, hrun, hprogram⟩ | ⟨_, _, _, hhalt⟩
  · refine ⟨w.engine, ?_⟩
    rw [CrucibleEngine.mutate, hrun, ← hprogram, ← map_take, take_range, flatMap_map, Nat.min_comm]
    rfl
  · exact hhalt.elim

end Sisyphus.Crucible
