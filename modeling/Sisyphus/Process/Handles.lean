import Sisyphus.Process.Registry

/-!
# Handles name one incarnation

A handle is a pid and a generation.  Pids come from a counter shared by all slots and generations
from the slot a process happens to live in, so that a handle is not reissued has two reasons:

* a child has a pid that no earlier child had, as long as the counter has not gone round;
* the init process has the same pid every time, and is told apart by the generation of its slot.

The second reason needs every incarnation of init to live in one slot (`Home`).  `register_init`
takes the lowest free slot and does not raise its generation, so an init that is registered again
while its old slot is taken gets the generation of an unrelated slot, and may get a handle that
was already used: `registerInit_reissues` is such a run.

`Ledger` is the invariant behind the positive result: it relates the handles issued so far to the
pid counter and to the generation of init's slot.
-/

set_option autoImplicit false

namespace Sisyphus.Lifecycle

open Fallible Function Lifecycle List Option ProcessSlot ProcessTable

/-! ## What a run issues -/

/-- The handle that a call names. -/
def Call.handle : Call → Option ProcessHandle
  | .publishCurrent handle => some handle
  | .markRunning handle => some handle
  | .schedulePreempt _ authority => some authority.handle
  | .markRunnable handle => some handle
  | .markBlocked handle => some handle
  | .reapChild _ handle => some handle
  | _ => none

def Call.isCommit : Call → Bool
  | .commitChild _ _ => true
  | _ => false

/-- Only `register_init` and `commit_child` create processes. -/
def Call.creates : Call → Bool
  | .registerInit _ => true
  | .commitChild _ _ => true
  | _ => false

def Reply.issuedHandle : Reply → Option ProcessHandle
  | .issued handle => some handle
  | _ => none

/-- The calls of a run with their replies. -/
def trace (s : State) (calls : List Call) : List (Call × Reply) :=
  Run.trace (fun s c => c.perform s) s calls

/-- The handles given out along a trace, oldest first. -/
def issuedHandles (past : List (Call × Reply)) : List ProcessHandle :=
  past.filterMap fun p => p.2.issuedHandle

theorem issuedHandles_trace_cons (s : State) (c : Call) (rest : List Call) :
    issuedHandles (trace s (c :: rest)) =
      (c.perform s).1.issuedHandle.toList ++ issuedHandles (trace (c.perform s).2 rest) := by
  simp only [trace, Run.trace, issuedHandles, filterMap_cons]
  cases (c.perform s).1.issuedHandle <;> rfl

/-- How many pids a trace may have drawn. -/
def commits (past : List (Call × Reply)) : Nat := past.countP fun p => p.1.isCommit

/-- `register_init` finds the slot `home` when it looks for a free one. -/
def Home (home : SlotIndex) (s : State) : Call → Prop
  | .registerInit _ => s.table.indexByPid initPid = none →
      ∀ i, s.table.indexOfFree = some i → i = home
  | _ => True

/-- Every call that names `handle` is refused and changes nothing, and so is every user return
for it. -/
structure Rejected (handle : ProcessHandle) (s : State) : Prop where
  call : ∀ c : Call, c.handle = some handle → ∃ e, c.perform s = (.failed e, s)
  userReturn : ∀ a : AuthorizedUserReturn, (⟨a.pid, a.generation⟩ : ProcessHandle) = handle →
    ∃ e, authorizeUserReturn a s = .error e s

/-! ## Identities -/

/-- The slots hold the same processes as before, and no pid was drawn. -/
structure SameIdentities (s t : State) : Prop where
  occupied : ∀ k, (t.table.slots k).occupied = (s.table.slots k).occupied
  handle : ∀ k, (t.table.slots k).handle = (s.table.slots k).handle
  nextPid : t.table.nextPid = s.table.nextPid

namespace SameIdentities

variable {s t : State}

theorem refl (s : State) : SameIdentities s s := ⟨fun _ => rfl, fun _ => rfl, rfl⟩

/-- A replacement of slots that keeps who they hold. -/
theorem of_slots {slots : SlotIndex → ProcessSlot} (hs : t.table.slots = slots)
    (h : ∀ k, (slots k).occupied = (s.table.slots k).occupied ∧
      (slots k).handle = (s.table.slots k).handle)
    (hn : t.table.nextPid = s.table.nextPid) : SameIdentities s t :=
  ⟨fun k => by rw [hs]; exact (h k).1, fun k => by rw [hs]; exact (h k).2, hn⟩

end SameIdentities

variable {i : SlotIndex} {slot : ProcessSlot}

theorem keeps_update {slots slots' : SlotIndex → ProcessSlot}
    (h : ∀ k, (slots' k).occupied = (slots k).occupied ∧ (slots' k).handle = (slots k).handle)
    (ho : slot.occupied = (slots' i).occupied) (hh : slot.handle = (slots' i).handle)
    (k : SlotIndex) : (update slots' i slot k).occupied = (slots k).occupied ∧
      (update slots' i slot k).handle = (slots k).handle := by
  by_cases hk : k = i
  · subst hk
    simp [ho, hh, h k]
  · simpa [hk] using h k

/-- A change that creates nothing keeps every identity, or reaps one slot. -/
theorem Change.identities {s t : State} {o : Outcome} (hc : Change s o t)
    (hissued : ∀ handle, o ≠ .issued handle) (huncommitted : o ≠ .uncommitted) :
    SameIdentities s t ∨
      ∃ i, (s.table.slots i).occupied = true ∧ t = { s with
        table := s.table.setSlot i { empty with
          generation := reapedGeneration (s.table.slots i).generation } } := by
  have start : ∀ k, (s.table.slots k).occupied = (s.table.slots k).occupied ∧
      (s.table.slots k).handle = (s.table.slots k).handle := fun _ => ⟨rfl, rfl⟩
  cases hc with
  | refused => exact .inl (.refl s)
  | register i launch free fresh valid
  | commit i pid parent launch free drawn valid => exact absurd rfl (hissued _)
  | uncommitted nextPid drawn => exact absurd rfl huncommitted
  | resume i saved epoch running valid next =>
    exact .inl (.of_slots rfl (keeps_update start rfl rfl) rfl)
  | switch i j saved epoch running runnable valid next =>
    exact .inl (.of_slots rfl
      (keeps_update (keeps_update (keeps_update start rfl rfl) rfl rfl) rfl rfl) rfl)
  | reselect i saved epoch running valid next | start j epoch idle alone runnable next =>
    exact .inl (.of_slots rfl (keeps_update start rfl rfl) rfl)
  | idleAgain epoch idle alone next => exact .inl ⟨fun _ => rfl, fun _ => rfl, rfl⟩
  | exitTo i j exitCode epoch running runnable next =>
    exact .inl (.of_slots rfl (keeps_update (keeps_update start rfl rfl) rfl rfl) rfl)
  | exitIdle i exitCode epoch running next | pause i phase before occupied after =>
    exact .inl (.of_slots rfl (keeps_update start rfl rfl) rfl)
  | reap i occupied zombie => exact .inr ⟨i, occupied, rfl⟩
  | publish i running => exact .inl ⟨fun _ => rfl, fun _ => rfl, rfl⟩

theorem reply_quiet {α : Type} {ok : α → Reply} {x : Op α} {s : State}
    (h : ∀ a t, (∀ handle, (ok a).outcome t ≠ .issued handle) ∧ (ok a).outcome t ≠ .uncommitted ∧
      (ok a).issuedHandle = none) :
    (∀ handle, (reply ok x s).1.outcome (reply ok x s).2 ≠ .issued handle) ∧
      (reply ok x s).1.outcome (reply ok x s).2 ≠ .uncommitted ∧
      (reply ok x s).1.issuedHandle = none := by
  cases hx : x s with
  | ok a t => simpa only [reply, hx] using h a t
  | error e t => simp [reply, hx, Reply.outcome, Reply.issuedHandle]

/-- A call that is not made to create a process does not. -/
theorem Call.quiet {c : Call} (hc : c.creates = false) (s : State) :
    (∀ handle, c.outcome s ≠ .issued handle) ∧ c.outcome s ≠ .uncommitted ∧
      (c.perform s).1.issuedHandle = none := by
  have hdecision : ∀ (d : ScheduleDecision) (t : State),
      (∀ handle, (Reply.decided d).outcome t ≠ .issued handle) ∧
        (Reply.decided d).outcome t ≠ .uncommitted ∧ (Reply.decided d).issuedHandle = none := by
    intro d t
    cases d <;> simp [Reply.outcome, ScheduleDecision.toOutcome, Reply.issuedHandle]
  cases c with
  | registerInit launch | commitChild parent launch => cases hc
  | markRunning handle =>
    refine reply_quiet fun a t => ?_
    simp only [Reply.outcome, startedReturn, Reply.issuedHandle]
    split <;> simp
  | markRunnable handle =>
    cases hx : Lifecycle.markRunnable handle s <;>
      simp [Call.outcome, Call.perform, reply, hx, Reply.outcome, Reply.issuedHandle]
  | markBlocked handle =>
    cases hx : Lifecycle.markBlocked handle s <;>
      simp [Call.outcome, Call.perform, reply, hx, Reply.outcome, Reply.issuedHandle]
  | scheduleExit exitCode | scheduleFromPid0 authority => exact reply_quiet hdecision
  | _ => exact reply_quiet fun a t => by simp [Reply.outcome, Reply.issuedHandle]

/-! ## The ledger -/

/-- How the handles issued so far relate to the table. -/
structure Ledger (home : SlotIndex) (issued : List ProcessHandle) (drawn : Nat) (s : State) :
    Prop where
  nodup : issued.Nodup
  /-- Only issued handles are in use. -/
  recorded : ∀ k, (s.table.slots k).occupied = true → (s.table.slots k).handle ∈ issued
  /-- The counter is above every pid in the ledger until it goes round. -/
  counter : ∃ next, 2 ≤ next ∧ next ≤ drawn + 2 ∧ (∀ h ∈ issued, h.pid.toNat < next) ∧
    (next < 2 ^ 32 → s.table.nextPid.toNat = next)
  /-- Every init so far lived in `home`, and all but a living one in an earlier generation. -/
  inits : ∀ h ∈ issued, h.pid = initPid →
    h.generation.toNat < (s.table.slots home).generation.toNat ∨
      (h = (s.table.slots home).handle ∧ (s.table.slots home).occupied = true ∧
        h.generation ≠ generationMax)

theorem Ledger.new (home : SlotIndex) : Ledger home [] 0 .new where
  nodup := .nil
  recorded k h := by simp [State.new, ProcessTable.new, empty] at h
  counter := ⟨2, le_rfl, le_rfl, by simp, fun _ => rfl⟩
  inits := by simp

section Ledger

variable {home : SlotIndex} {issued : List ProcessHandle} {drawn : Nat} {s t : State}

theorem Ledger.same (h : Ledger home issued drawn s) (hst : SameIdentities s t) :
    Ledger home issued drawn t where
  nodup := h.nodup
  recorded k hk := by
    rw [hst.occupied] at hk
    rw [hst.handle]
    exact h.recorded k hk
  counter := by
    rw [hst.nextPid]
    exact h.counter
  inits := by
    have hgen : (t.table.slots home).generation = (s.table.slots home).generation :=
      congrArg ProcessHandle.generation (hst.handle home)
    rw [hgen, hst.handle, hst.occupied]
    exact h.inits

theorem le_reapedGeneration (generation : UInt32) :
    generation.toNat ≤ (reapedGeneration generation).toNat := by
  rw [reapedGeneration]
  split
  · rename_i hmax
    rw [beq_iff_eq.mp hmax]
  · rename_i hmax
    rw [toNat_add_one (by simpa using hmax)]
    omega

theorem Ledger.reap (h : Ledger home issued drawn s) :
    Ledger home issued drawn { s with
      table := s.table.setSlot i { empty with
        generation := reapedGeneration (s.table.slots i).generation } } where
  nodup := h.nodup
  recorded k hk := by
    have hki : k ≠ i := by
      rintro rfl
      simp [empty] at hk
    simp only [setSlot_slots, update_of_ne hki] at hk ⊢
    exact h.recorded k hk
  counter := h.counter
  inits g hg hpid := by
    by_cases hhome : home = i
    · subst hhome
      left
      simp only [setSlot_slots, update_self]
      rcases h.inits g hg hpid with hlt | ⟨rfl, -, hmax⟩
      · exact hlt.trans_le (le_reapedGeneration _)
      · -- init never reaches the last generation, so its own is not saturated
        change (s.table.slots home).generation ≠ generationMax at hmax
        rw [reapedGeneration, if_neg (by simpa using hmax), toNat_add_one hmax]
        exact Nat.lt_succ_self _
    · simp only [setSlot_slots, update_of_ne hhome]
      exact h.inits g hg hpid

theorem max_two {pid : UInt32} (h : 2 ≤ pid.toNat) : max pid 2 = pid := by
  rw [← UInt32.toNat_inj, UInt32.toNat_max]
  exact max_eq_left h

/-- While the counter has not gone round, `allocate_pid` takes its first candidate. -/
theorem ProcessTable.allocatePid_fresh {table : ProcessTable} (h2 : 2 ≤ table.nextPid.toNat)
    (hfresh : ∀ k, (table.slots k).occupied = true →
      (table.slots k).pid.toNat < table.nextPid.toNat) :
    table.allocatePid =
      (some table.nextPid, { table with nextPid := max (table.nextPid + 1) 2 }) := by
  have hany : (table.any fun slot => slot.occupied && slot.pid == table.nextPid) = false := by
    rw [← Bool.not_eq_true, any_eq_true_iff]
    rintro ⟨k, hk⟩
    simp only [Bool.and_eq_true, beq_iff_eq] at hk
    have := hfresh k hk.1
    rw [hk.2] at this
    exact lt_irrefl _ this
  simp [allocatePid, allocatePidFrom, max_two h2, hany]

section

variable (h : Ledger home issued drawn s)
include h

/-- Drawing a pid, whether or not a child comes of it. -/
theorem Ledger.draw (hlim : drawn + 1 ≤ 2 ^ 32 - 2) :
    ∃ pid, s.table.allocatePid.1 = some pid ∧ 2 ≤ pid.toNat ∧ pid.toNat ≤ drawn + 2 ∧
      (∀ g ∈ issued, g.pid.toNat < pid.toNat) ∧
      (pid.toNat + 1 < 2 ^ 32 → s.table.allocatePid.2.nextPid.toNat = pid.toNat + 1) := by
  obtain ⟨next, h2, hn, hlt, hnext⟩ := h.counter
  have hpid := hnext (by omega)
  have hfresh := allocatePid_fresh (by omega) fun k hk =>
    (hlt _ (h.recorded k hk)).trans_le hpid.ge
  refine ⟨s.table.nextPid, by rw [hfresh], by omega, by omega, fun g hg => hpid ▸ hlt g hg,
    fun hr => ?_⟩
  have hsucc : (s.table.nextPid + 1).toNat = s.table.nextPid.toNat + 1 := by
    rw [UInt32.toNat_add, show UInt32.toNat 1 = 1 from rfl]
    omega
  rw [hfresh, max_two (by omega), hsucc]

theorem Ledger.uncommitted (hlim : drawn + 1 ≤ 2 ^ 32 - 2) {nextPid : UInt32}
    (hd : nextPid = s.table.nextPid ∨ nextPid = s.table.allocatePid.2.nextPid) :
    Ledger home issued (drawn + 1) { s with table := { s.table with nextPid } } := by
  rcases hd with rfl | rfl
  · obtain ⟨next, h2, hn, hrest⟩ := h.counter
    exact { h with counter := ⟨next, h2, by omega, hrest⟩ }
  · obtain ⟨pid, -, h2, hle, hlt, hnext⟩ := h.draw hlim
    have hbelow : ∀ g ∈ issued, g.pid.toNat < pid.toNat + 1 := fun g hg => Nat.lt_succ_of_lt
      (hlt g hg)
    exact ⟨h.nodup, h.recorded, ⟨pid.toNat + 1, by omega, by omega, hbelow, hnext⟩, h.inits⟩

/-- A slot that was free is taken under a new handle. -/
theorem Ledger.recorded_install (k : SlotIndex)
    (hk : (update s.table.slots i slot k).occupied = true) :
    (update s.table.slots i slot k).handle ∈ issued ++ [slot.handle] := by
  by_cases hki : k = i
  · subst hki
    simp
  · rw [update_of_ne hki] at hk ⊢
    exact mem_append_left _ (h.recorded k hk)

variable {launch : ProcessLaunch} {wait : UInt64}

theorem Ledger.commit (hlim : drawn + 1 ≤ 2 ^ 32 - 2) {pid parent : UInt32}
    (hi : s.table.indexOfFree = some i) (hd : s.table.allocatePid.1 = some pid) :
    Ledger home (issued ++ [⟨pid, (s.table.slots i).generation + 1⟩]) (drawn + 1) { s with
      table := { s.table.setSlot i
          (newSlot pid parent ((s.table.slots i).generation + 1) launch wait) with
        nextPid := s.table.allocatePid.2.nextPid } } := by
  obtain ⟨pid', hd', h2, hle, hlt, hnext⟩ := h.draw hlim
  obtain rfl : pid' = pid := some.inj (hd'.symm.trans hd)
  have hfree := position_some hi
  have hvacant : (s.table.slots i).occupied = false := by
    simpa using (Bool.and_eq_true_iff.mp hfree).1
  refine ⟨?_, h.recorded_install, ⟨pid'.toNat + 1, by omega, by omega, ?_, hnext⟩, ?_⟩
  · refine nodup_append.mpr ⟨h.nodup, nodup_singleton _, ?_⟩
    rintro g hg _ hmem rfl
    rw [mem_singleton] at hmem
    have := hlt g hg
    rw [hmem] at this
    exact lt_irrefl _ this
  · exact forall_mem_concat.mpr ⟨fun g hg => Nat.lt_succ_of_lt (hlt g hg), Nat.lt_succ_self _⟩
  · intro g hg hpid
    rcases mem_append.mp hg with hmem | hmem
    · by_cases hhome : home = i
      · subst hhome
        left
        simp only [setSlot_slots, update_self]
        rcases h.inits g hmem hpid with hold | ⟨-, hocc, -⟩
        · exact hold.trans (by
            show _ < ((s.table.slots home).generation + 1).toNat
            rw [toNat_add_one (generation_ne_max hfree)]
            exact Nat.lt_succ_self _)
        · rw [hvacant] at hocc
          cases hocc
      · simp only [setSlot_slots, update_of_ne hhome]
        exact h.inits g hmem hpid
    · -- a child never has init's pid
      rw [mem_singleton.mp hmem] at hpid
      change pid' = initPid at hpid
      rw [hpid, show initPid.toNat = 1 from rfl] at h2
      omega

theorem Ledger.register (hi : s.table.indexOfFree = some home) :
    Ledger home (issued ++ [⟨initPid, (s.table.slots home).generation⟩]) drawn { s with
      table := s.table.setSlot home
        (newSlot initPid noPid (s.table.slots home).generation launch wait) } := by
  have hfree := position_some hi
  have hvacant : (s.table.slots home).occupied = false := by
    simpa using (Bool.and_eq_true_iff.mp hfree).1
  -- nobody lives in `home`, so every earlier init is of an earlier generation
  have hold : ∀ g ∈ issued, g.pid = initPid →
      g.generation.toNat < (s.table.slots home).generation.toNat := by
    intro g hg hpid
    rcases h.inits g hg hpid with hlt | ⟨-, hocc, -⟩
    · exact hlt
    · rw [hvacant] at hocc
      cases hocc
  obtain ⟨next, h2, hn, hlt, hnext⟩ := h.counter
  refine ⟨?_, h.recorded_install, ⟨next, h2, hn, ?_, hnext⟩, ?_⟩
  · refine nodup_append.mpr ⟨h.nodup, nodup_singleton _, ?_⟩
    rintro g hg _ hmem rfl
    rw [mem_singleton] at hmem
    have := hold g hg (by rw [hmem])
    rw [hmem] at this
    exact lt_irrefl _ this
  · intro g hg
    rcases mem_append.mp hg with hg | hg
    · exact hlt g hg
    · rw [mem_singleton.mp hg, show (⟨initPid, _⟩ : ProcessHandle).pid.toNat = 1 from rfl]
      omega
  · intro g hg hpid
    simp only [setSlot_slots, update_self]
    rcases mem_append.mp hg with hg | hg
    · exact .inl (hold g hg hpid)
    · rw [mem_singleton.mp hg]
      exact .inr ⟨rfl, rfl, generation_ne_max hfree⟩

end

/-- **One call keeps the ledger**, if `register_init` finds init's home and the pid counter has
not gone round. -/
theorem Ledger.step {c : Call} (hhome : Home home s c)
    (hlim : drawn + (if c.isCommit then 1 else 0) ≤ 2 ^ 32 - 2) (h : Ledger home issued drawn s) :
    Ledger home (issued ++ (c.perform s).1.issuedHandle.toList)
      (drawn + if c.isCommit then 1 else 0) (c.perform s).2 := by
  cases hcreates : c.creates with
  | false =>
    obtain ⟨hissued, huncommitted, hnone⟩ := c.quiet hcreates s
    have hcommit : c.isCommit = false := by cases c <;> first | rfl | cases hcreates
    rw [hnone, hcommit]
    simp only [toList_none, append_nil, Bool.false_eq_true, if_false, Nat.add_zero]
    rcases (c.perform_change s).identities hissued huncommitted with hsame | ⟨i, -, ht⟩
    · exact h.same hsame
    · rw [ht]
      exact h.reap
  | true =>
    cases c with
    | registerInit launch =>
      simp only [Call.perform, reply]
      rcases (ensures_registerInit launch s).cases with
        ⟨_, _, hx, i, hi, -, hfresh, rfl, rfl⟩ | ⟨_, _, hx, rfl⟩
      · have hnone : s.table.indexByPid initPid = none := by
          refine find?_eq_none.mpr fun k _ => ?_
          simpa using hfresh k
        obtain rfl := hhome hnone i hi
        rw [hx]
        exact h.register hi
      · simpa [hx, Reply.issuedHandle, Call.isCommit] using h
    | commitChild parent launch =>
      simp only [Call.perform, reply, Call.isCommit, if_true] at hlim ⊢
      rcases (ensures_commitChild parent launch s).cases with
        ⟨_, _, hx, i, pid, hi, -, hd, rfl, rfl⟩ | ⟨_, _, hx, nextPid, hd, rfl⟩
      · rw [hx]
        exact h.commit hlim hi hd
      · simpa [hx, Reply.issuedHandle] using h.uncommitted hlim hd
    | _ => cases hcreates

/-- The ledger of a whole run. -/
theorem Ledger.run {calls : List Call}
    (hhome : Run.EveryStep (fun s c => c.perform s) (Home home) .new calls)
    (hlim : commits (trace .new calls) ≤ 2 ^ 32 - 2) :
    Ledger home (issuedHandles (trace .new calls)) (commits (trace .new calls))
      (run .new calls) := by
  have hstep := hhome.history []
    (I := fun past s => commits past ≤ 2 ^ 32 - 2 →
      Ledger home (issuedHandles past) (commits past) s)
    (fun past s c hc ih hle => ?_) (fun _ => Ledger.new home)
  · exact hstep hlim
  · simp only [commits, issuedHandles, countP_append, filterMap_append] at hle ih ⊢
    have hone : countP (fun p : Call × Reply => p.1.isCommit) [(c, (c.perform s).1)] =
        if c.isCommit then 1 else 0 := by simp [countP_cons]
    have hmap : filterMap (fun p : Call × Reply => p.2.issuedHandle) [(c, (c.perform s).1)] =
        (c.perform s).1.issuedHandle.toList := by
      cases h : (c.perform s).1.issuedHandle <;> simp [h]
    rw [hone] at hle ⊢
    exact (ih (by omega)).step hc hle

end Ledger

/-! ## Dead handles -/

/-- No process answers to `handle`. -/
def Dead (handle : ProcessHandle) (s : State) : Prop :=
  ∀ k, (s.table.slots k).occupied = true → (s.table.slots k).handle ≠ handle

section Dead

variable {handle : ProcessHandle} {s t : State}

theorem indexByHandle_eq_none (h : Dead handle s) : s.table.indexByHandle handle = none := by
  rw [eq_none_iff_forall_ne_some]
  intro i hi
  obtain ⟨ho, hh⟩ := indexByHandle_some hi
  exact h i ho hh

/-- A process of the next state was there before, or is the one just created. -/
theorem Change.occupied {o : Outcome} (hc : Change s o t) {k : SlotIndex}
    (hk : (t.table.slots k).occupied = true) :
    (∃ i, (s.table.slots i).occupied = true ∧ (s.table.slots i).handle = (t.table.slots k).handle) ∨
      o = .issued (t.table.slots k).handle := by
  have hquiet : (∀ h, o ≠ .issued h) → o ≠ .uncommitted →
      ∃ i, (s.table.slots i).occupied = true ∧
        (s.table.slots i).handle = (t.table.slots k).handle := by
    intro hi hu
    rcases hc.identities hi hu with hsame | ⟨i, -, rfl⟩
    · exact ⟨k, (hsame.occupied k) ▸ hk, (hsame.handle k).symm⟩
    · have hki : k ≠ i := by
        rintro rfl
        simp [empty] at hk
      simp only [setSlot_slots, update_of_ne hki] at hk ⊢
      exact ⟨k, hk, rfl⟩
  have hfilled : ∀ {i : SlotIndex} {slot : ProcessSlot}, o = .issued slot.handle →
      t.table.slots = update s.table.slots i slot →
      (∃ i, (s.table.slots i).occupied = true ∧
        (s.table.slots i).handle = (t.table.slots k).handle) ∨
        o = .issued (t.table.slots k).handle := by
    intro i slot ho ht
    rw [ht] at hk ⊢
    by_cases hki : k = i
    · subst hki
      exact .inr (by simpa using ho)
    · rw [update_of_ne hki] at hk ⊢
      exact .inl ⟨k, hk, rfl⟩
  cases o with
  | issued h =>
    cases hc with
    | register i launch free fresh valid
    | commit i pid parent launch free drawn valid => exact hfilled rfl rfl
  | uncommitted =>
    cases hc
    exact .inl ⟨k, hk, rfl⟩
  | keep | paused h | user a | pid0 => exact .inl (hquiet (by simp) (by simp))

theorem Call.issuedHandle_of_outcome {c : Call} (h : c.outcome s = .issued handle) :
    (c.perform s).1.issuedHandle = some handle := by
  cases hcreates : c.creates with
  | false => exact absurd h ((c.quiet hcreates s).1 handle)
  | true =>
    cases c with
    | registerInit launch =>
      revert h
      simp only [Call.outcome, Call.perform, reply]
      cases Lifecycle.registerInit launch s <;> simp [Reply.outcome, Reply.issuedHandle]
    | commitChild parent launch =>
      revert h
      simp only [Call.outcome, Call.perform, reply]
      cases Lifecycle.commitChild parent launch s <;> simp [Reply.outcome, Reply.issuedHandle]
    | _ => cases hcreates

/-- A dead handle stays dead while it is not issued again. -/
theorem Dead.run {calls : List Call} (h : Dead handle s)
    (hnew : handle ∉ issuedHandles (trace s calls)) : Dead handle (run s calls) := by
  induction calls generalizing s with
  | nil => exact h
  | cons c rest ih =>
    rw [issuedHandles_trace_cons, mem_append, not_or] at hnew
    have hstep : Dead handle (c.perform s).2 := by
      intro k hk hh
      rcases (c.perform_change s).occupied hk with ⟨i, hi, hsame⟩ | ho
      · exact h i hi (hsame.trans hh)
      · rw [hh] at ho
        exact hnew.1 (by simp [Call.issuedHandle_of_outcome ho])
    exact ih hstep hnew.2

/-- Nobody answers to a handle once it is reaped. -/
theorem dead_of_reapChild (wf : WellFormed s.table) {parent : UInt32} {status : Int64}
    (hc : reapChild parent handle s = .ok status t) : Dead handle t := by
  obtain ⟨i, hi, -, rfl⟩ := (ensures_reapChild ..).of_ok hc
  obtain ⟨ho, hh⟩ := indexByHandle_some hi
  intro k hk hkh
  have hki : k ≠ i := by
    rintro rfl
    simp [empty] at hk
  simp only [setSlot_slots, update_of_ne hki] at hk hkh
  exact hki (wf.pid_inj k i hk ho (congrArg ProcessHandle.pid (hkh.trans hh.symm)))

theorem Makes.reply_failed {α : Type} {ok : α → Reply} {x : Op α} {out : α → State → Outcome}
    (h : Makes x s out) (hok : ∀ a t, x s ≠ .ok a t) : ∃ e, reply ok x s = (.failed e, s) := by
  rcases h.cases with ⟨a, t, hx, -⟩ | ⟨e, t, hx, rfl⟩
  · exact absurd hx (hok a t)
  · exact ⟨e, by rw [reply, hx]⟩

/-- A handle that nobody answers to is refused everywhere. -/
theorem Dead.rejected (h : Dead handle s) : Rejected handle s := by
  have hnone := indexByHandle_eq_none h
  refine ⟨fun c hc => ?_, fun a ha => ?_⟩
  · cases c with
    | publishCurrent g =>
      obtain rfl := some.inj hc
      exact makes_publishCurrent.reply_failed (by simp [publishCurrent, publishCheck, hnone])
    | markRunning g =>
      obtain rfl := some.inj hc
      exact makes_markRunning.reply_failed (by simp [markRunning, hnone])
    | schedulePreempt saved authority =>
      obtain rfl := some.inj hc
      exact makes_schedulePreempt.reply_failed (by simp [schedulePreempt, hnone])
    | markRunnable g =>
      obtain rfl := some.inj hc
      exact (makes_markRunnable g s).reply_failed (by simp [markRunnable, hnone])
    | markBlocked g =>
      obtain rfl := some.inj hc
      exact (makes_markBlocked g s).reply_failed (by simp [markBlocked, hnone])
    | reapChild parent g =>
      obtain rfl := some.inj hc
      exact makes_reapChild.reply_failed (by simp [reapChild, hnone])
    | _ => cases hc
  · have hunchanged : Ensures (authorizeUserReturn a) s (fun _ _ => True) fun _ t => t = s := by
      simp [authorizeUserReturn, runningIndex]
    rcases hunchanged.cases with ⟨p, t, hx, -⟩ | ⟨e, t, hx, rfl⟩
    · simp [authorizeUserReturn, ha, hnone] at hx
    · exact ⟨e, hx⟩

end Dead

/-! ## Handles are not reissued -/

/-- **No handle is issued twice, and the handle of a reaped process is rejected for good**, in
every run in which `register_init` finds its own earlier slot and at most `2 ^ 32 - 2` children
are asked for. -/
theorem issuedHandles_nodup_and_reaped_rejected (home : SlotIndex) (calls : List Call)
    (hhome : Run.EveryStep (fun s c => c.perform s) (Home home) .new calls)
    (hlim : commits (trace .new calls) ≤ 2 ^ 32 - 2) :
    (issuedHandles (trace .new calls)).Nodup ∧
      ∀ before after parent handle status, calls = before ++ .reapChild parent handle :: after →
        ((Call.reapChild parent handle).perform (run .new before)).1 = .reaped status →
        Rejected handle (run .new calls) := by
  have hnodup := (Ledger.run hhome hlim).nodup
  refine ⟨hnodup, fun before after parent handle status hcalls hreaped => ?_⟩
  subst hcalls
  have wf := (Consistent.new.run before).wellFormed
  -- the handle was in use when it was reaped, so it had been issued before
  rw [Run.everyStep_append] at hhome
  have hsplit : trace .new (before ++ .reapChild parent handle :: after) =
      trace .new before ++ trace (run .new before) (.reapChild parent handle :: after) :=
    Run.trace_append ..
  rw [hsplit, issuedHandles, List.filterMap_append] at hnodup
  rw [hsplit, commits, List.countP_append] at hlim
  have hpast := Ledger.run hhome.1 ((Nat.le_add_right _ _).trans hlim)
  simp only [Call.perform, reply] at hreaped
  cases hx : reapChild parent handle (run .new before) with
  | error e t => simp [hx] at hreaped
  | ok a t =>
    obtain ⟨i, hi, -, -⟩ := (ensures_reapChild ..).of_ok hx
    obtain ⟨ho, hh⟩ := indexByHandle_some hi
    have hissued := hpast.recorded i ho
    rw [hh] at hissued
    have hdead := dead_of_reapChild wf hx
    have hnext : ((Call.reapChild parent handle).perform (run .new before)) = (.reaped a, t) := by
      simp only [Call.perform, reply, hx]
    have hrun : run .new (before ++ .reapChild parent handle :: after) = run t after := by
      simp only [run, Run.final_append, Run.final]
      exact congrArg (fun p => Run.final _ p.2 after) hnext
    rw [hrun]
    refine (hdead.run fun hmem => ?_).rejected
    refine (List.nodup_append.mp hnodup).2.2 handle hissued handle ?_ rfl
    have hcons := issuedHandles_trace_cons (run .new before) (.reapChild parent handle) after
    rw [hnext] at hcons
    show handle ∈ issuedHandles _
    rw [hcons]
    exact hmem

/-- Init starts, forks a child and exits; it is reaped by the kernel. -/
def reapInitRun : List Call :=
  [.registerInit sampleLaunch, .markRunning ⟨1, 1⟩, .commitChild 1 sampleLaunch,
    .scheduleExit 0, .reapChild 0 ⟨1, 1⟩]

theorem reapInitRun_rejected :
    (issuedHandles (trace .new reapInitRun)).Nodup ∧ Rejected ⟨1, 1⟩ (run .new reapInitRun) := by
  let first : SlotIndex := ⟨0, by decide⟩
  have hfree : State.new.table.indexOfFree = some first := by decide +kernel
  have hhome : Run.EveryStep (fun s c => c.perform s) (Home first) .new reapInitRun :=
    ⟨fun _ i hi => Option.some.inj (hi.symm.trans hfree), trivial, trivial, trivial, trivial,
      trivial⟩
  obtain ⟨hnodup, hreaped⟩ :=
    issuedHandles_nodup_and_reaped_rejected first reapInitRun hhome (by decide +kernel)
  exact ⟨hnodup, hreaped (reapInitRun.take 4) [] 0 ⟨1, 1⟩ 0 rfl (by decide +kernel)⟩

/-- The child forks again, which takes init's old slot, and init is registered a second time: it
lands in a fresh slot, under the handle it had before. -/
def reissueRun : List Call :=
  reapInitRun ++ [.commitChild 2 sampleLaunch, .registerInit sampleLaunch, .scheduleExit 0]

theorem registerInit_reissues :
    ((Call.reapChild 0 ⟨1, 1⟩).perform (run .new (reissueRun.take 4))).1 = .reaped 0 ∧
      ¬(issuedHandles (trace .new reissueRun)).Nodup ∧ ¬Rejected ⟨1, 1⟩ (run .new reissueRun) := by
  have hissued : issuedHandles (trace .new reissueRun) = [⟨1, 1⟩, ⟨2, 2⟩, ⟨3, 3⟩, ⟨1, 1⟩] := by
    decide +kernel
  have haccepted : ((Call.markBlocked ⟨1, 1⟩).perform (run .new reissueRun)).1 = .done := by
    decide +kernel
  refine ⟨by decide +kernel, ?_, fun h => ?_⟩
  · decide
  · obtain ⟨e, he⟩ := h.call (.markBlocked ⟨1, 1⟩) rfl
    rw [he] at haccepted
    cases haccepted

end Sisyphus.Lifecycle
