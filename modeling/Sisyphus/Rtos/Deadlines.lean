import Sisyphus.Rtos.Scheduler
import Sisyphus.Foundation.Edf

/-!
# Admitted tasks meet their deadlines

The scheduler's slots are tasks in the sense of `Sisyphus.Foundation.Edf`: the share of a slot is
the rounded share that `admitTask` added to the total, its job is what the slot says.  `Sound s now`
is what holds of the scheduler all the time, and its last clause is the feasibility that the library
carries from step to step; everything else says that the slots are what the library takes them for.

A nanosecond is then an admission for each task that is accepted, a release for each slot that is
due, and one step of the most urgent job or an idle one.  None of the checks that report a missed
deadline or an exceeded budget can fail on the way: a job that is due has nothing left to do, and
the job that is named has.
-/

set_option autoImplicit false

namespace Sisyphus.Rtos

open Edf Fallible Function List Option TaskSlot UInt64 Words

/-! ## Shares -/

/-- The share of the processor that a task is admitted for, in units of `2 ^ -32`. -/
def RealTimeTask.share (task : RealTimeTask) : Nat :=
  (task.computationTimeNs.toNat <<< 32 + (task.deadlinePeriodNs.toNat - 1)) /
    task.deadlinePeriodNs.toNat

theorem toNat_utilizationQ32 {task : RealTimeTask} {q : UInt64} (h : utilizationQ32 task = .ok q) :
    q.toNat = task.share := by
  rw [utilizationQ32] at h
  split at h
  · next hlt =>
    cases h
    exact toNat_ofNat_of_lt' hlt
  · cases h

/-- The share covers the computation time of every period. -/
theorem RealTimeTask.cost_le_share {task : RealTimeTask} (h : task.deadlinePeriodNs ≠ 0) :
    2 ^ 32 * task.computationTimeNs.toNat ≤ task.share * task.deadlinePeriodNs.toNat := by
  have hpos : task.deadlinePeriodNs.toNat ≠ 0 := fun hz => h (UInt64.toNat_inj.mp hz)
  rw [share, Nat.shiftLeft_eq]
  have hdiv := Nat.div_add_mod
    (task.computationTimeNs.toNat * 2 ^ 32 + (task.deadlinePeriodNs.toNat - 1))
    task.deadlinePeriodNs.toNat
  have hmod := Nat.mod_lt (task.computationTimeNs.toNat * 2 ^ 32 + (task.deadlinePeriodNs.toNat -
    1)) (Nat.pos_of_ne_zero hpos)
  rw [Nat.mul_comm] at hdiv
  omega

/-! ## Slots as tasks -/

def TaskSlot.share (slot : TaskSlot) : Nat :=
  if slot.active then slot.task.share else 0

def TaskSlot.job (slot : TaskSlot) : Job where
  remaining := if slot.active then slot.remainingBudgetNs.toNat else 0
  deadline := slot.absoluteDeadlineNs.toNat
  next := slot.nextReleaseNs.toNat

/-- What holds of a slot in use: its period is not zero, and a job that is not finished has the next
release for its deadline. -/
structure TaskSlot.Sound (slot : TaskSlot) : Prop where
  period : slot.active = true → slot.task.deadlinePeriodNs ≠ 0
  due : slot.active = true → slot.remainingBudgetNs ≠ 0 →
    slot.absoluteDeadlineNs = slot.nextReleaseNs

variable {arrivals : List Arrival}

namespace EdfScheduler

def share (s : EdfScheduler) : Fin maximumRealTimeTasks → Nat := TaskSlot.share ∘ s.tasks

def job (s : EdfScheduler) : Fin maximumRealTimeTasks → Job := TaskSlot.job ∘ s.tasks

/-- What holds of the scheduler at time `now`. -/
structure Sound (s : EdfScheduler) (now : Nat) : Prop where
  total : s.utilizationQ32.toNat = ∑ i, s.share i
  full : ∑ i, s.share i ≤ 2 ^ 32
  slot : ∀ i, (s.tasks i).Sound
  pid : ∀ i j, (s.tasks i).active = true → (s.tasks j).active = true →
    (s.tasks i).task.pid = (s.tasks j).task.pid → i = j
  feasible : Feasible (2 ^ 32) s.share s.job now

/-- No active slot is overdue for a release at `now`. -/
def OnTime (s : EdfScheduler) (now : Nat) : Prop :=
  ∀ i, (s.tasks i).active = true → now ≤ (s.tasks i).nextReleaseNs.toNat

theorem sound_new (now : Nat) : EdfScheduler.new.Sound now := by
  constructor
  case total => simp [new, share, TaskSlot.share, TaskSlot.empty]
  case full => simp [new, share, TaskSlot.share, TaskSlot.empty]
  case slot => exact fun i => ⟨fun h => (by cases h), fun h => (by cases h)⟩
  case pid => exact fun i j h => by cases h
  case feasible =>
    intro D _
    simp [new, share, job, TaskSlot.share, TaskSlot.job, TaskSlot.empty, load]

variable {s : EdfScheduler} {now : Nat}

/-! ## Admission -/

theorem toNat_admittedUtilization {current utilization total : UInt64}
    (h : admittedUtilization current utilization = some total) :
    total.toNat = current.toNat + utilization.toNat ∧ total.toNat ≤ 2 ^ 32 := by
  rw [admittedUtilization, filter_eq_some_iff] at h
  obtain ⟨hadd, hle⟩ := h
  refine ⟨(checkedAdd_eq_some.mp hadd).symm, ?_⟩
  exact le_iff_toNat_le.mp (of_decide_eq_true hle)

theorem share_update (s : EdfScheduler) (i : Fin maximumRealTimeTasks) (slot : TaskSlot)
    (total : UInt64) :
    EdfScheduler.share ⟨update s.tasks i slot, total⟩ =
      update s.share i slot.share :=
  comp_update ..

theorem job_update (s : EdfScheduler) (i : Fin maximumRealTimeTasks) (slot : TaskSlot)
    (total : UInt64) :
    EdfScheduler.job ⟨update s.tasks i slot, total⟩ = update s.job i slot.job :=
  comp_update ..

theorem ensures_admitTask (hs : s.Sound now) (task : RealTimeTask) (release : UInt64) :
    Ensures (admitTask task release) s (fun _ t => (now ≤ release.toNat → t.Sound now) ∧
        ∃ i, (s.tasks i).active = false ∧ t.tasks = update s.tasks i ⟨task, release, 0, 0, true⟩)
      (fun _ t => t = s) := by
  simp only [admitTask, ensures_rules]
  intro hvalid hunique q hq total htotal i hi
  obtain ⟨hsum, hle⟩ := toNat_admittedUtilization htotal
  have hfree : (s.tasks i).active = false := by simpa using find?_some hi
  have hother : ∀ j, (s.tasks j).active = true → (s.tasks j).task.pid ≠ task.pid := by
    simpa using hunique
  have hshare : s.share i = 0 := if_neg (by simp [hfree])
  have hjob : (s.job i).remaining = 0 := if_neg (by simp [hfree])
  refine ⟨fun hrelease => ?_, i, hfree, rfl⟩
  have hadded : ∑ j, update s.share i task.share j = total.toNat := by
    have h := sum_change s.share (update s.share i task.share)
      fun _ hj => update_of_ne hj _ _
    rw [hshare, update_self, Nat.add_zero] at h
    rw [h, ← hs.total, hsum, toNat_utilizationQ32 hq]
  constructor
  case total => rw [share_update]; exact hadded.symm
  case full => rw [share_update]; exact hadded.trans_le hle
  case slot =>
    simp only [Bool.or_eq_false_iff, beq_eq_false_iff_ne] at hvalid
    exact (forall_update_iff _ (p := fun _ slot => TaskSlot.Sound slot)).mpr
      ⟨⟨fun _ => hvalid.1.2, fun _ h => absurd rfl h⟩, fun j _ => hs.slot j⟩
  case pid =>
    intro j k hj hk heq
    change (update s.tasks i _ j).active = true at hj
    change (update s.tasks i _ k).active = true at hk
    change (update s.tasks i _ j).task.pid = (update s.tasks i _ k).task.pid at heq
    by_cases hji : j = i
    · by_cases hki : k = i
      · exact hji.trans hki.symm
      · rw [hji, update_self, update_of_ne hki] at heq
        rw [update_of_ne hki] at hk
        exact absurd heq.symm (hother k hk)
    · rw [update_of_ne hji] at hj heq
      by_cases hki : k = i
      · rw [hki, update_self] at heq
        exact absurd heq (hother j hj)
      · rw [update_of_ne hki] at hk heq
        exact hs.pid j k hj hk heq
  case feasible =>
    rw [share_update, job_update]
    exact hs.feasible.admit hshare hjob rfl hrelease

/-- After all the admissions of a nanosecond: the slots in use are as before, and every task that
was accepted has one. -/
structure Admitted (s t : EdfScheduler) (accepted : List Arrival) (now : Nat) : Prop where
  sound : t.Sound now
  onTime : t.OnTime now
  kept : ∀ i, (s.tasks i).active = true → t.tasks i = s.tasks i
  accepted : ∀ arrival ∈ accepted, ∃ i, t.tasks i = ⟨arrival.1, arrival.2, 0, 0, true⟩

theorem admitted_admitAll (hs : s.Sound now) (hon : s.OnTime now)
    (hrelease : ∀ arrival ∈ (admitAll arrivals s).1, now ≤ arrival.2.toNat) :
    Admitted s (admitAll arrivals s).2 (admitAll arrivals s).1 now := by
  induction arrivals generalizing s with
  | nil => exact ⟨hs, hon, fun _ _ => rfl, forall_mem_nil _⟩
  | cons arrival rest ih =>
    rw [admitAll] at hrelease ⊢
    rcases (ensures_admitTask hs arrival.1 arrival.2).cases with
      ⟨_, t, hcall, hsound, i, hfree, hslots⟩ | ⟨_, t, hcall, rfl⟩
    · rw [hcall] at hrelease ⊢
      simp only [admitNext] at hrelease ⊢
      have hnow := hrelease arrival mem_cons_self
      have hont : t.OnTime now := by
        rw [OnTime, hslots]
        exact (forall_update_iff _ (p := fun _ slot => active slot = true →
          now ≤ slot.nextReleaseNs.toNat)).mpr ⟨fun _ => hnow, fun j _ => hon j⟩
      have hrest := ih (hsound hnow) hont fun a ha => hrelease a (mem_cons_of_mem _ ha)
      refine ⟨hrest.sound, hrest.onTime, fun j hj => ?_, fun a ha => ?_⟩
      · have hji : j ≠ i := by
          rintro rfl
          exact absurd hj (by simp [hfree])
        have hsame : t.tasks j = s.tasks j := by rw [hslots, update_of_ne hji]
        rw [hrest.kept j (by rwa [hsame]), hsame]
      · rcases mem_cons.mp ha with rfl | ha
        · have hnew : t.tasks i = ⟨a.1, a.2, 0, 0, true⟩ := by rw [hslots, update_self]
          exact ⟨i, by rw [hrest.kept i (by rw [hnew]), hnew]⟩
        · exact hrest.accepted a ha
    · rw [hcall] at hrelease ⊢
      exact ih hs hon hrelease

/-! ## Releases -/

end EdfScheduler

/-- The slot after the releases at `time`. -/
def TaskSlot.release (time : UInt64) (slot : TaskSlot) : TaskSlot :=
  if slot.active = true ∧ slot.nextReleaseNs = time then
    { slot with
      absoluteDeadlineNs := time + slot.task.deadlinePeriodNs
      nextReleaseNs := time + slot.task.deadlinePeriodNs
      remainingBudgetNs := slot.task.computationTimeNs }
  else
    slot

/-- The slot after a nanosecond of its job. -/
def TaskSlot.run (slot : TaskSlot) : TaskSlot :=
  { slot with remainingBudgetNs := slot.remainingBudgetNs - 1 }

variable {slot : TaskSlot}

theorem TaskSlot.toNat_run (h : slot.remainingBudgetNs ≠ 0) :
    slot.run.remainingBudgetNs.toNat + 1 = slot.remainingBudgetNs.toNat := by
  have hpos : slot.remainingBudgetNs.toNat ≠ 0 := fun hz => h (UInt64.toNat_inj.mp hz)
  have hsub : slot.run.remainingBudgetNs.toNat = slot.remainingBudgetNs.toNat - 1 :=
    UInt64.toNat_sub_of_le _ _ (UInt64.le_iff_toNat_le.mpr (Nat.one_le_iff_ne_zero.mpr hpos))
  omega

@[simp]
theorem TaskSlot.active_release (time : UInt64) (slot : TaskSlot) :
    (slot.release time).active = slot.active := by
  rw [release]
  split <;> rfl

@[simp]
theorem TaskSlot.task_release (time : UInt64) (slot : TaskSlot) :
    (slot.release time).task = slot.task := by
  rw [release]
  split <;> rfl

/-- A slot whose next deadline does not fit into 64 bits. -/
def TaskSlot.Overflows (time : UInt64) (slot : TaskSlot) : Prop :=
  slot.active = true ∧ slot.nextReleaseNs = time ∧
    2 ^ 64 ≤ time.toNat + slot.task.deadlinePeriodNs.toNat

theorem TaskSlot.nextReleaseNs_release {time : UInt64} (hactive : slot.active = true)
    (hfit : ¬ slot.Overflows time) :
    (slot.release time).nextReleaseNs.toNat = slot.nextReleaseNs.toNat +
      if slot.nextReleaseNs = time then slot.task.deadlinePeriodNs.toNat else 0 := by
  rw [release]
  by_cases hdue : slot.nextReleaseNs = time
  · have hlt : time.toNat + slot.task.deadlinePeriodNs.toNat < 2 ^ 64 :=
      Nat.lt_of_not_le fun ho => hfit ⟨hactive, hdue, ho⟩
    rw [if_pos ⟨hactive, hdue⟩, if_pos hdue, hdue]
    exact (UInt64.toNat_add ..).trans (Nat.mod_eq_of_lt hlt)
  · rw [if_neg fun hand => hdue hand.2, if_neg hdue, Nat.add_zero]

theorem TaskSlot.remainingBudgetNs_release (time : UInt64) (hactive : slot.active = true) :
    (slot.release time).remainingBudgetNs =
      if slot.nextReleaseNs = time then slot.task.computationTimeNs else
        slot.remainingBudgetNs := by
  rw [release]
  by_cases hdue : slot.nextReleaseNs = time
  · rw [if_pos ⟨hactive, hdue⟩, if_pos hdue]
  · rw [if_neg fun hand => hdue hand.2, if_neg hdue]

/-- A slot that is not overdue, and has nothing left to do when it is due, is released as it
should be. -/
theorem TaskSlot.Sound.releaseDue_eq (h : slot.Sound) {time : UInt64}
    (hon : slot.active = true → time ≤ slot.nextReleaseNs)
    (hdone : slot.active = true → slot.nextReleaseNs = time → slot.remainingBudgetNs = 0) :
    (releaseDue time slot = .ok (slot.release time) ∧ ¬ slot.Overflows time) ∨
      (releaseDue time slot = .error .timeOverflow ∧ slot.Overflows time) := by
  by_cases hactive : slot.active = true
  · have hle := le_iff_toNat_le.mp (hon hactive)
    have hmissed : ¬ (slot.remainingBudgetNs ≠ 0 ∧ slot.absoluteDeadlineNs < time) := by
      rintro ⟨hleft, hlate⟩
      rw [h.due hactive hleft] at hlate
      exact absurd (lt_iff_toNat_lt.mp hlate) (by omega)
    rw [releaseDue, if_neg (by simp [hactive]), if_neg hmissed]
    by_cases hlater : time < slot.nextReleaseNs
    · have hne : slot.nextReleaseNs ≠ time := fun heq => by
        rw [heq] at hlater
        exact absurd hlater (UInt64.lt_irrefl time)
      refine .inl ⟨?_, fun ho => hne ho.2.1⟩
      rw [if_pos hlater, release, if_neg fun hand => hne hand.2]
    · have heq : slot.nextReleaseNs = time :=
        UInt64.toNat_inj.mp (by rw [UInt64.lt_iff_toNat_lt] at hlater; omega)
      have hzero : slot.remainingBudgetNs = 0 := hdone hactive heq
      rw [if_neg hlater, if_neg (not_not_intro hzero), heq, UInt64.sub_self, UInt64.zero_div,
        if_neg (not_not_intro rfl)]
      by_cases hfit : time.toNat + slot.task.deadlinePeriodNs.toNat < 2 ^ 64
      · refine .inl ⟨?_, fun ho => absurd ho.2.2 (by omega)⟩
        simp only [checkedAdd, if_pos hfit, release, if_pos (And.intro hactive heq)]
      · refine .inr ⟨?_, hactive, heq, by omega⟩
        simp only [checkedAdd, if_neg hfit]
  · have hfree : slot.active = false := by simpa using hactive
    refine .inl ⟨?_, fun ho => hactive ho.1⟩
    rw [releaseDue, if_pos hfree, release, if_neg fun hand => hactive hand.1]

namespace EdfScheduler

variable {s : EdfScheduler} {now : Nat} {time : UInt64}

variable {i : Fin maximumRealTimeTasks}

/-- A job that is due is finished. -/
theorem Sound.finished (hs : s.Sound now) (hactive : (s.tasks i).active = true)
    (hnext : (s.tasks i).nextReleaseNs.toNat ≤ now) :
    (s.tasks i).remainingBudgetNs = 0 := by
  by_contra hleft
  have hdue : (s.job i).deadline ≤ now := by
    change (s.tasks i).absoluteDeadlineNs.toNat ≤ now
    rw [(hs.slot i).due hactive hleft]
    exact hnext
  have hzero := hs.feasible.remaining_eq_zero (by norm_num) hdue
  change (if (s.tasks i).active then (s.tasks i).remainingBudgetNs.toNat else 0) = 0 at hzero
  rw [if_pos hactive] at hzero
  exact hleft (UInt64.toNat_inj.mp hzero)

variable {slot : TaskSlot}

/-- A change of one slot that keeps its task. -/
protected theorem Sound.update (hs : s.Sound now) {later : Nat}
    (hactive : slot.active = (s.tasks i).active) (htask : slot.task = (s.tasks i).task)
    (hslot : slot.Sound)
    (hfeasible : Feasible (2 ^ 32) s.share (update s.job i slot.job) later) :
    Sound { s with tasks := update s.tasks i slot } later := by
  have hshares : EdfScheduler.share { s with tasks := update s.tasks i slot } = s.share := by
    have hshare : slot.share = s.share i := by
      simp only [TaskSlot.share, hactive, htask, share, Function.comp_apply]
    rw [share_update, hshare, update_eq_self]
  constructor
  case total => rw [hshares]; exact hs.total
  case full => rw [hshares]; exact hs.full
  case slot =>
    exact (forall_update_iff _ (p := fun _ slot => TaskSlot.Sound slot)).mpr
      ⟨hslot, fun j _ => hs.slot j⟩
  case pid =>
    have hsame : ∀ j, (update s.tasks i slot j).active = (s.tasks j).active ∧
        (update s.tasks i slot j).task = (s.tasks j).task :=
      (forall_update_iff _ (p := fun j slot => active slot = (s.tasks j).active ∧
        task slot = (s.tasks j).task)).mpr ⟨⟨hactive, htask⟩, fun _ _ => ⟨rfl, rfl⟩⟩
    intro j k hj hk heq
    refine hs.pid j k ((hsame j).1.symm.trans hj) ((hsame k).1.symm.trans hk) ?_
    rw [← (hsame j).2, ← (hsame k).2]
    exact heq
  case feasible =>
    rw [hshares, job_update]
    exact hfeasible

theorem Sound.release (hs : s.Sound time.toNat) (hfit : ¬ (s.tasks i).Overflows time) :
    Sound { s with tasks := update s.tasks i ((s.tasks i).release time) } time.toNat := by
  by_cases hdue : (s.tasks i).active = true ∧ (s.tasks i).nextReleaseNs = time
  · have hperiod := (hs.slot i).period hdue.1
    have hsum : (time + (s.tasks i).task.deadlinePeriodNs).toNat =
        (s.job i).next + (s.tasks i).task.deadlinePeriodNs.toNat := by
      change _ = (s.tasks i).nextReleaseNs.toNat + _
      rw [hdue.2, UInt64.toNat_add, Nat.mod_eq_of_lt]
      exact Nat.lt_of_not_le fun ho => hfit ⟨hdue.1, hdue.2, ho⟩
    have hcost : 2 ^ 32 * (s.tasks i).task.computationTimeNs.toNat ≤
        s.share i * (s.tasks i).task.deadlinePeriodNs.toNat := by
      have hshare : s.share i = (s.tasks i).task.share := if_pos hdue.1
      rw [hshare]
      exact RealTimeTask.cost_le_share hperiod
    rw [TaskSlot.release, if_pos hdue]
    refine hs.update rfl rfl ⟨fun _ => hperiod, fun _ _ => rfl⟩ ?_
    rw [TaskSlot.job, hsum, if_pos hdue.1]
    exact hs.feasible.release hcost
  · rw [TaskSlot.release, if_neg hdue, update_eq_self]
    exact hs

theorem ensures_releaseDueTasks (hs : s.Sound time.toNat) (hon : s.OnTime time.toNat) :
    Ensures (releaseDueTasks time) s
      (fun _ t => t.Sound time.toNat ∧ t.tasks = (fun i => (s.tasks i).release time) ∧
        ∀ i, ¬ (s.tasks i).Overflows time)
      (fun e _ => e = .timeOverflow ∧ ∃ i, (s.tasks i).Overflows time) := by
  refine (ensures_forM_done (I := fun done t => t.Sound time.toNat ∧
    (∀ i, t.tasks i = if i ∈ done then (s.tasks i).release time else s.tasks i) ∧
    ∀ i ∈ done, ¬ (s.tasks i).Overflows time) ⟨hs, fun _ => rfl, by simp⟩ ?_).imp_ok ?_
  · rintro done i rest hl t ⟨ht, hslots, hfit⟩
    have hnew : i ∉ done := by
      have hnodup := nodup_finRange maximumRealTimeTasks
      rw [hl] at hnodup
      exact fun hmem => (nodup_append.mp hnodup).2.2 i hmem i mem_cons_self rfl
    have hslot : t.tasks i = s.tasks i := by rw [hslots, if_neg hnew]
    simp only [ensures_rules]
    rw [hslot]
    have hle : (s.tasks i).active = true → time ≤ (s.tasks i).nextReleaseNs :=
      fun h => le_iff_toNat_le.mpr (hon i h)
    have hdone : (s.tasks i).active = true → (s.tasks i).nextReleaseNs = time →
        (s.tasks i).remainingBudgetNs = 0 :=
      fun h heq => hs.finished h (congrArg toNat heq).le
    rcases (hs.slot i).releaseDue_eq hle hdone with ⟨hcall, hno⟩ | ⟨hcall, ho⟩
    · rw [hcall]
      refine ⟨fun e herr => (by cases herr), fun slot hok => ?_⟩
      cases hok
      refine ⟨?_, ?_, ?_⟩
      · have hno' : ¬ (t.tasks i).Overflows time := by rwa [hslot]
        simpa only [hslot] using ht.release hno'
      · intro j
        by_cases hj : j = i
        · subst hj
          rw [update_self, if_pos (by simp)]
        · rw [update_of_ne hj, hslots]
          simp [hj]
      · exact forall_mem_concat.mpr ⟨hfit, hno⟩
    · rw [hcall]
      refine ⟨fun e herr => ?_, fun slot hok => (by cases hok)⟩
      cases herr
      exact ⟨rfl, i, ho⟩
  · rintro _ t ⟨ht, hslots, hfit⟩
    refine ⟨ht, funext fun i => ?_, fun i => hfit i (mem_finRange i)⟩
    rw [hslots, if_pos (mem_finRange i)]

/-- After the releases at `time`, every next release is later. -/
theorem OnTime.release (hs : s.Sound now) (hon : s.OnTime time.toNat) {t : EdfScheduler}
    (hslots : t.tasks = fun i => (s.tasks i).release time)
    (hfit : ∀ i, ¬ (s.tasks i).Overflows time) : t.OnTime (time.toNat + 1) := by
  intro i hactive
  have hslot : t.tasks i = (s.tasks i).release time := congrFun hslots i
  rw [hslot, active_release] at hactive
  have hle := hon i hactive
  have hperiod : (s.tasks i).task.deadlinePeriodNs.toNat ≠ 0 :=
    fun hz => (hs.slot i).period hactive (UInt64.toNat_inj.mp hz)
  rw [hslot, nextReleaseNs_release hactive (hfit i)]
  split
  · omega
  · next hdue =>
    have hne : (s.tasks i).nextReleaseNs.toNat ≠ time.toNat :=
      fun heq => hdue (UInt64.toNat_inj.mp heq)
    omega

/-! ## The task that runs -/

theorem mem_ready :
    i ∈ s.ready ↔ (s.tasks i).active = true ∧ (s.tasks i).remainingBudgetNs ≠ 0 := by
  simp [ready]

/-- What is left of a job is not nothing exactly when its slot is ready. -/
theorem remaining_ne_zero : (s.job i).remaining ≠ 0 ↔ i ∈ s.ready := by
  change (if (s.tasks i).active then (s.tasks i).remainingBudgetNs.toNat else 0) ≠ 0 ↔ _
  rw [mem_ready]
  by_cases hactive : (s.tasks i).active = true
  · rw [if_pos hactive, ← UInt64.toNat_inj.ne]
    simp [hactive]
  · simp [hactive]

theorem OnTime.next (hon : s.OnTime (now + 1)) (i : Fin maximumRealTimeTasks) :
    s.share i = 0 ∨ now < (s.job i).next := by
  by_cases hactive : (s.tasks i).active = true
  · exact .inr (hon i hactive)
  · exact .inl (if_neg hactive)

theorem Sound.idle (hs : s.Sound now) (hon : s.OnTime (now + 1)) (hnone : s.mostUrgent = none) :
    s.Sound (now + 1) := by
  refine { hs with feasible := feasible_idle hon.next fun i => ?_ }
  have hempty : s.ready = [] := argmin_eq_none.mp hnone
  by_contra hleft
  have hready := remaining_ne_zero.mp hleft
  rw [hempty] at hready
  exact absurd hready not_mem_nil

/-- One nanosecond of the job in slot `i` is accounted for without complaint. -/
theorem ensures_accountRuntime (hs : s.Sound now) (hready : i ∈ s.ready)
    (hlater : time.toNat < (s.tasks i).nextReleaseNs.toNat) :
    Ensures (accountRuntime (s.tasks i).task.pid 1 (time + 1)) s
      (fun _ t => t = { s with tasks := update s.tasks i (s.tasks i).run })
      (fun _ _ => False) := by
  obtain ⟨hactive, hleft⟩ := mem_ready.mp hready
  have hfind : ((finRange maximumRealTimeTasks).find? fun j =>
      (s.tasks j).active && (s.tasks j).task.pid == (s.tasks i).task.pid) = some i := by
    rcases hj : (finRange maximumRealTimeTasks).find? fun j =>
      (s.tasks j).active && (s.tasks j).task.pid == (s.tasks i).task.pid with _ | j
    · have hnot := find?_eq_none.mp hj i (mem_finRange i)
      simp [hactive] at hnot
    · have hsome := find?_some hj
      simp only [Bool.and_eq_true, beq_iff_eq] at hsome
      rw [hs.pid j i hsome.1 hactive hsome.2]
  have hdeadline : time + 1 ≤ (s.tasks i).absoluteDeadlineNs := by
    have hbound := (s.tasks i).nextReleaseNs.toNat_lt
    rw [(hs.slot i).due hactive hleft, UInt64.le_iff_toNat_le, UInt64.toNat_add, UInt64.toNat_one,
      Nat.mod_eq_of_lt (by omega)]
    omega
  simp only [accountRuntime, ensures_rules, hfind]
  simpa [run, hleft] using fun _ => hdeadline

theorem Sound.run (hs : s.Sound now) (hon : s.OnTime (now + 1)) (hi : s.mostUrgent = some i) :
    Sound { s with tasks := update s.tasks i (s.tasks i).run } (now + 1) := by
  have hready : i ∈ s.ready := argmin_mem hi
  obtain ⟨hactive, hleft⟩ := mem_ready.mp hready
  have hrun := remaining_ne_zero.mpr hready
  have hurgent : ∀ j, (s.job j).remaining ≠ 0 → (s.job i).deadline ≤ (s.job j).deadline :=
    fun j hj => le_of_mem_argmin (f := fun j => (s.tasks j).absoluteDeadlineNs.toNat)
      (remaining_ne_zero.mp hj) hi
  refine hs.update rfl rfl ⟨(hs.slot i).period, fun h _ => (hs.slot i).due h hleft⟩ ?_
  have hjob : (s.tasks i).run.job = { s.job i with remaining := (s.job i).remaining - 1 } := by
    have hunit := toNat_run hleft
    have hremaining : (s.job i).remaining = (s.tasks i).remainingBudgetNs.toNat := if_pos hactive
    rw [TaskSlot.job, hremaining, if_pos (show (s.tasks i).run.active = true from hactive),
      show (s.tasks i).run.remainingBudgetNs.toNat =
        (s.tasks i).remainingBudgetNs.toNat - 1 by omega]
    rfl
  rw [hjob]
  exact hs.feasible.run hs.full hon.next hrun hurgent

/-! ## One nanosecond -/

/-- What the nanosecond from `time` on, in which `ran` runs, does to a slot in use. -/
structure Stepped (time : UInt64) (ran : Option UInt32) (before after : TaskSlot) : Prop where
  active : after.active = true
  task : after.task = before.task
  next : after.nextReleaseNs.toNat = before.nextReleaseNs.toNat +
    if before.nextReleaseNs = time then before.task.deadlinePeriodNs.toNat else 0
  remaining : after.remainingBudgetNs.toNat + (if ran = some before.task.pid then 1 else 0) =
    (if before.nextReleaseNs = time then before.task.computationTimeNs
      else before.remainingBudgetNs).toNat

theorem stepped_release {ran : Option UInt32} (hactive : slot.active = true)
    (hfit : ¬ slot.Overflows time) (hran : ran ≠ some slot.task.pid) :
    Stepped time ran slot (slot.release time) where
  active := (active_release time slot).trans hactive
  task := task_release time slot
  next := nextReleaseNs_release hactive hfit
  remaining := by
    rw [if_neg hran, Nat.add_zero, remainingBudgetNs_release time hactive]

theorem stepped_run (hactive : slot.active = true) (hfit : ¬ slot.Overflows time)
    (hleft : (slot.release time).remainingBudgetNs ≠ 0) :
    Stepped time (some slot.task.pid) slot (slot.release time).run where
  __ := stepped_release hactive hfit (some_ne_none _).symm
  remaining := by
    rw [if_pos rfl, toNat_run hleft, remainingBudgetNs_release time hactive]

theorem ensures_nanosecond (hs : s.Sound time.toNat) (hon : s.OnTime time.toNat)
    (hrelease : ∀ arrival ∈ (admitAll arrivals s).1, time.toNat ≤ arrival.2.toNat) :
    Ensures (nanosecond time arrivals) s
      (fun ran t => t.Sound (time.toNat + 1) ∧ t.OnTime (time.toNat + 1) ∧
        ∀ i, ((admitAll arrivals s).2.tasks i).active = true →
          Stepped time ran ((admitAll arrivals s).2.tasks i) (t.tasks i))
      (fun e _ => e = .timeOverflow ∧ ∃ i, ((admitAll arrivals s).2.tasks i).Overflows time) := by
  have hadmitted := admitted_admitAll hs hon hrelease
  simp only [nanosecond, ensures_rules, nextTask]
  generalize (admitAll arrivals s).2 = u at hadmitted ⊢
  refine (ensures_releaseDueTasks hadmitted.sound hadmitted.onTime).imp_ok ?_
  rintro _ t ⟨ht, hslots, hfit⟩
  have hlater := hadmitted.onTime.release hadmitted.sound hslots hfit
  have hslot : ∀ i, t.tasks i = (u.tasks i).release time := congrFun hslots
  rcases hurgent : t.mostUrgent with _ | i
  · refine ⟨ht.idle hlater hurgent, hlater, fun j hj => ?_⟩
    rw [hslot j]
    exact stepped_release hj (hfit j) (by simp)
  · have hready : i ∈ t.ready := argmin_mem hurgent
    obtain ⟨hactive, hleft⟩ := mem_ready.mp hready
    simp only [map_some, ensures_rules]
    refine (ensures_accountRuntime ht hready (hlater i hactive)).mono ?_ fun _ _ h => h.elim
    rintro _ v rfl
    refine ⟨ht.run hlater hurgent, ?_, fun j hj => ?_⟩
    · exact (forall_update_iff _ (p := fun _ slot => active slot = true →
        time.toNat + 1 ≤ slot.nextReleaseNs.toNat)).mpr ⟨hlater i, fun j _ => hlater j⟩
    · change Stepped time _ _ (update t.tasks i (t.tasks i).run j)
      have hpid : ∀ j, (t.tasks j).task.pid = (u.tasks j).task.pid := fun j => by
        rw [hslot j, task_release]
      by_cases hji : j = i
      · subst hji
        rw [update_self, hpid, hslot j]
        exact stepped_run hj (hfit j) (by rwa [← hslot j])
      · have hactivej : (t.tasks j).active = true := by rwa [hslot j, active_release]
        have hne : some (t.tasks i).task.pid ≠ some (u.tasks j).task.pid := by
          rw [← hpid j]
          exact fun heq => hji (ht.pid j i hactivej hactive (some.inj heq).symm)
        rw [update_of_ne hji, hslot j]
        exact stepped_release hj (hfit j) hne

end EdfScheduler

/-! ## Executions -/

/-- `length` nanoseconds from `start` on, one after the other, with the tasks that are presented in
each. -/
structure Execution (start : Nat) (arrivals : Nat → List Arrival) (length : Nat) where
  state : Nat → EdfScheduler
  ran : Nat → Option UInt32
  new : state 0 = EdfScheduler.new
  step : ∀ k < length, nanosecond (UInt64.ofNat (start + k)) (arrivals k) (state k) =
    .ok (ran k) (state (k + 1))

namespace Execution

variable {start length : Nat} {arrivals : Nat → List Arrival}
  (run : Execution start arrivals length)

/-- The scheduler in nanosecond `k`, when the tasks of that nanosecond have been presented. -/
def admitted (k : Nat) : EdfScheduler := (admitAll (arrivals k) (run.state k)).2

/-- The tasks that are accepted in nanosecond `k`. -/
def accepted (k : Nat) : List Arrival := (admitAll (arrivals k) (run.state k)).1

/-- Every task is admitted no later than its first release. -/
def InTime : Prop := ∀ k ≤ length, ∀ arrival ∈ run.accepted k, start + k ≤ arrival.2.toNat

/-- The nanoseconds from `a` until `b` in which the task `pid` runs. -/
def served (pid : UInt32) (a b : Nat) : Nat :=
  ((Finset.Ico a b).filter fun t => run.ran (t - start) = some pid).card

variable {run}

variable {k a : Nat}

theorem served_succ (pid : UInt32) (h : a ≤ start + k) :
    run.served pid a (start + k + 1) =
      run.served pid a (start + k) + if run.ran k = some pid then 1 else 0 := by
  rw [served, served, ← Finset.insert_Ico_right_eq_Ico_add_one h, Finset.filter_insert,
    Nat.add_sub_cancel_left]
  split
  · exact Finset.card_insert_of_notMem (by simp)
  · rfl

section

variable (hfit : start + length < 2 ^ 64)
include hfit

theorem toNat_time (hk : k ≤ length) :
    (ofNat (start + k)).toNat = start + k :=
  toNat_ofNat_of_lt' (show start + k < 2 ^ 64 by omega)

/-- **The invariant of a run.** -/
theorem sound (hin : run.InTime) (hk : k ≤ length) :
    (run.state k).Sound (start + k) ∧ (run.state k).OnTime (start + k) := by
  induction k with
  | zero =>
    rw [run.new]
    exact ⟨EdfScheduler.sound_new _, fun i h => by cases h⟩
  | succ k ih =>
    obtain ⟨hs, hon⟩ := ih (by omega)
    have htime := toNat_time hfit (show k ≤ length by omega)
    have hrelease := hin k (by omega)
    rw [← htime] at hs hon hrelease
    have hstep := (EdfScheduler.ensures_nanosecond hs hon hrelease).of_ok (run.step k (by omega))
    rw [← Nat.add_assoc, ← htime]
    exact ⟨hstep.1, hstep.2.1⟩

theorem stepped (hin : run.InTime) (hk : k < length)
    {i : Fin maximumRealTimeTasks} (hactive : ((run.admitted k).tasks i).active = true) :
    EdfScheduler.Stepped (ofNat (start + k)) (run.ran k) ((run.admitted k).tasks i)
      ((run.state (k + 1)).tasks i) := by
  have htime := toNat_time hfit hk.le
  obtain ⟨hs, hon⟩ := sound hfit hin hk.le
  have hrelease := hin k hk.le
  rw [← htime] at hs hon hrelease
  exact ((EdfScheduler.ensures_nanosecond hs hon hrelease).of_ok (run.step k hk)).2.2 i hactive

end

/-! ## Every job gets its computation time -/

/-- What a slot says at `now` about the jobs of a task that was accepted: `j` of them have been
released; all but the last have had their computation time, and the last one has had what is not
left of it. -/
structure Tracked (run : Execution start arrivals length) (arrival : Arrival) (now : Nat)
    (slot : TaskSlot) (j : Nat) : Prop where
  active : slot.active = true
  task : slot.task = arrival.1
  next : slot.nextReleaseNs.toNat = arrival.2.toNat + j * arrival.1.deadlinePeriodNs.toNat
  finished : ∀ m, m + 1 < j →
    run.served arrival.1.pid (arrival.2.toNat + m * arrival.1.deadlinePeriodNs.toNat)
      (arrival.2.toNat + (m + 1) * arrival.1.deadlinePeriodNs.toNat) =
        arrival.1.computationTimeNs.toNat
  current : ∀ m, j = m + 1 →
    arrival.2.toNat + m * arrival.1.deadlinePeriodNs.toNat ≤ now ∧
    slot.remainingBudgetNs.toNat +
      run.served arrival.1.pid (arrival.2.toNat + m * arrival.1.deadlinePeriodNs.toNat) now =
        arrival.1.computationTimeNs.toNat

variable {arrival : Arrival}

/-- At a release, the job before has had its computation time as well. -/
theorem Tracked.finished_of_due {now j m : Nat} {slot : TaskSlot}
    (h : run.Tracked arrival now slot j) (hdue : slot.nextReleaseNs.toNat = now)
    (hzero : slot.remainingBudgetNs = 0) (hm : m < j) :
    run.served arrival.1.pid (arrival.2.toNat + m * arrival.1.deadlinePeriodNs.toNat)
      (arrival.2.toNat + (m + 1) * arrival.1.deadlinePeriodNs.toNat) =
        arrival.1.computationTimeNs.toNat := by
  rcases Nat.lt_or_ge (m + 1) j with hlt | hge
  · exact h.finished m hlt
  · have hj : j = m + 1 := by omega
    have hlast := (h.current m hj).2
    rw [hzero, UInt64.toNat_zero, Nat.zero_add] at hlast
    rw [← hj, ← h.next, hdue]
    exact hlast

/-- **One nanosecond.** -/
theorem Tracked.step {j : Nat} {before after : TaskSlot}
    (h : run.Tracked arrival (start + k) before j)
    (hstep : EdfScheduler.Stepped (ofNat (start + k)) (run.ran k) before after)
    (htime : (ofNat (start + k)).toNat = start + k)
    (hzero : before.nextReleaseNs.toNat = start + k → before.remainingBudgetNs = 0) :
    ∃ j', run.Tracked arrival (start + k + 1) after j' := by
  have hnext := hstep.next
  have hremaining := hstep.remaining
  rw [h.task] at hnext hremaining
  by_cases hdue : before.nextReleaseNs = ofNat (start + k)
  · have hnow : before.nextReleaseNs.toNat = start + k := by rw [hdue, htime]
    rw [if_pos hdue] at hnext hremaining
    refine ⟨j + 1, hstep.active, hstep.task.trans h.task, ?_, ?_, ?_⟩
    · rw [hnext, h.next, Nat.add_mul, Nat.one_mul, Nat.add_assoc]
    · intro m hm
      exact h.finished_of_due hnow (hzero hnow) (by omega)
    · intro m hm
      obtain rfl : j = m := by omega
      rw [← h.next, hnow]
      rw [served_succ _ le_rfl]
      simpa [served] using hremaining
  · rw [if_neg hdue] at hnext hremaining
    refine ⟨j, hstep.active, hstep.task.trans h.task, ?_, h.finished, fun m hm => ?_⟩
    · rw [hnext, h.next, Nat.add_zero]
    · obtain ⟨hle, hsum⟩ := h.current m hm
      rw [served_succ _ hle]
      omega

/-- **A whole run.**  A task that has been accepted is tracked from then on. -/
theorem tracked (hfit : start + length < 2 ^ 64) (hin : run.InTime) (hak : a < k) (hk : k ≤ length)
    (harrival : arrival ∈ run.accepted a) :
    ∃ i j, run.Tracked arrival (start + k) ((run.state k).tasks i) j := by
  induction k with
  | zero => exact absurd hak (Nat.not_lt_zero a)
  | succ k ih =>
    obtain ⟨hs, hon⟩ := sound hfit hin (show k ≤ length by omega)
    have hadmitted : EdfScheduler.Admitted _ (run.admitted k) (run.accepted k) _ :=
      EdfScheduler.admitted_admitAll hs hon (hin k (by omega))
    have hslot : ∃ i j, run.Tracked arrival (start + k) ((run.admitted k).tasks i) j := by
      rcases Nat.lt_or_ge a k with hlt | hge
      · obtain ⟨i, j, h⟩ := ih hlt (by omega)
        exact ⟨i, j, by rwa [hadmitted.kept i h.active]⟩
      · obtain rfl : a = k := by omega
        obtain ⟨i, hi⟩ := hadmitted.accepted arrival harrival
        refine ⟨i, 0, ?_⟩
        rw [hi]
        exact ⟨rfl, rfl, by simp, fun m hm => by omega, fun m hm => by omega⟩
    obtain ⟨i, j, h⟩ := hslot
    obtain ⟨j', h'⟩ := h.step (stepped hfit hin (by omega) h.active)
      (toNat_time hfit (by omega)) fun hdue => hadmitted.sound.finished h.active hdue.le
    exact ⟨i, j', h'⟩

/-- Whether a nanosecond ended well. -/
def isOk : EStateM.Result SchedulerError EdfScheduler (Option UInt32) → Bool
  | .ok _ _ => true
  | .error _ _ => false

def ranIn : EStateM.Result SchedulerError EdfScheduler (Option UInt32) → Option UInt32
  | .ok ran _ => ran
  | .error _ _ => none

def stateAfter : EStateM.Result SchedulerError EdfScheduler (Option UInt32) → EdfScheduler
  | .ok _ t => t
  | .error _ t => t

theorem eq_ok_of_isOk {r : EStateM.Result SchedulerError EdfScheduler (Option UInt32)}
    (h : isOk r = true) : r = .ok (ranIn r) (stateAfter r) := by
  cases r with
  | ok ran t => rfl
  | error e t => cases h

/-- The scheduler at the start of every nanosecond, driven from the new one. -/
def drive (start : Nat) (arrivals : Nat → List Arrival) : Nat → EdfScheduler
  | 0 => .new
  | k + 1 =>
    stateAfter (nanosecond (UInt64.ofNat (start + k)) (arrivals k) (drive start arrivals k))

/-- The execution that driving the scheduler gives when every nanosecond ends well. -/
def ofDrive (start : Nat) (arrivals : Nat → List Arrival) (length : Nat)
    (h : ∀ k < length, isOk (nanosecond (UInt64.ofNat (start + k)) (arrivals k)
      (drive start arrivals k)) = true) : Execution start arrivals length where
  state := drive start arrivals
  ran k := ranIn (nanosecond (UInt64.ofNat (start + k)) (arrivals k) (drive start arrivals k))
  new := rfl
  step k hk := eq_ok_of_isOk (h k hk)

/-- **Admission guarantees deadlines.**  When tasks are admitted no later than their first release
and every nanosecond is spent on the task that `nextTask` names, the next nanosecond ends well
unless a deadline does not fit into 64 bits; and every job of an accepted task has run for exactly
its computation time between its release and its deadline. -/
theorem accepted_tasks_meet_deadlines (hfit : start + length < 2 ^ 64) (hin : run.InTime) :
    Ensures (nanosecond (UInt64.ofNat (start + length)) (arrivals length)) (run.state length)
        (fun _ _ => True)
        (fun e _ => e = .timeOverflow ∧ ∃ i,
          ((run.admitted length).tasks i).Overflows (UInt64.ofNat (start + length))) ∧
      ∀ a < length, ∀ arrival ∈ run.accepted a, ∀ m,
        arrival.2.toNat + (m + 1) * arrival.1.deadlinePeriodNs.toNat ≤ start + length →
        run.served arrival.1.pid (arrival.2.toNat + m * arrival.1.deadlinePeriodNs.toNat)
          (arrival.2.toNat + (m + 1) * arrival.1.deadlinePeriodNs.toNat) =
            arrival.1.computationTimeNs.toNat := by
  constructor
  · have htime := toNat_time hfit le_rfl
    obtain ⟨hs, hon⟩ := sound hfit hin le_rfl
    have hrelease := hin length le_rfl
    rw [← htime] at hs hon hrelease
    exact (EdfScheduler.ensures_nanosecond hs hon hrelease).imp_ok (fun _ _ _ => trivial)
  · intro a ha arrival harrival m hm
    obtain ⟨i, j, h⟩ := tracked hfit hin ha le_rfl harrival
    obtain ⟨hs, hon⟩ := sound hfit hin (le_refl length)
    have hle := hon i h.active
    have hperiod : arrival.1.deadlinePeriodNs.toNat ≠ 0 := by
      rw [← h.task]
      exact fun hz => (hs.slot i).period h.active (UInt64.toNat_inj.mp hz)
    have hmj : m + 1 ≤ j := by
      rw [h.next] at hle
      by_contra hlt
      have := Nat.mul_lt_mul_of_pos_right (show j < m + 1 by omega) (Nat.pos_of_ne_zero hperiod)
      omega
    rcases Nat.lt_or_ge (m + 1) j with hlt | hge
    · exact h.finished m hlt
    · obtain rfl : j = m + 1 := by omega
      have hdue : ((run.state length).tasks i).nextReleaseNs.toNat = start + length := by
        rw [h.next] at hle ⊢
        omega
      exact h.finished_of_due hdue (hs.finished h.active hdue.le) (Nat.lt_succ_self m)

/-- A task of two nanoseconds in four and one of one in two, which together take all the time. -/
def sampleArrivals (k : Nat) : List Arrival :=
  if k = 0 then [(⟨1, 2, 4⟩, 0), (⟨2, 1, 2⟩, 0)] else []

def sampleExecution : Execution 0 sampleArrivals 4 :=
  ofDrive 0 sampleArrivals 4 (by decide +kernel)

/-- The first job of the one task and the second job of the other end at the same time. -/
theorem sampleExecution_meets_deadlines :
    (0 + 4 < 2 ^ 64) ∧ sampleExecution.InTime ∧ sampleExecution.served 1 0 4 = 2 ∧
      sampleExecution.served 2 2 4 = 1 := by
  have hin : sampleExecution.InTime := by
    rw [InTime]
    decide +kernel
  have hmem : sampleExecution.accepted 0 = [(⟨1, 2, 4⟩, 0), (⟨2, 1, 2⟩, 0)] := by decide +kernel
  have hmeets := (accepted_tasks_meet_deadlines (by norm_num) hin).2 0 (by norm_num)
  rw [hmem, List.forall_mem_cons, List.forall_mem_singleton] at hmeets
  exact ⟨by norm_num, hin, hmeets.1 0 (by decide), hmeets.2 1 (by decide)⟩

end Execution

end Sisyphus.Rtos
