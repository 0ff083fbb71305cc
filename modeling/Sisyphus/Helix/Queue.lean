import Sisyphus.Foundation.Run

/-!
# Work queues of the build agents

A model of `WorkQueue` and of the local deques of `WorkerSlot` in `helix.rs`.  The queue is a ring
of 256 jobs with a head, a tail and a count, and the jobs that can still be taken out are those in
the `count` slots from the head on (`WorkQueue.live`).  A push writes at the tail, so it adds to
them only while the tail is where they end.

That is so as long as jobs leave at the head.  `pop_priority` fills the gap it leaves with the last
job and gives up the last slot, but the tail stays: the next push writes behind the live slots and
makes a job live that was already taken out (`pushed_job_lost`).  And when no priority is above the
least one, `pop_priority` takes slot zero, live or not.  `Agents.Sound` is the condition under which
neither happens, and `conservation` is what holds along every run that meets it.
-/

set_option autoImplicit false

namespace Sisyphus.Helix

open Function List Run

/-! ## Jobs -/

inductive OptimizationFocus
  | maximumThroughput
  | thermalEfficiency
  | memoryCompression
  deriving DecidableEq

structure BuildJob where
  pkgVar : UInt16
  nameHash : UInt64
  versionIdx : UInt16
  focus : OptimizationFocus
  irOffset : UInt32
  irLen : UInt32
  depCount : UInt8
  priority : Int32
  deriving DecidableEq

def BuildJob.empty : BuildJob where
  pkgVar := 0
  nameHash := 0
  versionIdx := 0
  focus := .maximumThroughput
  irOffset := 0
  irLen := 0
  depCount := 0
  priority := 0

def queueCapacity : Nat := 256
def localDeque : Nat := 16

/-! ## The ring -/

/-- The slots are numbered from zero; only those below `queueCapacity` exist. -/
structure WorkQueue where
  jobs : Nat → BuildJob
  head : Nat
  tail : Nat
  count : Nat

namespace WorkQueue

def new : WorkQueue := ⟨fun _ => .empty, 0, 0, 0⟩

def push (q : WorkQueue) (job : BuildJob) : Bool × WorkQueue :=
  if queueCapacity ≤ q.count then (false, q)
  else (true,
    { jobs := update q.jobs (q.tail % queueCapacity) job
      head := q.head
      tail := q.tail + 1
      count := q.count + 1 })

def pop (q : WorkQueue) : Option BuildJob × WorkQueue :=
  if q.count = 0 then (none, q)
  else (some (q.jobs (q.head % queueCapacity)),
    { q with head := q.head + 1, count := q.count - 1 })

/-- The slot of the `i`-th job from the head. -/
def slot (q : WorkQueue) (i : Nat) : Nat := (q.head + i) % queueCapacity

/-- The scan of `pop_priority`: the best priority seen and the slot it was seen in. -/
def scan (q : WorkQueue) (n : Nat) : Int32 × Nat :=
  (List.range n).foldl (fun best i =>
    if best.1 < (q.jobs (q.slot i)).priority then ((q.jobs (q.slot i)).priority, q.slot i)
    else best) (Int32.minValue, 0)

/-- Pop highest-priority job, and fill the gap by moving the tail item. -/
def popPriority (q : WorkQueue) : Option BuildJob × WorkQueue :=
  if q.count = 0 then (none, q)
  else
    let bestSlot := (q.scan q.count).2
    let tailSlot := (q.head + q.count - 1) % queueCapacity
    (some (q.jobs bestSlot),
      { q with
        jobs := update q.jobs bestSlot (q.jobs tailSlot)
        count := q.count - 1 })

/-- The jobs in the live slots, from the head on. -/
def live (q : WorkQueue) : List BuildJob := (List.range q.count).map fun i => q.jobs (q.slot i)

/-- The jobs that `pop` returns until the queue is empty. -/
def drain (q : WorkQueue) : Nat → List BuildJob
  | 0 => []
  | n + 1 => q.pop.1.toList ++ q.pop.2.drain n

end WorkQueue

/-! ## Local deques -/

structure WorkerSlot where
  id : UInt8
  active : Bool
  deque : Nat → Option BuildJob
  dequeLen : Nat
  jobsDone : UInt32
  jobsStolen : UInt32
  lastTemp : UInt8

namespace WorkerSlot

def new (id : UInt8) : WorkerSlot := ⟨id, false, fun _ => none, 0, 0, 0, 0⟩

def pushLocal (w : WorkerSlot) (job : BuildJob) : Bool × WorkerSlot :=
  if localDeque ≤ w.dequeLen then (false, w)
  else (true,
    { w with
      deque := update w.deque w.dequeLen (some job)
      dequeLen := w.dequeLen + 1 })

def popLocal (w : WorkerSlot) : Option BuildJob × WorkerSlot :=
  if w.dequeLen = 0 then (none, w)
  else (w.deque (w.dequeLen - 1),
    { w with
      deque := update w.deque (w.dequeLen - 1) none
      dequeLen := w.dequeLen - 1 })

/-- One turn of the loop that closes the gap at the front. -/
def shift (deque : Nat → Option BuildJob) (i : Nat) : Nat → Option BuildJob :=
  update (update deque i (deque (i + 1))) (i + 1) none

/-- What a theft leaves of the victim, and the job taken from its front. -/
def stolenFrom (victim : WorkerSlot) : Option (BuildJob × WorkerSlot) :=
  if victim.dequeLen = 0 then none
  else (victim.deque 0).map fun stolen =>
    (stolen,
      { victim with
        deque := (List.range (victim.dequeLen - 1)).foldl shift (update victim.deque 0 none)
        dequeLen := victim.dequeLen - 1 })

/-- `thief.steal_from(victim)`: the job, the thief and the victim. -/
def stealFrom (thief victim : WorkerSlot) : Option BuildJob × WorkerSlot × WorkerSlot :=
  match stolenFrom victim with
  | none => (none, thief, victim)
  | some (stolen, victim) =>
    (some stolen, { thief with jobsStolen := thief.jobsStolen + 1 }, victim)

/-- The jobs in a deque, from the front. -/
def held (w : WorkerSlot) : List BuildJob := (List.range w.dequeLen).filterMap w.deque

end WorkerSlot

/-! ## What each operation does to the live jobs -/

namespace WorkQueue

variable {q : WorkQueue} {job : BuildJob} {i j : Nat}

theorem slot_inj (hi : i < queueCapacity) (hj : j < queueCapacity) (h : q.slot i = q.slot j) :
    i = j := by
  simp only [slot, queueCapacity] at *
  omega

/-- A push behind the live slots adds its job to them. -/
theorem live_push (job : BuildJob) (hroom : q.count < queueCapacity)
    (htail : q.tail % queueCapacity = q.slot q.count) :
    (q.push job).1 = true ∧ (q.push job).2.live = q.live ++ [job] := by
  rw [push, if_neg (by omega)]
  refine ⟨rfl, ?_⟩
  rw [live, range_succ, map_append, map_singleton]
  congr 1
  · refine map_congr_left fun i hi => ?_
    have hlt := mem_range.mp hi
    refine update_of_ne (fun heq => ?_) _ _
    have := slot_inj (by omega) (by omega) (heq.trans htail)
    omega
  · rw [htail]
    exact congrArg (fun x => [x]) (update_self ..)

theorem push_of_full (hfull : queueCapacity ≤ q.count) : q.push job = (false, q) := by
  rw [push, if_pos hfull]

/-- A pop returns the job at the head. -/
theorem live_pop (hcount : q.count ≠ 0) :
    ∃ job, q.pop.1 = some job ∧ q.live = job :: q.pop.2.live := by
  obtain ⟨n, hn⟩ := Nat.exists_eq_succ_of_ne_zero hcount
  refine ⟨q.jobs (q.head % queueCapacity), by rw [pop, if_neg hcount], ?_⟩
  rw [pop, if_neg hcount, live, live, hn, range_succ_eq_map, map_cons, map_map]
  simp only [slot, Nat.add_zero, Nat.succ_sub_one, cons.injEq, true_and]
  refine map_congr_left fun i _ => ?_
  simp only [Function.comp_apply, Nat.succ_eq_add_one]
  congr 2
  omega

/-- The live jobs are the ones that come out, in this order. -/
theorem drain_eq_live (q : WorkQueue) : q.drain q.count = q.live := by
  generalize hn : q.count = n
  induction n generalizing q with
  | zero => simp [drain, live, hn]
  | succ n ih =>
    obtain ⟨job, hjob, hlive⟩ := q.live_pop (by omega)
    have hcount : q.pop.2.count = n := by
      rw [pop, if_neg (by omega)]
      simp [hn]
    rw [drain, ih _ hcount, hlive, hjob]
    rfl

/-- The scan ends on a live slot that holds a job of the highest priority, unless no priority is
above the least one: then it ends where it began, on slot zero. -/
theorem scan_cases (q : WorkQueue) (n : Nat) :
    (∃ i < n, q.scan n = ((q.jobs (q.slot i)).priority, q.slot i) ∧
      ∀ j < n, ¬(q.jobs (q.slot i)).priority < (q.jobs (q.slot j)).priority) ∨
    (q.scan n = (Int32.minValue, 0) ∧ ∀ j < n, ¬Int32.minValue < (q.jobs (q.slot j)).priority) := by
  induction n with
  | zero => exact .inr ⟨rfl, by simp⟩
  | succ n ih =>
    have hstep : q.scan (n + 1) = if (q.scan n).1 < (q.jobs (q.slot n)).priority then
        ((q.jobs (q.slot n)).priority, q.slot n) else q.scan n := by
      rw [scan, range_succ, foldl_append]
      rfl
    have hlast : ∀ (p : Int32), (∀ j < n, ¬p < (q.jobs (q.slot j)).priority) →
        ¬p < (q.jobs (q.slot n)).priority → ∀ j < n + 1, ¬p < (q.jobs (q.slot j)).priority := by
      intro p hp hn j hj
      obtain hj | rfl := Nat.lt_succ_iff_lt_or_eq.mp hj
      · exact hp j hj
      · exact hn
    rw [hstep]
    by_cases hbetter : (q.scan n).1 < (q.jobs (q.slot n)).priority
    · rw [if_pos hbetter]
      refine .inl ⟨n, Nat.lt_succ_self n, rfl, hlast _ (fun j hj hlt => ?_) Int32.lt_irrefl⟩
      obtain ⟨i, -, hscan, hmax⟩ | ⟨hscan, hmax⟩ := ih
      · rw [hscan] at hbetter
        exact hmax j hj (Int32.lt_trans hbetter hlt)
      · rw [hscan] at hbetter
        exact hmax j hj (Int32.lt_trans hbetter hlt)
    · rw [if_neg hbetter]
      obtain ⟨i, hi, hscan, hmax⟩ | ⟨hscan, hmax⟩ := ih
      · rw [hscan] at hbetter
        exact .inl ⟨i, by omega, hscan, hlast _ hmax hbetter⟩
      · rw [hscan] at hbetter
        exact .inr ⟨hscan, hlast _ hmax hbetter⟩

open scoped List in
/-- Moving a further element into a gap keeps all the others. -/
theorem perm_cons_set {l : List BuildJob} (hi : i < l.length) (last : BuildJob) :
    (l.get ⟨i, hi⟩ :: l.set i last).Perm (l ++ [last]) := by
  have hsplit : l = l.take i ++ l.get ⟨i, hi⟩ :: l.drop (i + 1) := by
    rw [get_eq_getElem, getElem_cons_drop, take_append_drop]
  generalize hx : l.get ⟨i, hi⟩ = x at hsplit
  have hset : l.set i last = l.take i ++ last :: l.drop (i + 1) := by
    rw [set_eq_take_append_cons_drop, if_pos hi]
  calc x :: l.set i last = x :: (l.take i ++ last :: l.drop (i + 1)) := by rw [hset]
    _ ~ x :: last :: (l.take i ++ l.drop (i + 1)) := perm_middle.cons x
    _ ~ last :: x :: (l.take i ++ l.drop (i + 1)) := .swap ..
    _ ~ last :: (l.take i ++ x :: l.drop (i + 1)) := perm_middle.symm.cons last
    _ ~ (l.take i ++ x :: l.drop (i + 1)) ++ [last] := (perm_append_singleton ..).symm
    _ = l ++ [last] := by rw [← hsplit]

/-- Taking the job out of a live slot keeps all the other live jobs. -/
theorem live_take (hcount : q.count ≤ queueCapacity) (hi : i < q.count) :
    (q.jobs (q.slot i) :: WorkQueue.live
      { q with
        jobs := update q.jobs (q.slot i) (q.jobs (q.slot (q.count - 1)))
        count := q.count - 1 }).Perm q.live := by
  obtain ⟨n, hn⟩ := Nat.exists_eq_succ_of_ne_zero (Nat.ne_of_gt (Nat.zero_lt_of_lt hi))
  rw [Nat.succ_eq_add_one] at hn
  set front := (range n).map fun k => q.jobs (q.slot k) with hfront
  have hlive : q.live = front ++ [q.jobs (q.slot n)] := by
    rw [live, hn, range_succ, map_append, map_singleton]
  have hlength : front.length = n := by simp [hfront]
  simp only [live, hn, Nat.add_sub_cancel] at hlive ⊢
  rw [hlive]
  obtain hlt | rfl : i < n ∨ i = n := by omega
  · have hset : ((range n).map fun k =>
        update q.jobs (q.slot i) (q.jobs (q.slot n)) (q.slot k)) =
        front.set i (q.jobs (q.slot n)) := by
      refine ext_getElem (by simp [hlength]) fun k hk _ => ?_
      have hkn : k < n := by simpa using hk
      rw [getElem_map, getElem_range, getElem_set]
      by_cases hki : i = k
      · subst hki
        rw [update_self, if_pos rfl]
      · rw [if_neg hki, update_of_ne]
        · simp [hfront]
        · exact fun heq => hki (slot_inj (by omega) (by omega) heq.symm)
    have hget : front.get ⟨i, by omega⟩ = q.jobs (q.slot i) := by simp [hfront]
    rw [← hget]
    exact hset ▸ perm_cons_set (by omega) _
  · have hsame : ((range i).map fun k =>
        update q.jobs (q.slot i) (q.jobs (q.slot i)) (q.slot k)) = front := by
      rw [update_eq_self, hfront]
    rw [← hsame]
    exact (perm_append_singleton ..).symm

/-- `pop_priority` takes one live job out, provided that its scan ends on a live slot. -/
theorem live_popPriority (hcount : q.count ≤ queueCapacity) (hne : q.count ≠ 0)
    (hlive : (∃ i < q.count, Int32.minValue < (q.jobs (q.slot i)).priority) ∨
      ∃ i < q.count, q.slot i = 0) :
    ∃ job, q.popPriority.1 = some job ∧ (job :: q.popPriority.2.live).Perm q.live := by
  obtain ⟨i, hi, hslot⟩ : ∃ i < q.count, (q.scan q.count).2 = q.slot i := by
    obtain ⟨i, hi, hscan, -⟩ | ⟨hscan, hleast⟩ := q.scan_cases q.count
    · exact ⟨i, hi, by rw [hscan]⟩
    · obtain ⟨i, hi, habove⟩ | ⟨i, hi, hzero⟩ := hlive
      · exact absurd habove (hleast i hi)
      · exact ⟨i, hi, by rw [hscan, hzero]⟩
  have htail : (q.head + q.count - 1) % queueCapacity = q.slot (q.count - 1) := by
    rw [slot, Nat.add_sub_assoc (by omega)]
  refine ⟨q.jobs (q.slot i), by rw [popPriority, if_neg hne, hslot], ?_⟩
  rw [popPriority, if_neg hne, hslot, htail]
  exact live_take hcount hi

end WorkQueue

namespace WorkerSlot

variable {w : WorkerSlot} {job : BuildJob}

theorem held_pushLocal (job : BuildJob) (hroom : w.dequeLen < localDeque) :
    (w.pushLocal job).1 = true ∧ (w.pushLocal job).2.held = w.held ++ [job] := by
  rw [pushLocal, if_neg (by omega)]
  refine ⟨rfl, ?_⟩
  rw [held, range_succ, filterMap_append]
  congr 1
  · refine filterMap_congr fun i hi => ?_
    have := mem_range.mp hi
    exact update_of_ne (by omega) _ _
  · simp

theorem held_popLocal (w : WorkerSlot) : w.held = w.popLocal.2.held ++ w.popLocal.1.toList := by
  rw [popLocal]
  by_cases hempty : w.dequeLen = 0
  · simp [hempty]
  · obtain ⟨n, hn⟩ := Nat.exists_eq_succ_of_ne_zero hempty
    rw [if_neg hempty, held, held, hn, range_succ, filterMap_append]
    congr 1
    refine filterMap_congr fun i hi => ?_
    have := mem_range.mp hi
    exact (update_of_ne (by omega) _ _).symm

/-- The loop moves every job one place towards the front. -/
theorem foldl_shift {deque : Nat → Option BuildJob} (hfront : deque 0 = none) (n k : Nat) :
    (range n).foldl shift deque k =
      if k < n then deque (k + 1) else if k = n then none else deque k := by
  induction n generalizing k with
  | zero =>
    by_cases hk : k = 0
    · simp [hk, hfront]
    · simp [hk]
  | succ n ih =>
    rw [range_succ, foldl_append, foldl_cons, foldl_nil, shift]
    by_cases hlast : k = n + 1
    · rw [hlast, update_self, if_neg (by omega), if_pos rfl]
    · rw [update_of_ne hlast]
      by_cases hn : k = n
      · rw [hn, update_self, ih, if_neg (by omega), if_neg (by omega), if_pos (by omega)]
      · rw [update_of_ne hn, ih]
        split_ifs <;> first | rfl | omega

/-- A theft takes the front job and leaves the others. -/
theorem held_stolenFrom {victim : WorkerSlot} {stolen : BuildJob} {rest : WorkerSlot}
    (h : victim.stolenFrom = some (stolen, rest)) : victim.held = stolen :: rest.held := by
  rw [stolenFrom] at h
  split at h
  · cases h
  · next hne =>
    obtain ⟨n, hn⟩ := Nat.exists_eq_succ_of_ne_zero hne
    obtain ⟨job, hjob, hpair⟩ := Option.map_eq_some_iff.mp h
    obtain ⟨rfl, rfl⟩ := Prod.mk.inj hpair
    rw [held, held, hn, range_succ_eq_map, filterMap_cons, hjob]
    simp only [Nat.succ_sub_one, filterMap_map, cons.injEq, true_and]
    refine filterMap_congr fun i hi => ?_
    rw [foldl_shift (update_self ..), if_pos (mem_range.mp hi)]
    exact (update_of_ne (Nat.succ_ne_zero i) _ _).symm

end WorkerSlot

/-! ## Runs -/

/-- The queue and the local deques of `n` agents. -/
structure Agents (n : Nat) where
  queue : WorkQueue
  workers : Fin n → WorkerSlot

inductive Operation (n : Nat)
  | push (job : BuildJob)
  | pop
  | popPriority
  | pushLocal (worker : Fin n) (job : BuildJob)
  | popLocal (worker : Fin n)
  | stealFrom (thief victim : Fin n)

inductive Answer
  | pushed (accepted : Bool)
  | returned (job : Option BuildJob)

namespace Agents

variable {n : Nat} {s : Agents n}

def fresh (n : Nat) : Agents n := ⟨.new, fun w => .new (UInt8.ofNat w.val)⟩

def setWorker (s : Agents n) (w : Fin n) (worker : WorkerSlot) : Agents n :=
  { s with workers := update s.workers w worker }

/-- An agent cannot steal from itself: the two workers are borrowed apart. -/
def step (s : Agents n) : Operation n → Answer × Agents n
  | .push job => (.pushed (s.queue.push job).1, { s with queue := (s.queue.push job).2 })
  | .pop => (.returned s.queue.pop.1, { s with queue := s.queue.pop.2 })
  | .popPriority => (.returned s.queue.popPriority.1, { s with queue := s.queue.popPriority.2 })
  | .pushLocal w job =>
    (.pushed ((s.workers w).pushLocal job).1, s.setWorker w ((s.workers w).pushLocal job).2)
  | .popLocal w => (.returned (s.workers w).popLocal.1, s.setWorker w (s.workers w).popLocal.2)
  | .stealFrom thief victim =>
    if thief = victim then (.returned none, s)
    else
      let result := (s.workers thief).stealFrom (s.workers victim)
      (.returned result.1, (s.setWorker thief result.2.1).setWorker victim result.2.2)

/-- The jobs that can still be taken out. -/
def retrievable (s : Agents n) : Multiset BuildJob :=
  (s.queue.drain s.queue.count : Multiset BuildJob) + ∑ w, ((s.workers w).held : Multiset BuildJob)

/-- The job that an operation put in. -/
def pushedBy : Operation n × Answer → Option BuildJob
  | (.push job, .pushed true) => some job
  | (.pushLocal _ job, .pushed true) => some job
  | _ => none

/-- The job that an operation gave out. -/
def returnedBy : Operation n × Answer → Option BuildJob
  | (_, .returned job) => job
  | _ => none

/-- A push finds the tail where the live slots end, or no room; a priority pop finds a job with a
priority above the least one, or slot zero live. -/
def Sound (s : Agents n) : Operation n → Prop
  | .push _ => queueCapacity ≤ s.queue.count ∨
    s.queue.tail % queueCapacity = (s.queue.head + s.queue.count) % queueCapacity
  | .popPriority => s.queue.count = 0 ∨
    (∃ i < s.queue.count, Int32.minValue < (s.queue.jobs (s.queue.slot i)).priority) ∨
    ∃ i < s.queue.count, s.queue.slot i = 0
  | _ => True

instance (s : Agents n) : (op : Operation n) → Decidable (s.Sound op)
  | .push _ => inferInstanceAs (Decidable (_ ∨ _))
  | .popPriority => inferInstanceAs (Decidable (_ ∨ _))
  | .pop => .isTrue trivial
  | .pushLocal _ _ => .isTrue trivial
  | .popLocal _ => .isTrue trivial
  | .stealFrom _ _ => .isTrue trivial

/-! ## Conservation -/

/-- Replacing a worker keeps the accounts if the worker's deque does. -/
theorem retrievable_setWorker {w : Fin n} {worker : WorkerSlot} {given taken : Multiset BuildJob}
    (hheld : taken + (worker.held : Multiset BuildJob) = (s.workers w).held + given) :
    taken + (s.setWorker w worker).retrievable = s.retrievable + given := by
  have hothers : ∑ v ∈ Finset.univ.erase w,
      ((update s.workers w worker v).held : Multiset BuildJob) =
      ∑ v ∈ Finset.univ.erase w, ((s.workers v).held : Multiset BuildJob) :=
    Finset.sum_congr rfl fun v hv => by rw [update_of_ne (Finset.ne_of_mem_erase hv)]
  have hnew := Finset.add_sum_erase Finset.univ
    (fun v => ((update s.workers w worker v).held : Multiset BuildJob)) (Finset.mem_univ w)
  have hold := Finset.add_sum_erase Finset.univ
    (fun v => ((s.workers v).held : Multiset BuildJob)) (Finset.mem_univ w)
  simp only [update_self] at hnew
  simp only [retrievable, setWorker, ← hnew, ← hold, hothers]
  rw [add_left_comm, ← add_assoc taken, hheld]
  abel

/-- One operation, accounted for: what it gives out and what is left is what was there and what it
put in. -/
def Balanced (s : Agents n) (op : Operation n) : Prop :=
  ((returnedBy (op, (s.step op).1)).toList : Multiset BuildJob) + (s.step op).2.retrievable =
    s.retrievable + ((pushedBy (op, (s.step op).1)).toList : Multiset BuildJob)

theorem retrievable_eq (s : Agents n) :
    s.retrievable =
      (s.queue.live : Multiset BuildJob) + ∑ w, ((s.workers w).held : Multiset BuildJob) := by
  rw [retrievable, WorkQueue.drain_eq_live]

theorem balanced_push {job : BuildJob} (hsound : s.Sound (.push job)) : s.Balanced (.push job) := by
  by_cases hfull : queueCapacity ≤ s.queue.count
  · simp [Balanced, step, WorkQueue.push_of_full hfull, pushedBy, returnedBy]
  · have htail := hsound.resolve_left hfull
    obtain ⟨haccepted, hlive⟩ := WorkQueue.live_push job (Nat.lt_of_not_le hfull) htail
    rw [Balanced, retrievable_eq, retrievable_eq]
    simp only [step, haccepted, hlive, pushedBy, returnedBy, Option.toList_none, Option.toList_some,
      Multiset.coe_nil, zero_add, ← Multiset.coe_add]
    abel

theorem balanced_pop (s : Agents n) : s.Balanced .pop := by
  rw [Balanced, retrievable_eq, retrievable_eq]
  by_cases hempty : s.queue.count = 0
  · simp [step, WorkQueue.pop, hempty, pushedBy, returnedBy]
  · obtain ⟨job, hjob, hlive⟩ := s.queue.live_pop hempty
    simp [step, hjob, hlive, pushedBy, returnedBy, ← Multiset.cons_coe]

theorem balanced_popPriority (hroom : s.queue.count ≤ queueCapacity)
    (hsound : s.Sound .popPriority) : s.Balanced .popPriority := by
  rw [Balanced, retrievable_eq, retrievable_eq]
  by_cases hempty : s.queue.count = 0
  · simp [step, WorkQueue.popPriority, hempty, pushedBy, returnedBy]
  · obtain ⟨job, hjob, hperm⟩ :=
      WorkQueue.live_popPriority hroom hempty (hsound.resolve_left hempty)
    simp [step, hjob, ← Multiset.coe_eq_coe.mpr hperm, pushedBy, returnedBy, ← Multiset.cons_coe]

theorem balanced_pushLocal (s : Agents n) (w : Fin n) (job : BuildJob) :
    s.Balanced (.pushLocal w job) := by
  by_cases hfull : localDeque ≤ (s.workers w).dequeLen
  · rw [Balanced, step, WorkerSlot.pushLocal, if_pos hfull]
    exact retrievable_setWorker (by simp [pushedBy, returnedBy])
  · obtain ⟨haccepted, hheld⟩ :=
      WorkerSlot.held_pushLocal job (Nat.lt_of_not_le hfull)
    rw [Balanced, step, haccepted]
    exact retrievable_setWorker (by simp [hheld, pushedBy, returnedBy, ← Multiset.coe_add])

theorem balanced_popLocal (s : Agents n) (w : Fin n) : s.Balanced (.popLocal w) := by
  refine retrievable_setWorker ?_
  rw [add_comm, Multiset.coe_add, Multiset.coe_add]
  exact congrArg _ ((s.workers w).held_popLocal.symm.trans (append_nil _).symm)

theorem balanced_stealFrom (s : Agents n) (thief victim : Fin n) :
    s.Balanced (.stealFrom thief victim) := by
  by_cases hself : thief = victim
  · simp [Balanced, step, hself, pushedBy, returnedBy]
  · rw [Balanced, step, if_neg hself]
    -- the thief's deque is as before, so only the victim's matters
    have hthief : ∀ worker : WorkerSlot, worker.held = (s.workers thief).held →
        (s.setWorker thief worker).retrievable = s.retrievable := by
      intro worker hheld
      have hsame : (0 : Multiset BuildJob) + (s.setWorker thief worker).retrievable =
          s.retrievable + 0 := retrievable_setWorker (by simp [hheld])
      simpa using hsame
    cases hsteal : (s.workers victim).stolenFrom with
    | none =>
      simp only [WorkerSlot.stealFrom, hsteal, pushedBy, returnedBy]
      rw [← hthief (s.workers thief) rfl]
      simp [setWorker]
    | some result =>
      simp only [WorkerSlot.stealFrom, hsteal, pushedBy, returnedBy]
      rw [← hthief { s.workers thief with jobsStolen := (s.workers thief).jobsStolen + 1 } rfl]
      refine retrievable_setWorker ?_
      simp [setWorker, update_of_ne (Ne.symm hself), WorkerSlot.held_stolenFrom hsteal]

theorem balanced (hroom : s.queue.count ≤ queueCapacity) {op : Operation n}
    (hsound : s.Sound op) : s.Balanced op := by
  cases op with
  | push job => exact balanced_push hsound
  | pop => exact s.balanced_pop
  | popPriority => exact balanced_popPriority hroom hsound
  | pushLocal w job => exact s.balanced_pushLocal w job
  | popLocal w => exact s.balanced_popLocal w
  | stealFrom thief victim => exact s.balanced_stealFrom thief victim

/-- The ring never holds more than its capacity. -/
theorem count_step_le (hroom : s.queue.count ≤ queueCapacity) (op : Operation n) :
    (s.step op).2.queue.count ≤ queueCapacity := by
  cases op with
  | push job =>
    simp only [step, WorkQueue.push]
    split
    · exact hroom
    · next hlt => exact Nat.lt_of_not_le hlt
  | pop =>
    simp only [step, WorkQueue.pop]
    split
    · exact hroom
    · exact (Nat.sub_le ..).trans hroom
  | popPriority =>
    simp only [step, WorkQueue.popPriority]
    split
    · exact hroom
    · exact (Nat.sub_le ..).trans hroom
  | pushLocal w job | popLocal w => exact hroom
  | stealFrom thief victim =>
    rw [step]
    split
    · exact hroom
    · exact hroom

/-- **Conservation.**  Along every run of sound operations, the jobs returned and the jobs still
retrievable are together the jobs successfully pushed: none is lost, duplicated, or returned after
it was removed. -/
theorem conservation (n : Nat) {ops : List (Operation n)}
    (hrun : EveryStep step Sound (fresh n) ops) :
    let past := trace step (fresh n) ops
    (past.filterMap returnedBy : Multiset BuildJob) +
        (final step (fresh n) ops).retrievable =
      (past.filterMap pushedBy : Multiset BuildJob) := by
  have h := hrun.history (I := fun past s => s.queue.count ≤ queueCapacity ∧
    (past.filterMap returnedBy : Multiset BuildJob) + s.retrievable =
      (past.filterMap pushedBy : Multiset BuildJob)) [] ?_ ?_
  · exact h.2
  · rintro past s op hsound ⟨hroom, hpast⟩
    refine ⟨count_step_le hroom op, ?_⟩
    have hstep := balanced hroom hsound
    have hone : ∀ (f : Operation n × Answer → Option BuildJob) (entry : Operation n × Answer),
        [entry].filterMap f = (f entry).toList := by
      intro f entry
      cases h : f entry <;> simp [h]
    rw [List.filterMap_append, List.filterMap_append, ← Multiset.coe_add, ← Multiset.coe_add,
      ← hpast, add_assoc, add_assoc, hone, hone, hstep]
  · exact ⟨Nat.zero_le _, by simp [fresh, retrievable, WorkQueue.new, WorkQueue.drain,
      WorkerSlot.new, WorkerSlot.held]⟩

/-! ### Runs that keep and break the condition -/

/-- A job told apart from others by its package. -/
def sampleJob (pkgVar : UInt16) (priority : Int32) : BuildJob :=
  { BuildJob.empty with pkgVar, priority }

/-- Two jobs through the queue, the more urgent one first, and one from agent to agent. -/
def sampleOperations : List (Operation 3) :=
  [.push (sampleJob 1 0), .push (sampleJob 2 5), .popPriority,
    .pushLocal ⟨0, by decide⟩ (sampleJob 3 0), .stealFrom ⟨1, by decide⟩ ⟨0, by decide⟩, .pop]

theorem conservation_sample :
    let past := trace step (fresh 3) sampleOperations
    past.filterMap returnedBy = [sampleJob 2 5, sampleJob 3 0, sampleJob 1 0] ∧
      (past.filterMap returnedBy : Multiset BuildJob) +
          (final step (fresh 3) sampleOperations).retrievable =
        (past.filterMap pushedBy : Multiset BuildJob) :=
  ⟨by decide +kernel, conservation 3 (by decide +kernel)⟩

/-- A push after a priority pop: the second job is lost, and the first one is returned twice. -/
theorem pushed_job_lost :
    let ops : List (Operation 0) := [.push (sampleJob 1 0), .popPriority, .push (sampleJob 2 0),
      .pop]
    let past := trace step (fresh 0) ops
    past.filterMap pushedBy = [sampleJob 1 0, sampleJob 2 0] ∧
      past.filterMap returnedBy = [sampleJob 1 0, sampleJob 1 0] ∧
      (final step (fresh 0) ops).queue.count = 0 := by
  decide +kernel

/-! The other slip: a job with the least priority outside slot zero is lost, and what `pop_priority`
returns in its place was taken out before. -/

example :
    let least := sampleJob 2 Int32.minValue
    let ops : List (Operation 0) := [.push (sampleJob 1 0), .pop, .push least, .popPriority]
    let past := trace step (fresh 0) ops
    past.filterMap pushedBy = [sampleJob 1 0, least] ∧
      past.filterMap returnedBy = [sampleJob 1 0, sampleJob 1 0] ∧
      (final step (fresh 0) ops).queue.count = 0 := by
  decide +kernel

end Agents

end Sisyphus.Helix
