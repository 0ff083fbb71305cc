import Mathlib.Tactic

/-!
# First-come service with a rate and a latency

`Fifo` is the history of a queue that is served in the order of arrival: in every tick the served
jobs are taken from its front and the arriving ones are appended.  `Serves rate window start` says
that from tick `start` on, each of the consecutive windows completes at least `rate` jobs, or all of
those that were outstanding when the window began.

The bound is the horizontal deviation of min-plus calculus for one job: a job with `ahead` others
before it is done after the windows that `ahead + 1` jobs need at the guaranteed rate
(`Fifo.Serves.finishes`).  Later arrivals do not delay it, since they queue up behind it.
-/

set_option autoImplicit false

namespace Sisyphus

open List

/-- The history of a first-come queue. -/
structure Fifo (Job : Type) where
  /-- The outstanding jobs at the beginning of a tick, the oldest first. -/
  queue : Nat → List Job
  arrivals : Nat → List Job
  served : Nat → List Job
  order : ∀ t, queue t ++ arrivals t = served t ++ queue (t + 1)

namespace Fifo

variable {Job : Type} (f : Fifo Job)

/-- What a sequence of batches holds in the `n` ticks from `start` on. -/
def during (batches : Nat → List Job) (start n : Nat) : List Job :=
  (List.range n).flatMap fun i => batches (start + i)

theorem during_add (batches : Nat → List Job) (start m n : Nat) :
    during batches start (m + n) = during batches start m ++ during batches (start + m) n := by
  rw [during, range_add, flatMap_append, flatMap_map]
  simp only [during, Nat.add_assoc]

theorem mem_during {batches : Nat → List Job} {start n : Nat} {job : Job} :
    job ∈ during batches start n ↔ ∃ t, start ≤ t ∧ t < start + n ∧ job ∈ batches t := by
  rw [during, mem_flatMap]
  constructor
  · rintro ⟨i, hi, hjob⟩
    exact ⟨start + i, by omega, by have := mem_range.mp hi; omega, hjob⟩
  · rintro ⟨t, hle, hlt, hjob⟩
    refine ⟨t - start, mem_range.mpr (by omega), ?_⟩
    rwa [show start + (t - start) = t by omega]

/-- Over any stretch of time, what was there and what arrived is, in this order, what was served
and what is left. -/
theorem order_during (start n : Nat) :
    f.queue start ++ during f.arrivals start n =
      during f.served start n ++ f.queue (start + n) := by
  induction n with
  | zero => simp [during]
  | succ n ih =>
    have hone : ∀ batches : Nat → List Job, during batches (start + n) 1 = batches (start + n) := by
      simp [during]
    rw [during_add, during_add, hone, hone, ← append_assoc, ih, append_assoc, f.order,
      append_assoc, Nat.add_assoc]

/-- From tick `start` on, each window of `window` ticks completes at least `rate` of the jobs
outstanding at its beginning, or all of them. -/
def Serves (rate window start : Nat) : Prop :=
  ∀ k, min rate (f.queue (start + k * window)).length ≤
    (during f.served (start + k * window) window).length

variable {f} {rate window start latency ahead : Nat}

/-- In `n` windows, `n * rate` jobs are completed, or those that were there at the start. -/
theorem Serves.le_length_during (h : f.Serves rate window (start + latency)) (n : Nat) :
    min (n * rate) (f.queue start).length ≤
      (during f.served start (latency + n * window)).length := by
  induction n with
  | zero => simp
  | succ n ih =>
    have hwindow := h n
    have horder := congrArg length (f.order_during start (latency + n * window))
    rw [length_append, length_append, ← Nat.add_assoc] at horder
    rw [show latency + (n + 1) * window = latency + n * window + window by ring, during_add,
      length_append, ← Nat.add_assoc start]
    rw [Nat.add_mul, Nat.one_mul]
    omega

/-- **The delay bound.**  A job with `ahead` jobs before it is completed within the latency and the
windows that `ahead + 1` jobs take at the guaranteed rate. -/
theorem Serves.finishes (h : f.Serves rate window (start + latency)) {job : Job}
    (hjob : (f.queue start)[ahead]? = some job) {n : Nat} (hn : ahead + 1 ≤ n * rate) :
    ∃ t, start ≤ t ∧ t < start + (latency + n * window) ∧ job ∈ f.served t := by
  have hlt : ahead < (f.queue start).length := (List.getElem?_eq_some_iff.mp hjob).1
  have hserved : ahead < (during f.served start (latency + n * window)).length := by
    have := h.le_length_during n
    omega
  refine mem_during.mp (mem_of_getElem? (i := ahead) ?_)
  rw [← getElem?_append_left hserved, ← f.order_during, getElem?_append_left hlt, hjob]

end Fifo
end Sisyphus
