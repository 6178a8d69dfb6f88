/-
  Pool/Waiters.lean --- who is left waiting for the end of the work.

  When the last working thread counts itself out, it signals `threads_all_idle` once, and that
  wakes one caller of `thpool_wait`.  If the calls do not overlap, that is the only one, and as
  long as no other pool is destroyed none is left asleep in a pool at rest
  (`thpool_wait_returns`).  If two overlap, one of them
  may be: `thpool_wait_strands` is a run of one worker and one job after which the pool is at
  rest, with every job done and a caller asleep that nothing will wake.
-/
import NoGround.Pool.Drain

set_option autoImplicit false

namespace NoGround

open NoGround.Lib
open Function (update)

namespace Pool

variable {n m : Nat} {α : Type} {s s' : Pool n m α} {t u : List (PoolEvent n m α)}
  {a : PoolAction n m α} {l : List (Nat × α)}

def isCall : PoolEvent n m α → Bool
  | .waiting _ => true
  | _ => false

def isReturn : PoolEvent n m α → Bool
  | .waited _ => true
  | _ => false

/-- Nobody calls `thpool_wait` while another call is going on. -/
def Apart (t : List (PoolEvent n m α)) : Prop :=
  EachEvent (fun before e => isCall e = true → before.countP isCall = before.countP isReturn) t

instance (t : List (PoolEvent n m α)) : Decidable (Apart t) := decidableEachEvent t _

/-- The callers inside `thpool_wait` are the calls without a return. -/
theorem inWait_moves (hm : Moves s a s' u) :
    count CallerPc.isInWait s'.callers + u.countP isReturn =
      count CallerPc.isInWait s.callers + u.countP isCall := by
  cases hm <;> simp_all [CallerPc.isInWait, isCall, isReturn]

/-- While a caller sleeps in `thpool_wait`, something is left to do. -/
def Awaited (s : Pool n m α) : Prop :=
  0 < count CallerPc.isSleeping s.callers → s.jobqueue.len ≠ 0 ∨ s.num_threads_working ≠ 0

/-- The worker that leaves nothing to do wakes the only caller that sleeps. -/
theorem Awaited.moves (hk : Kept t s l) (h : s.Awaited)
    (hone : count CallerPc.isInWait s.callers ≤ 1) (hm : Moves s a s' u) : s'.Awaited := by
  have hleft : 0 < count CallerPc.isSleeping s.callers →
    s.jobqueue.len ≠ 0 ∨ s.num_threads_working ≠ 0 := h
  have hcount := count_nonneg WorkerPc.isWorking s.workers
  have hworking := hk.counted.working
  have hlast : count CallerPc.isSleeping s.callers ≤ 1 :=
    le_trans (count_le_count (fun p hp => by rw [CallerPc.isSleeping_iff.mp hp]; rfl)) hone
  have hclosed : ∀ total, s.owner = .clearing total → count CallerPc.isSleeping s.callers = 0 := by
    intro total howner
    rw [count_eq_zero]
    intro c
    rw [hk.phased.no_caller (by rw [howner]; exact nofun) c]
    rfl
  unfold Awaited
  cases hm with
  | pullNone i _ _ _ _ hpc | pullLast i _ _ _ _ _ hpc | pullOne i _ _ _ _ _ hpc =>
    have hself : 0 < count WorkerPc.isWorking s.workers := count_pos (i := i) (by rw [hpc]; rfl)
    intro _
    right
    show s.num_threads_working ≠ 0
    omega
  | countIn i _ _ hpc =>
    intro _
    right
    show s.num_threads_working + 1 ≠ 0
    omega
  | countOutLast _ _ _ _ _ _ hrouses =>
    have hnone := count_wake_last (p := .wantLock) hrouses rfl hlast
    intro hpos
    exact absurd hpos (by rw [goto, hnone]; exact lt_irrefl 0)
  | push _ _ _ _ _ q _ _ hpush =>
    have hlen := jobqueue_push_len hpush
    intro _
    left
    show q.len ≠ 0
    omega
  | dropNone _ total _ _ hpc | dropLast _ total _ _ _ hpc | dropOne _ total _ _ _ hpc =>
    have hnone := hclosed total hpc
    simp_all
  | _ => simp_all [CallerPc.isSleeping]

/-- A step that calls `thpool_wait` does nothing else. -/
theorem call_moves (hm : Moves s a s' u) : u.countP isCall = 0 ∨ ∃ c, u = [.waiting c] := by
  cases hm with
  | wait c => exact Or.inr ⟨c, rfl⟩
  | _ => exact Or.inl rfl

/-- If no two calls overlap, at most one caller is in one. -/
theorem one_moves (hin : count CallerPc.isInWait s.callers + t.countP isReturn = t.countP isCall)
    (hone : count CallerPc.isInWait s.callers ≤ 1) (hapart : Apart (t ++ u))
    (hm : Moves s a s' u) : count CallerPc.isInWait s'.callers ≤ 1 := by
  have hstep := inWait_moves hm
  rcases call_moves hm with hnone | ⟨c, rfl⟩
  · omega
  · have hcall := (eachEvent_append.mp hapart).2
    rw [eachEvent_singleton, List.append_nil] at hcall
    have hequal := hcall rfl
    have hsingle : [PoolEvent.waiting (n := n) (α := α) c].countP isCall = 1 := rfl
    omega

theorem awaited_of_run {made : Fin n → Bool} {as : List (PoolAction n m α)}
    (hrun : carryOut act as (thpool_init made) = .next s t) (hapart : Apart t) : s.Awaited := by
  have hinit : count CallerPc.isInWait (thpool_init (m := m) (α := α) made).callers = 0 :=
    count_eq_zero.mpr fun _ => rfl
  have hidle : count CallerPc.isSleeping (thpool_init (m := m) (α := α) made).callers = 0 :=
    count_eq_zero.mpr fun _ => rfl
  obtain ⟨-, -, h⟩ : (∃ l, Kept t s l) ∧
      count CallerPc.isInWait s.callers + (t.countP isReturn : Int) = t.countP isCall ∧
      (Apart t → count CallerPc.isInWait s.callers ≤ 1 ∧ s.Awaited) := by
    apply carryOut_invariant (fun t s => (∃ l, Kept t s l) ∧
      count CallerPc.isInWait s.callers + (t.countP isReturn : Int) = t.countP isCall ∧
      (Apart t → count CallerPc.isInWait s.callers ≤ 1 ∧ s.Awaited)) _ _ hrun
    · rintro t a s u s' ⟨⟨l, hk⟩, hin, h⟩ hact
      have hm := act_moves hact
      have hstep := inWait_moves hm
      refine ⟨hk.moves hm, by rw [List.countP_append, List.countP_append]; omega, ?_⟩
      intro hapart
      obtain ⟨hone, hawaited⟩ := h (eachEvent_append.mp hapart).1
      exact ⟨one_moves hin hone hapart hm, hawaited.moves hk hone hm⟩
    · refine ⟨⟨[], kept_init made⟩, by rw [hinit]; rfl, ?_⟩
      intro _
      refine ⟨by rw [hinit]; decide, ?_⟩
      intro hpos
      rw [hidle] at hpos
      exact absurd hpos (lt_irrefl 0)
  exact (h hapart).2

/-- If calls of `thpool_wait` do not overlap, and no other pool is destroyed, nobody is left in
one when the pool rests. -/
theorem thpool_wait_returns {made : Fin n → Bool} {as : List (PoolAction n m α)}
    (hrun : carryOut act as (thpool_init made) = .next s t) (hsole : .other false ∉ as)
    (hapart : Apart t) (hopen : s.owner = .opened) (hn : 0 < n) (hset : s.Settled) (c : Fin m) :
    s.callers c = .idle := by
  obtain ⟨l, hk⟩ := kept_of_run hrun
  obtain ⟨hs, hw⟩ := woken_of_run hrun hsole
  obtain ⟨hasleep, hcallers, -⟩ := hset.at_rest hk hs hopen
  have hlen := hset.drained hk hs hw hopen hn
  have hworking : s.num_threads_working = 0 := by
    rw [hk.counted.working, count_eq_zero]
    intro i
    rw [hasleep i]
    rfl
  rcases hcallers c with hpc | hpc
  · exact hpc
  · have hsleeps : 0 < count CallerPc.isSleeping s.callers :=
      count_pos (i := c) (by rw [hpc]; rfl)
    rcases awaited_of_run hrun hapart hsleeps with hne | hne
    · exact absurd hlen hne
    · exact absurd hworking hne

theorem thpool_wait_returns_job : (after aJob).1.callers 1 = .idle :=
  thpool_wait_returns aJob_run (by decide) (by decide +kernel) aJob_rest.1 (by decide)
    aJob_rest.2 1

/-- One of two overlapping calls may never return: the pool rests, all jobs are done, and a
caller sleeps. -/
theorem thpool_wait_strands :
    ∃ (as : List (PoolAction 1 2 Nat)) (s : Pool 1 2 Nat) (t : List (PoolEvent 1 2 Nat)),
      carryOut act as (thpool_init fun _ => true) = .next s t ∧ s.owner = .opened ∧ s.Settled ∧
        addedOf t = finishedOf t ∧ s.callers 1 = .sleeping := by
  have hend : (after twoWaiters).1.owner = .opened ∧ (after twoWaiters).1.freed = false ∧
      (∀ i, (after twoWaiters).1.workers i = .asleep) ∧
      (∀ c, (after twoWaiters).1.callers c = .idle ∨ (after twoWaiters).1.callers c = .sleeping) ∧
      addedOf (after twoWaiters).2 = finishedOf (after twoWaiters).2 ∧
      (after twoWaiters).1.callers 1 = .sleeping := by decide +kernel
  obtain ⟨hopen, hfreed, hworkers, hcallers, hdone, hsleeps⟩ := hend
  exact ⟨twoWaiters, (after twoWaiters).1, (after twoWaiters).2,
    Outcome.eq_next (by decide +kernel) _, hopen,
    settled_of_rest hfreed (fun i => Or.inl (hworkers i)) hcallers, hdone, hsleeps⟩

end Pool

end NoGround
