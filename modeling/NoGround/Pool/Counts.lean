/-
  Pool/Counts.lean --- what the counters and the locks of the pool say about its threads.

  `num_threads_alive` and `num_threads_working` are the numbers of workers at certain points,
  and a lock is held exactly when one thread is between its two ends (`Counted`).  So of all
  the threads at most one holds each lock.
-/
import NoGround.Pool.Moves

set_option autoImplicit false

namespace NoGround

open NoGround.Lib
open Function (update)

variable {n m : Nat} {α : Type}

/-! ## What a signal leaves alone -/

/-- A worker that a post wakes contributes what it did. -/
def WorkerPc.Steady {M : Type} (f : WorkerPc α → M) : Prop := f .asleep = f .waiting

/-- A caller that an idle pool wakes contributes what it did. -/
def CallerPc.Steady {M : Type} (f : CallerPc α → M) : Prop := f .sleeping = f .wantLock

namespace WorkerPc

@[simp] theorem steady_isUnborn : Steady (isUnborn (α := α)) := rfl
@[simp] theorem steady_isLeft : Steady (isLeft (α := α)) := rfl
@[simp] theorem steady_isAlive : Steady (isAlive (α := α)) := rfl
@[simp] theorem steady_isWorking : Steady (isWorking (α := α)) := rfl
@[simp] theorem steady_isComing : Steady (isComing (α := α)) := rfl
@[simp] theorem steady_holdsCount : Steady (holdsCount (α := α)) := rfl
@[simp] theorem steady_holdsQueue : Steady (holdsQueue (α := α)) := rfl
@[simp] theorem steady_job : Steady (job (α := α)) := rfl
@[simp] theorem steady_work : Steady (work (α := α)) := rfl

end WorkerPc

namespace CallerPc

@[simp] theorem steady_isBusy : Steady (isBusy (α := α)) := rfl
@[simp] theorem steady_isInWait : Steady (isInWait (α := α)) := rfl
@[simp] theorem steady_holdsCount : Steady (holdsCount (α := α)) := rfl
@[simp] theorem steady_holdsQueue : Steady (holdsQueue (α := α)) := rfl
@[simp] theorem steady_job : Steady (job (α := α)) := rfl

end CallerPc

namespace Pool

variable {s s' : Pool n m α} {t : List (PoolEvent n m α)} {a : PoolAction n m α}

section Signal

variable {M : Type} [AddCommMonoid M] {f : WorkerPc α → M} {P : WorkerPc α → Bool}
  {Q : CallerPc α → Bool} {wakes : Option (Fin n)} {rouses : Option (Fin m)} {i : Fin n}

@[simp] theorem tally_woke (hf : WorkerPc.Steady f) (hwakes : s.signals wakes = true) :
    tally f (wake s.workers .waiting wakes) = tally f s.workers := by
  apply tally_wake hwakes
  intro q hq
  rw [WorkerPc.isAsleep_iff.mp hq, hf]

@[simp] theorem tally_woken (hf : WorkerPc.Steady f) :
    tally f (fun i => (s.workers i).woken) = tally f s.workers := by
  apply tally_map
  intro q
  cases q with
  | asleep => exact hf.symm
  | _ => rfl

@[simp] theorem count_woke (hP : WorkerPc.Steady P) (hwakes : s.signals wakes = true) :
    count P (wake s.workers .waiting wakes) = count P s.workers :=
  tally_woke (f := fun p => bit (P p)) (congrArg bit hP) hwakes

@[simp] theorem count_woken (hP : WorkerPc.Steady P) :
    count P (fun i => (s.workers i).woken) = count P s.workers :=
  tally_woken (f := fun p => bit (P p)) (congrArg bit hP)

theorem tally_roused {g : CallerPc α → M} (hg : CallerPc.Steady g)
    (hrouses : wakesOne CallerPc.isSleeping s.callers rouses = true) :
    tally g (wake s.callers .wantLock rouses) = tally g s.callers := by
  apply tally_wake hrouses
  intro q hq
  rw [CallerPc.isSleeping_iff.mp hq, hg]

@[simp] theorem count_roused (hQ : CallerPc.Steady Q)
    (hrouses : wakesOne CallerPc.isSleeping s.callers rouses = true) :
    count Q (wake s.callers .wantLock rouses) = count Q s.callers :=
  tally_roused (g := fun p => bit (Q p)) (congrArg bit hQ) hrouses

/-- The poster itself is where it was. -/
@[simp] theorem woke_self (hwakes : s.signals wakes = true) (hawake : s.workers i ≠ .asleep) :
    wake s.workers .waiting wakes i = s.workers i := by
  apply wake_apply hwakes
  rw [← Bool.not_eq_true, WorkerPc.isAsleep_iff]
  exact hawake

end Signal

/-! ## Counters and locks -/

theorem alive_moves (h : s.num_threads_alive = count WorkerPc.isAlive s.workers)
    (hm : Moves s a s' t) : s'.num_threads_alive = count WorkerPc.isAlive s'.workers := by
  cases hm <;> simp_all [WorkerPc.isAlive]

theorem working_moves (h : s.num_threads_working = count WorkerPc.isWorking s.workers)
    (hm : Moves s a s' t) : s'.num_threads_working = count WorkerPc.isWorking s'.workers := by
  cases hm <;> simp_all [WorkerPc.isWorking]

/-- Who unlocks held the lock; who takes it found it free. -/
theorem countLock_moves
    (h : bit s.thcount_lock =
      count WorkerPc.holdsCount s.workers + count CallerPc.holdsCount s.callers)
    (hm : Moves s a s' t) :
    bit s'.thcount_lock =
      count WorkerPc.holdsCount s'.workers + count CallerPc.holdsCount s'.callers := by
  cases hm with
  | unlock i _ _ hpc =>
    have hheld := held_of_left (i := i) h (by rw [hpc]; rfl)
    simp_all [WorkerPc.holdsCount]
  | waitLonger c _ hpc | waited c _ hpc =>
    have hheld := held_of_right (j := c) h (by rw [hpc]; rfl)
    simp_all [CallerPc.holdsCount]
  | _ => simp_all [WorkerPc.holdsCount, CallerPc.holdsCount]

theorem queueLock_moves
    (h : bit s.rwmutex =
      count WorkerPc.holdsQueue s.workers + count CallerPc.holdsQueue s.callers)
    (hm : Moves s a s' t) :
    bit s'.rwmutex =
      count WorkerPc.holdsQueue s'.workers + count CallerPc.holdsQueue s'.callers := by
  cases hm with
  | post i _ _ _ _ hpc =>
    have hheld := held_of_left (i := i) h (by rw [hpc]; rfl)
    simp_all [WorkerPc.holdsQueue]
  | callerPost c _ hpc =>
    have hheld := held_of_right (j := c) h (by rw [hpc]; rfl)
    simp_all [CallerPc.holdsQueue]
  | _ => simp_all [WorkerPc.holdsQueue, CallerPc.holdsQueue]

/-- What the counters and the locks say. -/
structure Counted (s : Pool n m α) : Prop where
  alive : s.num_threads_alive = count WorkerPc.isAlive s.workers
  working : s.num_threads_working = count WorkerPc.isWorking s.workers
  countLock : bit s.thcount_lock =
    count WorkerPc.holdsCount s.workers + count CallerPc.holdsCount s.callers
  queueLock : bit s.rwmutex =
    count WorkerPc.holdsQueue s.workers + count CallerPc.holdsQueue s.callers

theorem Counted.moves (h : s.Counted) (hm : Moves s a s' t) : s'.Counted where
  alive := alive_moves h.alive hm
  working := working_moves h.working hm
  countLock := countLock_moves h.countLock hm
  queueLock := queueLock_moves h.queueLock hm

theorem counted_init (made : Fin n → Bool) : (thpool_init (m := m) (α := α) made).Counted := by
  have hnew : ∀ P : WorkerPc α → Bool, P .unmade = false → P .starting = false →
      count P (thpool_init (m := m) (α := α) made).workers = 0 := by
    intro P hunmade hstarting
    rw [count_eq_zero]
    intro i
    show P (if made i then .starting else .unmade) = false
    split
    · exact hstarting
    · exact hunmade
  have hidle : ∀ Q : CallerPc α → Bool, Q .idle = false →
      count Q (thpool_init (m := m) (α := α) made).callers = 0 := fun Q hQ =>
    count_eq_zero.mpr fun _ => hQ
  constructor
  · exact (hnew _ rfl rfl).symm
  · exact (hnew _ rfl rfl).symm
  · rw [hnew _ rfl rfl, hidle _ rfl]
    rfl
  · rw [hnew _ rfl rfl, hidle _ rfl]
    rfl

end Pool

end NoGround
