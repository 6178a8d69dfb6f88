/-
  Pool/Types.lean --- the thread pool: its shared data, and where each thread is.

  The pool is shared by the workers it made, by the threads that call into it, and by the
  thread that opened it and will destroy it.  A thread is at some point of its function;
  between two points it touches at most one thing that another thread may touch at the same
  time, or what it keeps locked from one end to the other.  So a critical section is one step
  where it reads and writes nothing but what its lock is for, and is cut in two where it goes
  on to something else: `jobqueue_push` and `jobqueue_pull` post the semaphore behind the
  queue's new length, `thpool_wait` reads two counters, and the last thing a worker does is
  unlock what its count of the living was changed under.

  `threads_keepalive` is not in the pool: it is one static variable, which every pool of the
  process reads, `thpool_init` sets and `thpool_destroy` clears.  What the calls for other
  pools write to it is an action among the others.

  A job is an address in `heap`; what it will run, a function and its argument, is any type.
-/
import Mathlib.Logic.Function.Basic
import NoGround.Lib.Crew

set_option autoImplicit false

namespace NoGround

/-! ## Where a thread is (thpool.c:214-280, 355-425) -/

/-- A worker, in `thread_do`. -/
inductive WorkerPc (α : Type) where
  /-- `thread_init` had no memory for it, and made no thread -/
  | unmade
  /-- about to count itself alive -/
  | starting
  /-- at the head of `while(threads_keepalive)` -/
  | looping
  /-- in `bsem_wait`, about to look at the semaphore -/
  | waiting
  /-- in `bsem_wait`, waiting on the semaphore's condition -/
  | asleep
  /-- out of `bsem_wait`, at `if (threads_keepalive)` -/
  | taken
  /-- about to count itself working -/
  | counting
  /-- about to pull a job -/
  | pulling
  /-- in `jobqueue_pull` with the job `a`, about to post the semaphore for the rest -/
  | posting (a : Nat) (w : α)
  /-- in the function of job `a` -/
  | running (a : Nat) (w : α)
  /-- about to count itself out of work -/
  | leaving
  /-- out of the loop, about to count itself out of the living -/
  | ending
  /-- about to unlock `thcount_lock` for the last time -/
  | unlocking
  | gone
  deriving DecidableEq

/-- A thread that calls the pool between its opening and its end. -/
inductive CallerPc (α : Type) where
  | idle
  /-- in `thpool_add_work`, with the new job `a` -/
  | pushing (a : Nat) (w : α)
  /-- in `jobqueue_push`, about to post the semaphore -/
  | posting
  /-- in `thpool_wait`, about to take the lock and read the length of the queue -/
  | wantLock
  /-- in `thpool_wait` with the lock, having read length 0 -/
  | readWorking
  /-- in `thpool_wait`, waiting on `threads_all_idle` -/
  | sleeping
  deriving DecidableEq

/-- The thread that opens the pool and destroys it; `total` is its `threads_total`. -/
inductive OwnerPc where
  /-- in `thpool_init`, waiting for the threads to start -/
  | opening
  | opened
  /-- in `thpool_destroy`, with `threads_keepalive` still up -/
  | closing (total : Int)
  /-- about to look whether a thread is left -/
  | polling (total : Int)
  /-- about to post to all threads -/
  | broadcasting (total : Int)
  /-- in `jobqueue_clear` -/
  | clearing (total : Int)
  /-- about to free the threads and the pool -/
  | freeing (total : Int)
  | done
  deriving DecidableEq

/-! ## The shared data (thpool.c:75-125) -/

/-- A job; `work` is its function and argument. -/
structure Job (α : Type) where
  prev : Option Nat
  work : α
  deriving DecidableEq

/-- The queue, without its lock and its semaphore.  `len` is an `int` in the source: what is
said here is about queues of fewer than `2 ^ 31` jobs. -/
structure Jobqueue where
  front : Option Nat
  rear : Option Nat
  len : Nat
  deriving DecidableEq

/-- The pool and its threads. -/
structure Pool (n m : Nat) (α : Type) where
  /-- the static variable, shared with the other pools of the process -/
  threads_keepalive : Bool
  num_threads_alive : Int
  num_threads_working : Int
  /-- whether `thcount_lock` is held between two steps -/
  thcount_lock : Bool
  jobqueue : Jobqueue
  /-- whether `rwmutex` is held between two steps -/
  rwmutex : Bool
  /-- the value of the semaphore `has_jobs` -/
  has_jobs : Bool
  /-- the jobs in memory -/
  heap : Nat → Option (Job α)
  /-- the `thread` structures in memory -/
  threads : Fin n → Bool
  /-- the pool itself is no longer in memory -/
  freed : Bool
  workers : Fin n → WorkerPc α
  callers : Fin m → CallerPc α
  owner : OwnerPc

/-! ## What the outside sees and chooses -/

/-- What happened; `w` is the work of a job. -/
inductive PoolEvent (n m : Nat) (α : Type) where
  /-- `thpool_init` returned -/
  | opened
  /-- the job is in the queue -/
  | added (c : Fin m) (w : α)
  /-- `thpool_add_work` returned -1 -/
  | refused (c : Fin m) (w : α)
  /-- the job is out of the queue -/
  | pulled (i : Fin n) (w : α)
  /-- its function was called and has returned -/
  | finished (i : Fin n) (w : α)
  /-- `thpool_wait` was called -/
  | waiting (c : Fin m)
  /-- `thpool_wait` returned -/
  | waited (c : Fin m)
  /-- `jobqueue_clear` freed the job -/
  | dropped (w : α)
  /-- `thpool_destroy` returned -/
  | destroyed
  deriving DecidableEq

/-- The next step of a thread, and what the system settles in it: which sleeping worker a
signal wakes, which waiting caller, and where `malloc` puts the new job. -/
inductive PoolAction (n m : Nat) (α : Type) where
  | worker (i : Fin n) (wakes : Option (Fin n)) (rouses : Option (Fin m))
  | caller (c : Fin m) (wakes : Option (Fin n))
  | owner (wakes : Option (Fin n))
  /-- the call of `thpool_add_work` -/
  | add (c : Fin m) (w : α) (newjob : Option Nat)
  /-- the call of `thpool_wait` -/
  | wait (c : Fin m)
  /-- the call of `thpool_destroy` -/
  | destroy
  /-- `pthread_cond_wait` returns to a worker that nobody signalled -/
  | stirWorker (i : Fin n)
  /-- `pthread_cond_wait` returns to a caller that nobody signalled -/
  | stirCaller (c : Fin m)
  /-- `thpool_init` makes another pool, if `keepalive`, or `thpool_destroy` ends one -/
  | other (keepalive : Bool)
  deriving DecidableEq

/-! ## Classes of points -/

namespace WorkerPc

variable {α : Type}

/-- Waits on the semaphore's condition. -/
def isAsleep : WorkerPc α → Bool
  | .asleep => true
  | _ => false

theorem isAsleep_iff {pc : WorkerPc α} : pc.isAsleep = true ↔ pc = .asleep := by
  cases pc <;> simp [isAsleep]

/-- Whoever waits on the semaphore's condition is woken. -/
def woken : WorkerPc α → WorkerPc α
  | .asleep => .waiting
  | pc => pc

/-- Is on its way to look at the semaphore, and nowhere else before. -/
def isWaiting : WorkerPc α → Bool
  | .waiting => true
  | _ => false

/-- Was never made, or has not counted itself alive. -/
def isUnborn : WorkerPc α → Bool
  | .unmade | .starting => true
  | _ => false

/-- Has left the loop. -/
def isLeft : WorkerPc α → Bool
  | .ending | .unlocking | .gone => true
  | _ => false

/-- Is counted in `num_threads_alive`. -/
def isAlive : WorkerPc α → Bool
  | .unmade | .starting | .unlocking | .gone => false
  | _ => true

/-- Is counted in `num_threads_working`. -/
def isWorking : WorkerPc α → Bool
  | .pulling | .posting _ _ | .running _ _ | .leaving => true
  | _ => false

/-- Took the semaphore and has not looked into the queue yet. -/
def isComing : WorkerPc α → Bool
  | .taken | .counting | .pulling => true
  | _ => false

/-- Holds `thcount_lock`. -/
def holdsCount : WorkerPc α → Bool
  | .unlocking => true
  | _ => false

/-- Holds `rwmutex`. -/
def holdsQueue : WorkerPc α → Bool
  | .posting _ _ => true
  | _ => false

/-- The next step goes to the pool's memory. -/
def touchesPool : WorkerPc α → Bool
  | .looping | .taken | .gone | .unmade => false
  | _ => true

/-- The job it pulled. -/
def job : WorkerPc α → Multiset Nat
  | .posting a _ | .running a _ => {a}
  | _ => 0

/-- The work of the job it pulled. -/
def work : WorkerPc α → Multiset α
  | .posting _ w | .running _ w => {w}
  | _ => 0

end WorkerPc

namespace CallerPc

variable {α : Type}

/-- Waits on `threads_all_idle`. -/
def isSleeping : CallerPc α → Bool
  | .sleeping => true
  | _ => false

theorem isSleeping_iff {pc : CallerPc α} : pc.isSleeping = true ↔ pc = .sleeping := by
  cases pc <;> simp [isSleeping]

def isIdle : CallerPc α → Bool
  | .idle => true
  | _ => false

theorem isIdle_iff {pc : CallerPc α} : pc.isIdle = true ↔ pc = .idle := by
  cases pc <;> simp [isIdle]

/-- Is inside the pool. -/
def isBusy : CallerPc α → Bool
  | .idle => false
  | _ => true

/-- Is in `thpool_wait`. -/
def isInWait : CallerPc α → Bool
  | .wantLock | .readWorking | .sleeping => true
  | _ => false

theorem isInWait_iff {pc : CallerPc α} :
    pc.isInWait = true ↔ pc = .wantLock ∨ pc = .readWorking ∨ pc = .sleeping := by
  cases pc <;> simp [isInWait]

/-- Holds `thcount_lock`. -/
def holdsCount : CallerPc α → Bool
  | .readWorking => true
  | _ => false

/-- Holds `rwmutex`. -/
def holdsQueue : CallerPc α → Bool
  | .posting => true
  | _ => false

/-- The job it allocated and has not put into the queue yet. -/
def job : CallerPc α → Multiset Nat
  | .pushing a _ => {a}
  | _ => 0

end CallerPc

namespace OwnerPc

/-- Is behind `threads_keepalive = 0`. -/
def hasClosed : OwnerPc → Bool
  | .opening | .opened | .closing _ => false
  | _ => true

/-- Its `threads_total`, while it is to use it. -/
def total : OwnerPc → Option Int
  | .closing total | .polling total | .broadcasting total | .clearing total | .freeing total =>
      some total
  | _ => none

/-- Saw that no thread is left. -/
def isAlone : OwnerPc → Bool
  | .clearing _ | .freeing _ | .done => true
  | _ => false

/-- Has cleared the queue. -/
def isClear : OwnerPc → Bool
  | .freeing _ | .done => true
  | _ => false

end OwnerPc

end NoGround
