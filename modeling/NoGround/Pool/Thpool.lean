/-
  Pool/Thpool.lean --- the functions of thpool.c, a step of one thread at a time.

  `thread_do` is the next step of a worker, `callStep` of a thread inside `thpool_add_work` or
  `thpool_wait`, `ownStep` of the thread inside `thpool_init` or `thpool_destroy`.  `act` is a
  step of any of them.  A thread that waits for a lock or a condition, and the thread that
  spins in `thpool_init`, is `blocked`.

  Which calls `act` allows is a premise of this model, not something `thpool.h` states: the
  pool is called from when `thpool_init` has returned, nobody is inside it when
  `thpool_destroy` is called, and nobody calls it from then on.  A job that adds work is a
  caller among the others, which may call at any time before that; one that does so while
  `thpool_destroy` waits for it is left out.

  Other pools of the process come and go at any time.  All that this one sees of it is
  `threads_keepalive`, which `thpool_init` sets and `thpool_destroy` clears for all of them.

  Two schedules of the polling in `thpool_destroy` differ only in how long they sleep, so its
  two loops are one.  `thpool_pause` stops a worker for some time wherever it is; a schedule
  that passes it over says the same.
-/
import NoGround.Lib.Schedule
import NoGround.Pool.Types

set_option autoImplicit false

namespace NoGround

open NoGround.Lib
open Function (update)

/-! ## The queue (thpool.c:475-528) -/

/-- `jobqueue_push` up to the post: the memory and the queue with the job `newjob` at its
rear, or nothing if a pointer it follows is not to a job. -/
def jobqueue_push {α : Type} (heap : Nat → Option (Job α)) (q : Jobqueue) (newjob : Nat) :
    Option ((Nat → Option (Job α)) × Jobqueue) := do
  let job ← heap newjob
  let heap := update heap newjob (some { job with prev := none })
  match q.len with
  | 0 => some (heap, { front := some newjob, rear := some newjob, len := 1 })
  | len + 1 =>
      let rear ← q.rear
      let last ← heap rear
      some (update heap rear (some { last with prev := some newjob }),
        { q with rear := some newjob, len := len + 2 })

/-- `jobqueue_pull` up to the post: the job, the queue without it, and whether it posts. -/
def jobqueue_pull {α : Type} (heap : Nat → Option (Job α)) (q : Jobqueue) :
    Option (Option Nat × Jobqueue × Bool) :=
  match q.len with
  | 0 => some (q.front, q, false)
  | 1 => some (q.front, { front := none, rear := none, len := 0 }, false)
  | len + 2 => do
      let job_p ← q.front
      let job ← heap job_p
      some (some job_p, { q with front := job.prev, len := len + 1 }, true)

namespace Pool

variable {n m : Nat} {α : Type}

/-- Worker `i` goes on to `pc`. -/
@[simp] def goto (s : Pool n m α) (i : Fin n) (pc : WorkerPc α) : Pool n m α :=
  { s with workers := update s.workers i pc }

/-- Caller `c` goes on to `pc`. -/
@[simp] def callerTo (s : Pool n m α) (c : Fin m) (pc : CallerPc α) : Pool n m α :=
  { s with callers := update s.callers c pc }

/-! ## The binary semaphore (thpool.c:565-590) -/

/-- The condition of the semaphore may wake `wakes`. -/
def signals (s : Pool n m α) (wakes : Option (Fin n)) : Bool :=
  wakesOne WorkerPc.isAsleep s.workers wakes

/-- Post to one thread. -/
@[simp] def bsem_post (s : Pool n m α) (wakes : Option (Fin n)) : Pool n m α :=
  { s with has_jobs := true, workers := wake s.workers .waiting wakes }

/-- Post to all threads. -/
@[simp] def bsem_post_all (s : Pool n m α) : Pool n m α :=
  { s with has_jobs := true, workers := fun i => (s.workers i).woken }

/-! ## A worker (thpool.c:355-425) -/

/-- The next step of `thread_do` in worker `i`. -/
def thread_do (s : Pool n m α) (i : Fin n) (wakes : Option (Fin n)) (rouses : Option (Fin m)) :
    Outcome (Pool n m α) (PoolEvent n m α) :=
  if s.freed && (s.workers i).touchesPool then .fault
  else match s.workers i with
  | .unmade | .asleep | .gone => .blocked
  | .starting =>
      if s.thcount_lock then .blocked
      else .next (({ s with num_threads_alive := s.num_threads_alive + 1 }).goto i .looping) []
  | .looping => .next (s.goto i (if s.threads_keepalive then .waiting else .ending)) []
  | .waiting =>
      if s.has_jobs then .next (({ s with has_jobs := false }).goto i .taken) []
      else .next (s.goto i .asleep) []
  | .taken => .next (s.goto i (if s.threads_keepalive then .counting else .looping)) []
  | .counting =>
      if s.thcount_lock then .blocked
      else .next (({ s with num_threads_working := s.num_threads_working + 1 }).goto i .pulling) []
  | .pulling =>
      if s.rwmutex then .blocked
      else match jobqueue_pull s.heap s.jobqueue with
      | none => .fault
      | some (none, q, _) => .next (({ s with jobqueue := q }).goto i .leaving) []
      | some (some a, q, posts) =>
          match s.heap a with
          | none => .fault
          | some job =>
              -- the job is this worker's own from here on, so its fields are read with it
              .next (({ s with jobqueue := q, rwmutex := posts }).goto i
                (if posts then .posting a job.work else .running a job.work)) [.pulled i job.work]
  | .posting a w =>
      if s.signals wakes then
        .next (({ s.bsem_post wakes with rwmutex := false }).goto i (.running a w)) []
      else .blocked
  | .running a w =>
      match s.heap a with
      | none => .fault
      | some _ => .next (({ s with heap := update s.heap a none }).goto i .leaving) [.finished i w]
  | .leaving =>
      if s.thcount_lock then .blocked
      else if s.num_threads_working - 1 = 0 then
        if wakesOne CallerPc.isSleeping s.callers rouses then
          .next (({ s with num_threads_working := s.num_threads_working - 1,
                           callers := wake s.callers .wantLock rouses }).goto i .looping) []
        else .blocked
      else .next (({ s with num_threads_working := s.num_threads_working - 1 }).goto i .looping) []
  | .ending =>
      if s.thcount_lock then .blocked
      else .next (({ s with num_threads_alive := s.num_threads_alive - 1,
                            thcount_lock := true }).goto i .unlocking) []
  | .unlocking => .next (({ s with thcount_lock := false }).goto i .gone) []

/-! ## A caller (thpool.c:214-241) -/

/-- The next step of a caller inside `thpool_add_work` or `thpool_wait`. -/
def callStep (s : Pool n m α) (c : Fin m) (wakes : Option (Fin n)) :
    Outcome (Pool n m α) (PoolEvent n m α) :=
  match s.callers c with
  | .idle | .sleeping => .blocked
  | .pushing newjob w =>
      if s.freed then .fault
      else if s.rwmutex then .blocked
      else match jobqueue_push s.heap s.jobqueue newjob with
      | none => .fault
      | some (heap, q) =>
          .next (({ s with heap := heap, jobqueue := q, rwmutex := true }).callerTo c .posting)
            [.added c w]
  | .posting =>
      if s.freed then .fault
      else if s.signals wakes then
        .next (({ s.bsem_post wakes with rwmutex := false }).callerTo c .idle) []
      else .blocked
  | .wantLock =>
      if s.freed then .fault
      else if s.thcount_lock then .blocked
      else if s.jobqueue.len ≠ 0 then .next (s.callerTo c .sleeping) []
      else .next (({ s with thcount_lock := true }).callerTo c .readWorking) []
  | .readWorking =>
      if s.freed then .fault
      else if s.num_threads_working ≠ 0 then
        .next (({ s with thcount_lock := false }).callerTo c .sleeping) []
      else .next (({ s with thcount_lock := false }).callerTo c .idle) [.waited c]

/-- The call of `thpool_add_work`, up to the lock of the queue. -/
def thpool_add_work (s : Pool n m α) (c : Fin m) (w : α) (newjob : Option Nat) :
    Outcome (Pool n m α) (PoolEvent n m α) :=
  if s.owner = .opened ∧ (s.callers c).isIdle then
    match newjob with
    | none => .next s [.refused c w]
    | some a =>
        if (s.heap a).isNone then
          .next (({ s with heap := update s.heap a (some ⟨none, w⟩) }).callerTo c (.pushing a w)) []
        else .blocked
  else .blocked

/-- The call of `thpool_wait`, up to its lock. -/
def thpool_wait (s : Pool n m α) (c : Fin m) : Outcome (Pool n m α) (PoolEvent n m α) :=
  if s.owner = .opened ∧ (s.callers c).isIdle then
    .next (s.callerTo c .wantLock) [.waiting c]
  else .blocked

/-! ## The owner (thpool.c:159-210, 245-280, 459-471) -/

/-- The pool as `thpool_init` leaves it when it begins to wait for its threads: `n` of them, 0
for a negative number.  `made` says which of them `thread_init` had the memory for. -/
def thpool_init (made : Fin n → Bool) : Pool n m α where
  threads_keepalive := true
  num_threads_alive := 0
  num_threads_working := 0
  thcount_lock := false
  jobqueue := { front := none, rear := none, len := 0 }
  rwmutex := false
  has_jobs := false
  heap := fun _ => none
  threads := made
  freed := false
  workers := fun i => if made i then .starting else .unmade
  callers := fun _ => .idle
  owner := .opening

/-- The call of `thpool_destroy`. -/
def thpool_destroy (s : Pool n m α) : Outcome (Pool n m α) (PoolEvent n m α) :=
  if s.owner = .opened ∧ ∀ c, (s.callers c).isIdle = true then
    .next { s with owner := .closing s.num_threads_alive } []
  else .blocked

/-- One round of `jobqueue_clear`.  It pulls a job as a worker does; the post in the middle is
one step with it, since no worker is left. -/
def jobqueue_clear (s : Pool n m α) (total : Int) (wakes : Option (Fin n)) :
    Outcome (Pool n m α) (PoolEvent n m α) :=
  if s.jobqueue.len = 0 then
    .next { s with jobqueue := { front := none, rear := none, len := 0 },
                   has_jobs := false, owner := .freeing total } []
  else match jobqueue_pull s.heap s.jobqueue with
  | none => .fault
  | some (none, q, _) => .next { s with jobqueue := q } []
  | some (some a, q, posts) =>
      match s.heap a with
      | none => .fault
      | some job =>
          let freed := { s with jobqueue := q, heap := update s.heap a none }
          if posts then
            if s.signals wakes then .next (freed.bsem_post wakes) [.dropped job.work] else .blocked
          else .next freed [.dropped job.work]

/-- The next step of the owner inside `thpool_init` or `thpool_destroy`. -/
def ownStep (s : Pool n m α) (wakes : Option (Fin n)) :
    Outcome (Pool n m α) (PoolEvent n m α) :=
  match s.owner with
  | .opening =>
      if s.num_threads_alive = n then .next { s with owner := .opened } [.opened] else .blocked
  | .opened | .done => .blocked
  | .closing total => .next { s with threads_keepalive := false, owner := .polling total } []
  | .polling total =>
      if s.num_threads_alive ≠ 0 then .next { s with owner := .broadcasting total } []
      else .next { s with owner := .clearing total } []
  | .broadcasting total => .next { s.bsem_post_all with owner := .polling total } []
  | .clearing total => s.jobqueue_clear total wakes
  | .freeing total =>
      if (n : Int) < total then .fault
      else .next { s with threads := fun i => s.threads i && !decide ((i : Int) < total),
                          freed := true, owner := .done } [.destroyed]

/-! ## A step of any thread -/

def act : PoolAction n m α → Pool n m α → Outcome (Pool n m α) (PoolEvent n m α)
  | .worker i wakes rouses, s => s.thread_do i wakes rouses
  | .caller c wakes, s => s.callStep c wakes
  | .owner wakes, s => s.ownStep wakes
  | .add c w newjob, s => s.thpool_add_work c w newjob
  | .wait c, s => s.thpool_wait c
  | .destroy, s => s.thpool_destroy
  | .stirWorker i, s =>
      if (s.workers i).isAsleep then .next (s.goto i .waiting) [] else .blocked
  | .stirCaller c, s =>
      if (s.callers c).isSleeping then .next (s.callerTo c .wantLock) [] else .blocked
  | .other keepalive, s => .next { s with threads_keepalive := keepalive } []

end Pool

end NoGround
