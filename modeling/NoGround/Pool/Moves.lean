/-
  Pool/Moves.lean --- what a step of the pool can be.

  `Moves s a s' t` has a case for every way the code can go in one step: what the thread found
  in the shared data, and the state it leaves.  `act_moves` is the inversion of `act`; every
  invariant of the pool is a case analysis of `Moves` and never unfolds `act`.
-/
import NoGround.Pool.Thpool

set_option autoImplicit false

namespace NoGround

open NoGround.Lib
open Function (update)

namespace Pool

variable {n m : Nat} {α : Type}

/-- The steps, by the thread that takes them. -/
inductive Moves (s : Pool n m α) :
    PoolAction n m α → Pool n m α → List (PoolEvent n m α) → Prop where
  -- a worker
  | start (i wakes rouses) (hpc : s.workers i = .starting) (hlock : s.thcount_lock = false) :
      Moves s (.worker i wakes rouses)
        (({ s with num_threads_alive := s.num_threads_alive + 1 }).goto i .looping) []
  | again (i wakes rouses) (hpc : s.workers i = .looping) (hkeep : s.threads_keepalive = true) :
      Moves s (.worker i wakes rouses) (s.goto i .waiting) []
  | leave (i wakes rouses) (hpc : s.workers i = .looping) (hkeep : s.threads_keepalive = false) :
      Moves s (.worker i wakes rouses) (s.goto i .ending) []
  | take (i wakes rouses) (hpc : s.workers i = .waiting) (hjobs : s.has_jobs = true) :
      Moves s (.worker i wakes rouses) (({ s with has_jobs := false }).goto i .taken) []
  | sleep (i wakes rouses) (hpc : s.workers i = .waiting) (hjobs : s.has_jobs = false) :
      Moves s (.worker i wakes rouses) (s.goto i .asleep) []
  | keep (i wakes rouses) (hpc : s.workers i = .taken) (hkeep : s.threads_keepalive = true) :
      Moves s (.worker i wakes rouses) (s.goto i .counting) []
  | turn (i wakes rouses) (hpc : s.workers i = .taken) (hkeep : s.threads_keepalive = false) :
      Moves s (.worker i wakes rouses) (s.goto i .looping) []
  | countIn (i wakes rouses) (hpc : s.workers i = .counting) (hlock : s.thcount_lock = false) :
      Moves s (.worker i wakes rouses)
        (({ s with num_threads_working := s.num_threads_working + 1 }).goto i .pulling) []
  | pullNone (i wakes rouses q posts) (hpc : s.workers i = .pulling) (hlock : s.rwmutex = false)
      (hpull : jobqueue_pull s.heap s.jobqueue = some (none, q, posts)) :
      Moves s (.worker i wakes rouses) (({ s with jobqueue := q }).goto i .leaving) []
  | pullLast (i wakes rouses a q job) (hpc : s.workers i = .pulling) (hlock : s.rwmutex = false)
      (hpull : jobqueue_pull s.heap s.jobqueue = some (some a, q, false))
      (hjob : s.heap a = some job) :
      Moves s (.worker i wakes rouses)
        (({ s with jobqueue := q, rwmutex := false }).goto i (.running a job.work))
        [.pulled i job.work]
  | pullOne (i wakes rouses a q job) (hpc : s.workers i = .pulling) (hlock : s.rwmutex = false)
      (hpull : jobqueue_pull s.heap s.jobqueue = some (some a, q, true))
      (hjob : s.heap a = some job) :
      Moves s (.worker i wakes rouses)
        (({ s with jobqueue := q, rwmutex := true }).goto i (.posting a job.work))
        [.pulled i job.work]
  | post (i wakes rouses a w) (hpc : s.workers i = .posting a w) (hwakes : s.signals wakes = true) :
      Moves s (.worker i wakes rouses)
        (({ s.bsem_post wakes with rwmutex := false }).goto i (.running a w)) []
  | finish (i wakes rouses a w job) (hpc : s.workers i = .running a w)
      (hjob : s.heap a = some job) :
      Moves s (.worker i wakes rouses)
        (({ s with heap := update s.heap a none }).goto i .leaving) [.finished i w]
  | countOutLast (i wakes rouses) (hpc : s.workers i = .leaving) (hlock : s.thcount_lock = false)
      (hlast : s.num_threads_working - 1 = 0)
      (hrouses : wakesOne CallerPc.isSleeping s.callers rouses = true) :
      Moves s (.worker i wakes rouses)
        (({ s with num_threads_working := s.num_threads_working - 1,
                   callers := wake s.callers .wantLock rouses }).goto i .looping) []
  | countOut (i wakes rouses) (hpc : s.workers i = .leaving) (hlock : s.thcount_lock = false)
      (hlast : s.num_threads_working - 1 ≠ 0) :
      Moves s (.worker i wakes rouses)
        (({ s with num_threads_working := s.num_threads_working - 1 }).goto i .looping) []
  | die (i wakes rouses) (hpc : s.workers i = .ending) (hlock : s.thcount_lock = false) :
      Moves s (.worker i wakes rouses)
        (({ s with num_threads_alive := s.num_threads_alive - 1,
                   thcount_lock := true }).goto i .unlocking) []
  | unlock (i wakes rouses) (hpc : s.workers i = .unlocking) (hfreed : s.freed = false) :
      Moves s (.worker i wakes rouses) (({ s with thcount_lock := false }).goto i .gone) []
  | stirWorker (i) (hpc : s.workers i = .asleep) :
      Moves s (.stirWorker i) (s.goto i .waiting) []
  -- a caller
  | refuse (c w) (hopen : s.owner = .opened) (hpc : s.callers c = .idle) :
      Moves s (.add c w none) s [.refused c w]
  | alloc (c w a) (hopen : s.owner = .opened) (hpc : s.callers c = .idle)
      (hfresh : s.heap a = none) :
      Moves s (.add c w (some a))
        (({ s with heap := update s.heap a (some ⟨none, w⟩) }).callerTo c (.pushing a w)) []
  | push (c wakes a w heap q) (hpc : s.callers c = .pushing a w) (hlock : s.rwmutex = false)
      (hpush : jobqueue_push s.heap s.jobqueue a = some (heap, q)) :
      Moves s (.caller c wakes)
        (({ s with heap := heap, jobqueue := q, rwmutex := true }).callerTo c .posting)
        [.added c w]
  | callerPost (c wakes) (hpc : s.callers c = .posting) (hwakes : s.signals wakes = true) :
      Moves s (.caller c wakes)
        (({ s.bsem_post wakes with rwmutex := false }).callerTo c .idle) []
  | wait (c) (hopen : s.owner = .opened) (hpc : s.callers c = .idle) :
      Moves s (.wait c) (s.callerTo c .wantLock) [.waiting c]
  | waitMore (c wakes) (hpc : s.callers c = .wantLock) (hlock : s.thcount_lock = false)
      (hlen : s.jobqueue.len ≠ 0) :
      Moves s (.caller c wakes) (s.callerTo c .sleeping) []
  | readLen (c wakes) (hpc : s.callers c = .wantLock) (hlock : s.thcount_lock = false)
      (hlen : s.jobqueue.len = 0) :
      Moves s (.caller c wakes) (({ s with thcount_lock := true }).callerTo c .readWorking) []
  | waitLonger (c wakes) (hpc : s.callers c = .readWorking)
      (hworking : s.num_threads_working ≠ 0) :
      Moves s (.caller c wakes) (({ s with thcount_lock := false }).callerTo c .sleeping) []
  | waited (c wakes) (hpc : s.callers c = .readWorking) (hworking : s.num_threads_working = 0) :
      Moves s (.caller c wakes) (({ s with thcount_lock := false }).callerTo c .idle) [.waited c]
  | stirCaller (c) (hpc : s.callers c = .sleeping) :
      Moves s (.stirCaller c) (s.callerTo c .wantLock) []
  -- the owner
  | opened (wakes) (hpc : s.owner = .opening) (halive : s.num_threads_alive = n) :
      Moves s (.owner wakes) { s with owner := .opened } [.opened]
  | destroy (hpc : s.owner = .opened) (hidle : ∀ c, s.callers c = .idle) :
      Moves s .destroy { s with owner := .closing s.num_threads_alive } []
  | close (wakes total) (hpc : s.owner = .closing total) :
      Moves s (.owner wakes) { s with threads_keepalive := false, owner := .polling total } []
  | poll (wakes total) (hpc : s.owner = .polling total) (halive : s.num_threads_alive ≠ 0) :
      Moves s (.owner wakes) { s with owner := .broadcasting total } []
  | alone (wakes total) (hpc : s.owner = .polling total) (halive : s.num_threads_alive = 0) :
      Moves s (.owner wakes) { s with owner := .clearing total } []
  | broadcast (wakes total) (hpc : s.owner = .broadcasting total) :
      Moves s (.owner wakes) { s.bsem_post_all with owner := .polling total } []
  | cleared (wakes total) (hpc : s.owner = .clearing total) (hlen : s.jobqueue.len = 0) :
      Moves s (.owner wakes)
        { s with jobqueue := { front := none, rear := none, len := 0 },
                 has_jobs := false, owner := .freeing total } []
  | dropNone (wakes total q posts) (hpc : s.owner = .clearing total) (hlen : s.jobqueue.len ≠ 0)
      (hpull : jobqueue_pull s.heap s.jobqueue = some (none, q, posts)) :
      Moves s (.owner wakes) { s with jobqueue := q } []
  | dropLast (wakes total a q job) (hpc : s.owner = .clearing total) (hlen : s.jobqueue.len ≠ 0)
      (hpull : jobqueue_pull s.heap s.jobqueue = some (some a, q, false))
      (hjob : s.heap a = some job) :
      Moves s (.owner wakes)
        { s with jobqueue := q, heap := update s.heap a none } [.dropped job.work]
  | dropOne (wakes total a q job) (hpc : s.owner = .clearing total) (hlen : s.jobqueue.len ≠ 0)
      (hpull : jobqueue_pull s.heap s.jobqueue = some (some a, q, true))
      (hjob : s.heap a = some job) (hwakes : s.signals wakes = true) :
      Moves s (.owner wakes)
        (({ s with jobqueue := q, heap := update s.heap a none }).bsem_post wakes)
        [.dropped job.work]
  | free (wakes total) (hpc : s.owner = .freeing total) (htotal : total ≤ n) :
      Moves s (.owner wakes)
        { s with threads := fun i => s.threads i && !decide ((i : Int) < total),
                 freed := true, owner := .done } [.destroyed]
  -- another pool
  | other (keepalive) :
      Moves s (.other keepalive) { s with threads_keepalive := keepalive } []

variable {s s' : Pool n m α} {t : List (PoolEvent n m α)}

/-! ## The inversion -/

theorem thread_do_moves {i : Fin n} {wakes : Option (Fin n)} {rouses : Option (Fin m)}
    (h : s.thread_do i wakes rouses = .next s' t) : Moves s (.worker i wakes rouses) s' t := by
  unfold thread_do at h
  split at h
  · cases h
  rename_i hmem
  split at h
  · cases h
  · cases h
  · cases h
  · rename_i hpc
    split at h
    · cases h
    · rename_i hlock
      obtain ⟨rfl, rfl⟩ := Outcome.next.inj h
      exact .start i wakes rouses hpc (Bool.eq_false_of_not_eq_true hlock)
  · rename_i hpc
    obtain ⟨rfl, rfl⟩ := Outcome.next.inj h
    cases hkeep : s.threads_keepalive with
    | true => exact .again i wakes rouses hpc hkeep
    | false => exact .leave i wakes rouses hpc hkeep
  · rename_i hpc
    split at h
    · rename_i hjobs
      obtain ⟨rfl, rfl⟩ := Outcome.next.inj h
      exact .take i wakes rouses hpc hjobs
    · rename_i hjobs
      obtain ⟨rfl, rfl⟩ := Outcome.next.inj h
      exact .sleep i wakes rouses hpc (Bool.eq_false_of_not_eq_true hjobs)
  · rename_i hpc
    obtain ⟨rfl, rfl⟩ := Outcome.next.inj h
    cases hkeep : s.threads_keepalive with
    | true => exact .keep i wakes rouses hpc hkeep
    | false => exact .turn i wakes rouses hpc hkeep
  · rename_i hpc
    split at h
    · cases h
    · rename_i hlock
      obtain ⟨rfl, rfl⟩ := Outcome.next.inj h
      exact .countIn i wakes rouses hpc (Bool.eq_false_of_not_eq_true hlock)
  · rename_i hpc
    split at h
    · cases h
    rename_i hlock
    have hfree := Bool.eq_false_of_not_eq_true hlock
    split at h
    · cases h
    · rename_i q posts hpull
      obtain ⟨rfl, rfl⟩ := Outcome.next.inj h
      exact .pullNone i wakes rouses q posts hpc hfree hpull
    · rename_i a q posts hpull
      split at h
      · cases h
      · rename_i job hjob
        obtain ⟨rfl, rfl⟩ := Outcome.next.inj h
        cases posts with
        | true => exact .pullOne i wakes rouses a q job hpc hfree hpull hjob
        | false => exact .pullLast i wakes rouses a q job hpc hfree hpull hjob
  · rename_i a w hpc
    split at h
    · rename_i hwakes
      obtain ⟨rfl, rfl⟩ := Outcome.next.inj h
      exact .post i wakes rouses a w hpc hwakes
    · cases h
  · rename_i a w hpc
    split at h
    · cases h
    · rename_i job hjob
      obtain ⟨rfl, rfl⟩ := Outcome.next.inj h
      exact .finish i wakes rouses a w job hpc hjob
  · rename_i hpc
    split at h
    · cases h
    rename_i hlock
    have hfree := Bool.eq_false_of_not_eq_true hlock
    split at h
    · rename_i hlast
      split at h
      · rename_i hrouses
        obtain ⟨rfl, rfl⟩ := Outcome.next.inj h
        exact .countOutLast i wakes rouses hpc hfree hlast hrouses
      · cases h
    · rename_i hlast
      obtain ⟨rfl, rfl⟩ := Outcome.next.inj h
      exact .countOut i wakes rouses hpc hfree hlast
  · rename_i hpc
    split at h
    · cases h
    · rename_i hlock
      obtain ⟨rfl, rfl⟩ := Outcome.next.inj h
      exact .die i wakes rouses hpc (Bool.eq_false_of_not_eq_true hlock)
  · rename_i hpc
    obtain ⟨rfl, rfl⟩ := Outcome.next.inj h
    rw [hpc] at hmem
    exact .unlock i wakes rouses hpc (by simpa [WorkerPc.touchesPool] using hmem)

theorem callStep_moves {c : Fin m} {wakes : Option (Fin n)}
    (h : s.callStep c wakes = .next s' t) : Moves s (.caller c wakes) s' t := by
  unfold callStep at h
  split at h
  · cases h
  · cases h
  all_goals
    rename_i hpc
    split at h
    · cases h
  · split at h
    · cases h
    rename_i hlock
    split at h
    · cases h
    · rename_i heap q hpush
      obtain ⟨rfl, rfl⟩ := Outcome.next.inj h
      exact .push c wakes _ _ heap q hpc (Bool.eq_false_of_not_eq_true hlock) hpush
  · split at h
    · rename_i hwakes
      obtain ⟨rfl, rfl⟩ := Outcome.next.inj h
      exact .callerPost c wakes hpc hwakes
    · cases h
  · split at h
    · cases h
    rename_i hlock
    have hfree := Bool.eq_false_of_not_eq_true hlock
    split at h
    · rename_i hlen
      obtain ⟨rfl, rfl⟩ := Outcome.next.inj h
      exact .waitMore c wakes hpc hfree hlen
    · rename_i hlen
      obtain ⟨rfl, rfl⟩ := Outcome.next.inj h
      exact .readLen c wakes hpc hfree (not_not.mp hlen)
  · split at h
    · rename_i hworking
      obtain ⟨rfl, rfl⟩ := Outcome.next.inj h
      exact .waitLonger c wakes hpc hworking
    · rename_i hworking
      obtain ⟨rfl, rfl⟩ := Outcome.next.inj h
      exact .waited c wakes hpc (not_not.mp hworking)

theorem jobqueue_clear_moves {total : Int} {wakes : Option (Fin n)}
    (hpc : s.owner = .clearing total) (h : s.jobqueue_clear total wakes = .next s' t) :
    Moves s (.owner wakes) s' t := by
  unfold jobqueue_clear at h
  split at h
  · rename_i hlen
    obtain ⟨rfl, rfl⟩ := Outcome.next.inj h
    exact .cleared wakes total hpc hlen
  rename_i hlen
  split at h
  · cases h
  · rename_i q posts hpull
    obtain ⟨rfl, rfl⟩ := Outcome.next.inj h
    exact .dropNone wakes total q posts hpc hlen hpull
  · rename_i a q posts hpull
    split at h
    · cases h
    rename_i job hjob
    cases posts with
    | true =>
      simp only [if_true] at h
      split at h
      · rename_i hwakes
        obtain ⟨rfl, rfl⟩ := Outcome.next.inj h
        exact .dropOne wakes total a q job hpc hlen hpull hjob hwakes
      · cases h
    | false =>
      simp only [Bool.false_eq_true, if_false] at h
      obtain ⟨rfl, rfl⟩ := Outcome.next.inj h
      exact .dropLast wakes total a q job hpc hlen hpull hjob

theorem ownStep_moves {wakes : Option (Fin n)} (h : s.ownStep wakes = .next s' t) :
    Moves s (.owner wakes) s' t := by
  unfold ownStep at h
  split at h
  · rename_i hpc
    split at h
    · rename_i halive
      obtain ⟨rfl, rfl⟩ := Outcome.next.inj h
      exact .opened wakes hpc halive
    · cases h
  · cases h
  · cases h
  · rename_i total hpc
    obtain ⟨rfl, rfl⟩ := Outcome.next.inj h
    exact .close wakes total hpc
  · rename_i total hpc
    split at h
    · rename_i halive
      obtain ⟨rfl, rfl⟩ := Outcome.next.inj h
      exact .poll wakes total hpc halive
    · rename_i halive
      obtain ⟨rfl, rfl⟩ := Outcome.next.inj h
      exact .alone wakes total hpc (not_not.mp halive)
  · rename_i total hpc
    obtain ⟨rfl, rfl⟩ := Outcome.next.inj h
    exact .broadcast wakes total hpc
  · rename_i total hpc
    exact jobqueue_clear_moves hpc h
  · rename_i total hpc
    split at h
    · cases h
    · rename_i htotal
      obtain ⟨rfl, rfl⟩ := Outcome.next.inj h
      exact .free wakes total hpc (by omega)

theorem act_moves {a : PoolAction n m α} (h : act a s = .next s' t) : Moves s a s' t := by
  cases a with
  | worker i wakes rouses => exact thread_do_moves h
  | caller c wakes => exact callStep_moves h
  | owner wakes => exact ownStep_moves h
  | add c w newjob =>
    rw [act] at h
    unfold thpool_add_work at h
    split at h
    · rename_i hidle
      cases newjob with
      | none =>
        obtain ⟨rfl, rfl⟩ := Outcome.next.inj h
        exact .refuse c w hidle.1 (CallerPc.isIdle_iff.mp hidle.2)
      | some a =>
        simp only at h
        split at h
        · rename_i hfresh
          obtain ⟨rfl, rfl⟩ := Outcome.next.inj h
          exact .alloc c w a hidle.1 (CallerPc.isIdle_iff.mp hidle.2)
            (Option.isNone_iff_eq_none.mp hfresh)
        · cases h
    · cases h
  | wait c =>
    rw [act, thpool_wait] at h
    split at h
    · rename_i hidle
      obtain ⟨rfl, rfl⟩ := Outcome.next.inj h
      exact .wait c hidle.1 (CallerPc.isIdle_iff.mp hidle.2)
    · cases h
  | destroy =>
    rw [act, thpool_destroy] at h
    split at h
    · rename_i hidle
      obtain ⟨rfl, rfl⟩ := Outcome.next.inj h
      exact .destroy hidle.1 fun c => CallerPc.isIdle_iff.mp (hidle.2 c)
    · cases h
  | stirWorker i =>
    rw [act] at h
    split at h
    · rename_i hpc
      obtain ⟨rfl, rfl⟩ := Outcome.next.inj h
      exact .stirWorker i (WorkerPc.isAsleep_iff.mp hpc)
    · cases h
  | stirCaller c =>
    rw [act] at h
    split at h
    · rename_i hpc
      obtain ⟨rfl, rfl⟩ := Outcome.next.inj h
      exact .stirCaller c (CallerPc.isSleeping_iff.mp hpc)
    · cases h
  | other keepalive =>
    rw [act] at h
    obtain ⟨rfl, rfl⟩ := Outcome.next.inj h
    exact .other keepalive

end Pool

end NoGround
