/-
  Pool/Drain.lean --- no wakeup is lost: a pool left alone runs all its jobs.

  A semaphore post is one bit, and a signal wakes one thread, so a wakeup could get lost
  between the workers.  It does not: as long as a job is queued, the semaphore is up, or a
  thread is about to post it, or a worker that took it has yet to look into the queue; and as
  long as the semaphore is up while a worker sleeps, a worker is awake to take it (`Woken`).
  The first of these needs that no other pool of the process is destroyed.

  `rank` counts what is left to do.  Every step of a thread lowers it, so the pool comes to
  rest after a bounded number of them, whatever the schedule; and `thpool_drains` says that an
  open pool rests only when every job that was added has run to its end.  Where another pool is
  destroyed, `thpool_other_strands` is a run after which an open pool rests with a job queued.
-/
import NoGround.Pool.Waiting

set_option autoImplicit false

namespace NoGround

open NoGround.Lib
open Function (update)

variable {n m : Nat} {α : Type}

/-! ## What is left to do -/

/-- The steps a worker has before it, with those its post makes others take. -/
def WorkerPc.rank : WorkerPc α → Int
  | .unmade | .asleep | .gone => 0
  | .waiting | .unlocking => 1
  | .ending => 2
  | .looping => 3
  | .starting => 4
  | .leaving => 6
  | .running _ _ => 7
  | .pulling => 8
  | .counting => 9
  | .taken => 10
  | .posting _ _ => 19

/-- The steps a caller has before it, with those its job makes the workers take. -/
def CallerPc.rank : CallerPc α → Int
  | .idle | .sleeping => 0
  | .readWorking => 1
  | .wantLock => 2
  | .posting => 12
  | .pushing _ _ => 25

/-- What an action may add to the work of the pool. -/
def PoolAction.cost : PoolAction n m α → Nat
  | .worker _ _ _ | .caller _ _ => 0
  | .owner _ => n + 11
  | .add _ _ _ => 26
  | .wait _ => 3
  | .destroy => 1
  | .stirWorker _ => 2
  | .stirCaller _ => 3
  | .other _ => 1

/-- The step of a worker or of a caller, rather than a call or a wakeup out of nothing. -/
def PoolAction.isStep : PoolAction n m α → Bool
  | .worker _ _ _ | .caller _ _ => true
  | _ => false

theorem PoolAction.cost_of_isStep {a : PoolAction n m α} (h : a.isStep = true) : a.cost = 0 := by
  cases a with
  | worker | caller => rfl
  | _ => exact nomatch h

theorem WorkerPc.rank_nonneg (pc : WorkerPc α) : 0 ≤ pc.rank := by
  cases pc <;> simp [rank]

theorem CallerPc.rank_nonneg (pc : CallerPc α) : 0 ≤ pc.rank := by
  cases pc <;> simp [rank]

/-- A pull that does not post leaves nothing behind. -/
theorem jobqueue_pull_last {heap : Nat → Option (Job α)} {q q' : Jobqueue} {p : Option Nat}
    (h : jobqueue_pull heap q = some (p, q', false)) : q'.len = 0 := by
  unfold jobqueue_pull at h
  split at h
  · obtain ⟨-, rfl⟩ : q.front = p ∧ q = q' := by simpa using h
    assumption
  · obtain ⟨-, rfl⟩ : _ ∧ { front := none, rear := none, len := 0 } = q' := by simpa using h
    rfl
  · rename_i len hlen
    cases hfront : q.front with
    | none => simp [hfront] at h
    | some a => cases hjob : heap a <;> simp [hfront, hjob] at h

/-- A pull that posts took one job and left others. -/
theorem jobqueue_pull_more {heap : Nat → Option (Job α)} {q q' : Jobqueue} {p : Option Nat}
    (h : jobqueue_pull heap q = some (p, q', true)) :
    q.len = q'.len + 1 ∧ q'.len ≠ 0 ∧ p ≠ none := by
  unfold jobqueue_pull at h
  split at h
  · simp at h
  · simp at h
  · rename_i len hlen
    cases hfront : q.front with
    | none => simp [hfront] at h
    | some a =>
      cases hjob : heap a with
      | none => simp [hfront, hjob] at h
      | some job =>
        obtain ⟨rfl, rfl⟩ : some a = p ∧ _ = q' := by simpa [hfront, hjob] using h
        simp [hlen]

theorem jobqueue_pull_none {heap : Nat → Option (Job α)} {q q' : Jobqueue} {posts : Bool}
    (h : jobqueue_pull heap q = some (none, q', posts)) : q'.len = 0 := by
  cases posts with
  | false => exact jobqueue_pull_last h
  | true => exact absurd rfl (jobqueue_pull_more h).2.2

theorem jobqueue_push_len {heap heap' : Nat → Option (Job α)} {q q' : Jobqueue} {newjob : Nat}
    (h : jobqueue_push heap q newjob = some (heap', q')) : q'.len = q.len + 1 := by
  unfold jobqueue_push at h
  cases hjob : heap newjob with
  | none => simp [hjob] at h
  | some job =>
    simp only [hjob, Option.bind_eq_bind, Option.bind_some] at h
    split at h
    · obtain ⟨-, rfl⟩ := Prod.mk.inj (Option.some.inj h)
      simp_all
    · cases hrear : q.rear with
      | none => simp [hrear] at h
      | some rear =>
        simp only [hrear, Option.bind_some] at h
        cases hlast : update heap newjob (some { job with prev := none }) rear with
        | none => simp [hlast] at h
        | some last =>
          simp only [hlast, Option.bind_some] at h
          obtain ⟨-, rfl⟩ := Prod.mk.inj (Option.some.inj h)
          simp_all

namespace Pool

variable {s s' : Pool n m α} {t u : List (PoolEvent n m α)} {a : PoolAction n m α}

/-- The steps that the pool has before it. -/
def rank (s : Pool n m α) : Int :=
  tally WorkerPc.rank s.workers + tally CallerPc.rank s.callers + 10 * bit s.has_jobs +
    12 * s.jobqueue.len

theorem rank_nonneg (s : Pool n m α) : 0 ≤ s.rank := by
  have hworkers : 0 ≤ tally WorkerPc.rank s.workers :=
    Finset.sum_nonneg fun i _ => WorkerPc.rank_nonneg (s.workers i)
  have hcallers : 0 ≤ tally CallerPc.rank s.callers :=
    Finset.sum_nonneg fun c _ => CallerPc.rank_nonneg (s.callers c)
  have hbit := bit_nonneg s.has_jobs
  unfold rank
  omega

theorem rank_woke {wakes : Option (Fin n)} (hwakes : s.signals wakes = true) :
    tally WorkerPc.rank (wake s.workers .waiting wakes) ≤ tally WorkerPc.rank s.workers + 1 := by
  apply tally_wake_le (by decide) hwakes
  intro q hq
  rw [WorkerPc.isAsleep_iff.mp hq]
  exact le_refl (1 : Int)

theorem rank_roused {rouses : Option (Fin m)}
    (hrouses : wakesOne CallerPc.isSleeping s.callers rouses = true) :
    tally CallerPc.rank (wake s.callers .wantLock rouses) ≤ tally CallerPc.rank s.callers + 2 := by
  apply tally_wake_le (by decide) hrouses
  intro q hq
  rw [CallerPc.isSleeping_iff.mp hq]
  exact le_refl (2 : Int)

theorem rank_woken :
    tally WorkerPc.rank (fun i => (s.workers i).woken) ≤ tally WorkerPc.rank s.workers + n * 1 := by
  apply tally_map_le
  intro q
  cases q <;> simp [WorkerPc.woken, WorkerPc.rank]

/-- Every step takes something off what is left to do, but for what its action brings. -/
theorem rank_moves (hm : Moves s a s' t) : s'.rank + 1 ≤ s.rank + a.cost := by
  have hbit := bit_nonneg s.has_jobs
  have hup := bit_le_one s.has_jobs
  cases hm with
  | pullNone _ _ _ _ _ _ _ hpull | dropNone _ _ _ _ _ _ hpull =>
    have hlen := jobqueue_pull_none hpull
    simp_all [rank, WorkerPc.rank, PoolAction.cost]
    omega
  | pullLast _ _ _ _ _ _ _ _ hpull | dropLast _ _ _ _ _ _ _ hpull =>
    have hlen := jobqueue_pull_last hpull
    simp_all [rank, WorkerPc.rank, PoolAction.cost]
    omega
  | pullOne _ _ _ _ _ _ _ _ hpull =>
    have hlen := (jobqueue_pull_more hpull).1
    simp_all [rank, WorkerPc.rank, PoolAction.cost]
    omega
  | dropOne _ _ _ _ _ _ _ hpull _ hwakes =>
    have hlen := (jobqueue_pull_more hpull).1
    have hwoke := rank_woke hwakes
    simp_all [rank, PoolAction.cost]
    omega
  | push _ _ _ _ _ _ _ _ hpush =>
    have hlen := jobqueue_push_len hpush
    simp_all [rank, CallerPc.rank, PoolAction.cost]
    omega
  | post _ _ _ _ _ _ hwakes | callerPost _ _ _ hwakes =>
    have hwoke := rank_woke hwakes
    simp_all [rank, WorkerPc.rank, CallerPc.rank, PoolAction.cost]
    omega
  | countOutLast _ _ _ _ _ _ hrouses =>
    have hroused := rank_roused hrouses
    simp_all [rank, WorkerPc.rank, PoolAction.cost]
    omega
  | broadcast =>
    have hwoken := rank_woken (s := s)
    simp_all [rank, PoolAction.cost]
    omega
  | _ => simp_all [rank, WorkerPc.rank, CallerPc.rank, PoolAction.cost] <;> omega

/-! ## No wakeup is lost -/

/-- A queued job is on its way to a worker, and a raised semaphore to one that is awake. -/
structure Woken (s : Pool n m α) : Prop where
  coming : s.owner.hasClosed = false → s.jobqueue.len ≠ 0 →
    s.has_jobs = true ∨ s.rwmutex = true ∨ 0 < count WorkerPc.isComing s.workers
  awake : s.has_jobs = true → 0 < count WorkerPc.isAsleep s.workers →
    0 < count WorkerPc.isWaiting s.workers

/-- A worker that took the semaphore goes on to the queue, `threads_keepalive` being up. -/
theorem coming_moves (hs : s.Manned) (h : s.Woken) (hm : Moves s a s' t) :
    s'.owner.hasClosed = false → s'.jobqueue.len ≠ 0 →
      s'.has_jobs = true ∨ s'.rwmutex = true ∨ 0 < count WorkerPc.isComing s'.workers := by
  have hkeep := hs.keepalive
  have hcoming := h.coming
  have hcount := count_nonneg WorkerPc.isComing s.workers
  cases hm with
  | pullNone _ _ _ _ _ _ _ hpull =>
    have hlen := jobqueue_pull_none hpull
    simp_all
  | pullLast _ _ _ _ _ _ _ _ hpull =>
    have hlen := jobqueue_pull_last hpull
    simp_all
  | opened | destroy | close | poll | alone | broadcast | cleared | dropNone | dropLast | dropOne
  | free => simp_all [OwnerPc.hasClosed]
  | take i =>
    intro _ _
    exact Or.inr (Or.inr (count_pos (i := i) (by simp [WorkerPc.isComing])))
  | _ => simp_all [WorkerPc.isComing]

theorem awake_moves (h : s.Woken) (hm : Moves s a s' t) :
    s'.has_jobs = true → 0 < count WorkerPc.isAsleep s'.workers →
      0 < count WorkerPc.isWaiting s'.workers := by
  have hawake := h.awake
  have hcount := count_nonneg WorkerPc.isWaiting s.workers
  have hcount' := count_nonneg WorkerPc.isAsleep s.workers
  have hwoke : ∀ {wakes : Option (Fin n)}, s.signals wakes = true →
      count WorkerPc.isAsleep (wake s.workers .waiting wakes) = 0 ∨
        0 < count WorkerPc.isWaiting (wake s.workers .waiting wakes) := fun hwakes =>
    count_wake_pos hwakes rfl
  cases hm with
  | post _ _ _ _ _ _ hwakes | callerPost _ _ _ hwakes | dropOne _ _ _ _ _ _ _ _ _ hwakes =>
    intro _ hasleep
    rcases hwoke hwakes with hnone | hsome
    · simp_all [WorkerPc.isAsleep]
    · simp_all [WorkerPc.isWaiting]
  | broadcast =>
    have hnone : count WorkerPc.isAsleep (fun i => (s.workers i).woken) = 0 := by
      rw [count_eq_zero]
      intro i
      cases s.workers i <;> rfl
    simp_all
  | again i | stirWorker i =>
    intro _ _
    exact count_pos (i := i) (by simp [WorkerPc.isWaiting])
  | _ => simp_all [WorkerPc.isAsleep, WorkerPc.isWaiting]

theorem Woken.moves (hs : s.Manned) (h : s.Woken) (hm : Moves s a s' t) : s'.Woken where
  coming := coming_moves hs h hm
  awake := awake_moves h hm

theorem woken_init (made : Fin n → Bool) : (thpool_init (m := m) (α := α) made).Woken where
  coming := fun _ h => absurd rfl h
  awake := nofun

/-! ## A pool at rest -/

/-- No worker and no caller can go on. -/
def Settled (s : Pool n m α) : Prop := ∀ a : PoolAction n m α, a.isStep = true → act a s = .blocked

/-- A worker that cannot go on holds no lock, and wants one unless it sleeps or is no more. -/
theorem thread_do_blocked {i : Fin n}
    (h : ∀ wakes rouses, s.thread_do i wakes rouses = .blocked) :
    (s.workers i).holdsCount = false ∧ (s.workers i).holdsQueue = false ∧
      (s.thcount_lock = false → s.rwmutex = false →
        s.workers i = .unmade ∨ s.workers i = .asleep ∨ s.workers i = .gone) := by
  obtain ⟨wakes, hwakes⟩ := exists_wakesOne WorkerPc.isAsleep s.workers
  obtain ⟨rouses, hrouses⟩ := exists_wakesOne CallerPc.isSleeping s.callers
  have hblocked := h wakes rouses
  unfold thread_do at hblocked
  split at hblocked
  · cases hblocked
  have hsignals : s.signals wakes = true := hwakes
  cases hpc : s.workers i with
  | unmade | asleep | gone => simp [WorkerPc.holdsCount, WorkerPc.holdsQueue]
  | starting | counting | ending | pulling =>
    refine ⟨rfl, rfl, ?_⟩
    intro hcount hqueue
    exfalso
    simp only [hpc, hcount, hqueue, Bool.false_eq_true, if_false] at hblocked
    try (repeat' split at hblocked)
    all_goals cases hblocked
  | leaving =>
    refine ⟨rfl, rfl, ?_⟩
    intro hcount hqueue
    exfalso
    simp only [hpc, hcount, Bool.false_eq_true, if_false] at hblocked
    split at hblocked <;> cases hblocked
  | _ =>
    exfalso
    simp only [hpc, hsignals, if_true] at hblocked
    try (repeat' split at hblocked)
    all_goals cases hblocked

theorem callStep_blocked {c : Fin m} (h : ∀ wakes, s.callStep c wakes = .blocked) :
    (s.callers c).holdsCount = false ∧ (s.callers c).holdsQueue = false ∧
      (s.thcount_lock = false → s.rwmutex = false →
        s.callers c = .idle ∨ s.callers c = .sleeping) := by
  obtain ⟨wakes, hwakes⟩ := exists_wakesOne WorkerPc.isAsleep s.workers
  have hblocked := h wakes
  have hsignals : s.signals wakes = true := hwakes
  unfold callStep at hblocked
  cases hpc : s.callers c with
  | idle | sleeping => simp [CallerPc.holdsCount, CallerPc.holdsQueue]
  | pushing | wantLock =>
    refine ⟨rfl, rfl, ?_⟩
    intro hcount hqueue
    exfalso
    simp only [hpc, hcount, hqueue, Bool.false_eq_true, if_false] at hblocked
    (repeat' split at hblocked) <;> cases hblocked
  | posting | readWorking =>
    exfalso
    simp only [hpc, hsignals, if_true] at hblocked
    (repeat' split at hblocked) <;> cases hblocked

theorem settled_of_rest (hfreed : s.freed = false)
    (hworkers : ∀ i, s.workers i = .asleep ∨ s.workers i = .gone)
    (hcallers : ∀ c, s.callers c = .idle ∨ s.callers c = .sleeping) : s.Settled := by
  intro a ha
  cases a with
  | worker i wakes rouses =>
    show s.thread_do i wakes rouses = .blocked
    unfold thread_do
    rcases hworkers i with hpc | hpc <;> rw [hpc, hfreed] <;> rfl
  | caller c wakes =>
    show s.callStep c wakes = .blocked
    unfold callStep
    rcases hcallers c with hpc | hpc <;> rw [hpc]
  | _ => exact nomatch ha

/-- In a pool at rest nobody holds a lock, every worker sleeps and every caller is out of the
pool or waits for the end of the work. -/
theorem Settled.at_rest {l : List (Nat × α)} (h : s.Settled) (hk : Kept t s l) (hs : s.Manned)
    (hopen : s.owner = .opened) :
    (∀ i, s.workers i = .asleep) ∧ (∀ c, s.callers c = .idle ∨ s.callers c = .sleeping) ∧
      s.thcount_lock = false ∧ s.rwmutex = false := by
  have hworker := fun i => thread_do_blocked (s := s) (i := i) fun wakes rouses =>
    h (.worker i wakes rouses) rfl
  have hcaller := fun c => callStep_blocked (s := s) (c := c) fun wakes =>
    h (.caller c wakes) rfl
  have hcount : s.thcount_lock = false := (free_iff hk.counted.countLock).mpr
    ⟨fun i => (hworker i).1, fun c => (hcaller c).1⟩
  have hqueue : s.rwmutex = false := (free_iff hk.counted.queueLock).mpr
    ⟨fun i => (hworker i).2.1, fun c => (hcaller c).2.1⟩
  refine ⟨?_, fun c => (hcaller c).2.2 hcount hqueue, hcount, hqueue⟩
  intro i
  have hborn := count_eq_zero.mp (hk.phased.born (by rw [hopen]; exact nofun)) i
  have hstayed := count_eq_zero.mp (hs.stayed (by rw [hopen]; rfl)) i
  rcases (hworker i).2.2 hcount hqueue with hpc | hpc | hpc
  · rw [hpc] at hborn
    exact nomatch hborn
  · exact hpc
  · rw [hpc] at hstayed
    exact nomatch hstayed

/-- A pool at rest that has a worker has no job left. -/
theorem Settled.drained {l : List (Nat × α)} (h : s.Settled) (hk : Kept t s l) (hs : s.Manned)
    (hw : s.Woken) (hopen : s.owner = .opened) (hn : 0 < n) : s.jobqueue.len = 0 := by
  obtain ⟨hasleep, -, -, hqueue⟩ := h.at_rest hk hs hopen
  by_contra hlen
  have hnone : ∀ P : WorkerPc α → Bool, P .asleep = false → ¬ 0 < count P s.workers := by
    intro P hP
    rw [count_eq_zero.mpr fun i => by rw [hasleep i, hP]]
    exact lt_irrefl 0
  rcases hw.coming (by rw [hopen]; rfl) hlen with hjobs | hheld | hcoming
  · have hsome : 0 < count WorkerPc.isAsleep s.workers := by
      apply count_pos (i := ⟨0, hn⟩)
      rw [hasleep]
      rfl
    exact hnone _ rfl (hw.awake hjobs hsome)
  · rw [hqueue] at hheld
    exact nomatch hheld
  · exact hnone _ rfl hcoming

theorem woken_of_run {made : Fin n → Bool} {as : List (PoolAction n m α)}
    (hrun : carryOut act as (thpool_init made) = .next s t) (hsole : .other false ∉ as) :
    s.Manned ∧ s.Woken := by
  obtain ⟨-, h⟩ : (∃ l, Kept t s l) ∧ s.Manned ∧ s.Woken := by
    apply carryOut_invariant_mem (fun t s => (∃ l, Kept t s l) ∧ s.Manned ∧ s.Woken) _
      ⟨⟨[], kept_init made⟩, manned_init made, woken_init made⟩ hrun
    rintro t a s u s' ha ⟨⟨l, hk⟩, hs, h⟩ hact
    have hother : a ≠ .other false := fun heq => hsole (heq ▸ ha)
    have hm := act_moves hact
    exact ⟨hk.moves hm, hs.moves hk.counted hk.phased hother hm, h.moves hs hm⟩
  exact h

/-- From any state, the workers and callers take at most `rank` steps by themselves. -/
theorem steps_le_rank {as : List (PoolAction n m α)} (hsteps : ∀ a ∈ as, a.isStep = true)
    (hrun : carryOut act as s = .next s' t) : (as.length : Int) ≤ s.rank := by
  have hrank := carryOut_rank rank PoolAction.cost
    (fun a m u m' hact => rank_moves (act_moves hact)) hrun
  have hfree : (as.map PoolAction.cost).sum = 0 := by
    rw [List.sum_eq_zero_iff]
    intro k hk
    obtain ⟨a, ha, rfl⟩ := List.mem_map.mp hk
    exact PoolAction.cost_of_isStep (hsteps a ha)
  have hnonneg := rank_nonneg s'
  omega

/-- A pool at rest has nothing in memory but itself. -/
theorem Settled.heap {l : List (Nat × α)} (h : s.Settled) (hk : Kept t s l) (hs : s.Manned)
    (hopen : s.owner = .opened) (hlen : s.jobqueue.len = 0) (a : Nat) : s.heap a = none := by
  obtain ⟨hasleep, hcallers, -⟩ := h.at_rest hk hs hopen
  have hl : l = [] := List.length_eq_zero_iff.mp (hk.stored.holds.len.symm.trans hlen)
  have hjob : ∀ c, (s.callers c).job = 0 := by
    intro c
    rcases hcallers c with hpc | hpc <;> rw [hpc] <;> rfl
  have howned : s.owned l = 0 := by
    rw [owned, hl, tally, tally, Finset.sum_eq_zero fun i _ => by rw [hasleep i]; rfl,
      Finset.sum_eq_zero fun c _ => hjob c]
    rfl
  by_contra hne
  have := (hk.stored.owns.mem_iff a).mpr hne
  rw [howned] at this
  exact Multiset.notMem_zero a this

/-- A pool with a worker runs every job that was added, if no other pool is destroyed.  From
any state of any such run, its threads take no more than `rank` steps without a call or a
wakeup out of nothing; and where they can take none, the pool being open, all jobs are done and
all workers sleep. -/
theorem thpool_drains {made : Fin n → Bool} {as : List (PoolAction n m α)}
    (hrun : carryOut act as (thpool_init made) = .next s t) (hsole : .other false ∉ as)
    (hopen : s.owner = .opened) (hn : 0 < n) :
    (∀ bs s' u, (∀ b ∈ bs, b.isStep = true) → carryOut act bs s = .next s' u →
      (bs.length : Int) ≤ s.rank) ∧
    (s.Settled → (finishedOf t).Perm (addedOf t) ∧ (∀ i, s.workers i = .asleep) ∧
      ∀ a, s.heap a = none) := by
  obtain ⟨l, hk⟩ := kept_of_run hrun
  refine ⟨fun bs s' u hsteps hmore => steps_le_rank hsteps hmore, ?_⟩
  intro hset
  obtain ⟨hs, hw⟩ := woken_of_run hrun hsole
  have hlen := hset.drained hk hs hw hopen hn
  have hasleep := (hset.at_rest hk hs hopen).1
  have hworking : s.num_threads_working = 0 := by
    rw [hk.counted.working, count_eq_zero]
    intro i
    rw [hasleep i]
    rfl
  exact ⟨hk.idle hopen hlen hworking, hasleep, hset.heap hk hs hopen hlen⟩

theorem aJob_rest : (after aJob).1.owner = .opened ∧ (after aJob).1.Settled := by
  have hend : (after aJob).1.owner = .opened ∧ (after aJob).1.freed = false ∧
      (∀ i, (after aJob).1.workers i = .asleep) ∧
      ∀ c, (after aJob).1.callers c = .idle ∨ (after aJob).1.callers c = .sleeping := by
    decide +kernel
  exact ⟨hend.1, settled_of_rest hend.2.1 (fun i => Or.inl (hend.2.2.1 i)) hend.2.2.2⟩

theorem thpool_drains_job :
    (finishedOf (after aJob).2).Perm (addedOf (after aJob).2) ∧
      (∀ i, (after aJob).1.workers i = .asleep) ∧ ∀ a, (after aJob).1.heap a = none :=
  (thpool_drains aJob_run (by decide) aJob_rest.1 (by decide)).2 aJob_rest.2

/-- When another pool is destroyed, the workers of an open one may leave: it rests with a job in
its queue that nothing will run. -/
theorem thpool_other_strands :
    ∃ (as : List (PoolAction 1 2 Nat)) (s : Pool 1 2 Nat) (t : List (PoolEvent 1 2 Nat)),
      carryOut act as (thpool_init fun _ => true) = .next s t ∧ s.owner = .opened ∧ s.Settled ∧
        addedOf t = [7] ∧ finishedOf t = [] ∧ s.workers 0 = .gone := by
  have hend : (after anotherEnds).1.owner = .opened ∧ (after anotherEnds).1.freed = false ∧
      (∀ i, (after anotherEnds).1.workers i = .gone) ∧
      (∀ c, (after anotherEnds).1.callers c = .idle ∨
        (after anotherEnds).1.callers c = .sleeping) ∧
      addedOf (after anotherEnds).2 = [7] ∧ finishedOf (after anotherEnds).2 = [] := by
    decide +kernel
  obtain ⟨hopen, hfreed, hgone, hcallers, hadded, hfinished⟩ := hend
  exact ⟨anotherEnds, (after anotherEnds).1, (after anotherEnds).2,
    Outcome.eq_next (by decide +kernel) _, hopen,
    settled_of_rest hfreed (fun i => Or.inr (hgone i)) hcallers, hadded, hfinished, hgone 0⟩

end Pool

end NoGround
