/-
  Pool/Jobs.lean --- no job is lost, none runs twice, and nothing is left behind.

  `thpool_jobs` is the account of a run, whatever the schedule: what was added is what was
  taken out of the queue, in the order it was added, and what is still queued; what was taken
  has been run to its end once, or is being run, or was dropped by `thpool_destroy`, which
  drops nothing as long as a worker is alive.  Once it has returned, no job and no queued entry
  is left in memory; and no thread, unless another pool was destroyed in the meantime, for then
  workers of this pool may have left that `thpool_destroy` no longer counts.

  `thpool_fault` says what can go wrong with that memory.  The last thing a worker does is to
  unlock `thcount_lock`, and `thpool_destroy` waits for its count, not for its unlock: the last
  worker may unlock a lock that is already freed.  No other step of any thread, in any
  schedule, touches memory that is not there.
-/
import NoGround.Pool.Queue

set_option autoImplicit false

namespace NoGround

open NoGround.Lib
open Function (update)

namespace Pool

variable {n m : Nat} {α : Type} {s s' : Pool n m α} {t u : List (PoolEvent n m α)}
  {a : PoolAction n m α} {l : List (Nat × α)}

/-- What was run to its end, in order. -/
def finishedOf (t : List (PoolEvent n m α)) : List α :=
  t.filterMap fun
    | .finished _ w => some w
    | _ => none

/-- What `jobqueue_clear` freed, in order. -/
def droppedOf (t : List (PoolEvent n m α)) : List α :=
  t.filterMap fun
    | .dropped w => some w
    | _ => none

theorem addedOf_append : addedOf (t ++ u) = addedOf t ++ addedOf u := List.filterMap_append

theorem takenOf_append : takenOf (t ++ u) = takenOf t ++ takenOf u := List.filterMap_append

theorem finishedOf_append : finishedOf (t ++ u) = finishedOf t ++ finishedOf u :=
  List.filterMap_append

theorem droppedOf_append : droppedOf (t ++ u) = droppedOf t ++ droppedOf u :=
  List.filterMap_append

/-- What a step takes out of the queue comes into a worker's hands, or is dropped; what leaves
a worker's hands is finished. -/
theorem work_moves (hm : Moves s a s' t) :
    (takenOf t : Multiset α) + tally WorkerPc.work s.workers =
      (finishedOf t : Multiset α) + (droppedOf t : Multiset α) +
        tally WorkerPc.work s'.workers := by
  classical
  have hmem : ∀ {i : Fin n} {w : α}, w ∈ (s.workers i).work →
      ∃ T, tally WorkerPc.work s.workers = w ::ₘ T := fun {i} _ hw =>
    Multiset.exists_cons_of_mem (mem_tally.mpr ⟨i, hw⟩)
  cases hm with
  | post i _ _ b w hpc hwakes =>
    obtain ⟨T, hT⟩ := hmem (i := i) (by rw [hpc]; exact Multiset.mem_singleton_self w)
    simp [takenOf, finishedOf, droppedOf, hpc, hwakes, WorkerPc.work, hT,
      ← Multiset.singleton_add, add_comm]
  | pullLast i _ _ b q job hpc | pullOne i _ _ b q job hpc =>
    simp [takenOf, finishedOf, droppedOf, hpc, WorkerPc.work, add_comm]
  | finish i _ _ b w job hpc =>
    obtain ⟨T, hT⟩ := hmem (i := i) (by rw [hpc]; exact Multiset.mem_singleton_self w)
    simp [takenOf, finishedOf, droppedOf, hpc, WorkerPc.work, hT]
  | _ => simp_all [takenOf, finishedOf, droppedOf, WorkerPc.work]

/-- A job is dropped only when no worker is left. -/
theorem dropped_moves (h : droppedOf t ≠ [] → s.owner.isAlone = true) (hm : Moves s a s' u) :
    droppedOf (t ++ u) ≠ [] → s'.owner.isAlone = true := by
  rw [droppedOf_append]
  intro hne
  have hkept : s.owner.isAlone = true → s'.owner.isAlone = true := by
    intro halone
    cases hm with
    | opened _ hpc | destroy hpc | close _ _ hpc | poll _ _ hpc | broadcast _ _ hpc =>
      rw [hpc] at halone
      exact nomatch halone
    | alone | cleared | free => rfl
    | _ => exact halone
  have hnow : droppedOf u ≠ [] → s.owner.isAlone = true := by
    cases hm with
    | dropLast _ _ _ _ _ hpc | dropOne _ _ _ _ _ hpc =>
      intro _
      rw [hpc]
      rfl
    | _ => exact fun hempty => absurd rfl hempty
  apply hkept
  by_cases hu : droppedOf u = []
  · rw [hu, List.append_nil] at hne
    exact h hne
  · exact hnow hu

/-! ## What every schedule keeps -/

/-- The invariant of the pool, with the trace behind it and the jobs that are queued. -/
structure Kept (t : List (PoolEvent n m α)) (s : Pool n m α) (l : List (Nat × α)) : Prop where
  counted : s.Counted
  phased : s.Phased
  stored : s.Stored l
  queued : addedOf t = takenOf t ++ l.map Prod.snd
  handled : (takenOf t : Multiset α) =
    (finishedOf t : Multiset α) + (droppedOf t : Multiset α) + tally WorkerPc.work s.workers
  dropped : droppedOf t ≠ [] → s.owner.isAlone = true

theorem Kept.moves (h : Kept t s l) (hm : Moves s a s' u) : ∃ l', Kept (t ++ u) s' l' := by
  obtain ⟨l', hstored, hqueued⟩ := h.stored.moves hm
  refine ⟨l', h.counted.moves hm, h.phased.moves h.counted hm, hstored, ?_, ?_,
    dropped_moves h.dropped hm⟩
  · rw [addedOf_append, h.queued, takenOf_append, List.append_assoc, hqueued, List.append_assoc]
  · have hstep := work_moves hm
    rw [takenOf_append, finishedOf_append, droppedOf_append]
    simp only [← Multiset.coe_add]
    rw [h.handled, add_assoc, add_comm (tally _ _), hstep]
    ac_rfl

theorem kept_init (made : Fin n → Bool) : Kept [] (thpool_init (m := m) (α := α) made) [] where
  counted := counted_init made
  phased := phased_init made
  stored := stored_init made
  queued := rfl
  handled := by
    have hworkers : tally WorkerPc.work (thpool_init (m := m) (α := α) made).workers = 0 := by
      apply Finset.sum_eq_zero
      intro i _
      show (if made i then WorkerPc.starting else .unmade).work = 0
      split <;> rfl
    rw [hworkers]
    rfl
  dropped := fun h => absurd rfl h

theorem kept_of_run {made : Fin n → Bool} {as : List (PoolAction n m α)}
    (hrun : carryOut act as (thpool_init made) = .next s t) : ∃ l, Kept t s l := by
  apply carryOut_invariant (fun t s => ∃ l, Kept t s l) _ ⟨[], kept_init made⟩ hrun
  rintro t a s u s' ⟨l, h⟩ hact
  exact h.moves (act_moves hact)

theorem manned_of_run {made : Fin n → Bool} {as : List (PoolAction n m α)}
    (hrun : carryOut act as (thpool_init made) = .next s t) (hsole : .other false ∉ as) :
    s.Manned := by
  obtain ⟨-, h⟩ : (∃ l, Kept t s l) ∧ s.Manned := by
    apply carryOut_invariant_mem (fun t s => (∃ l, Kept t s l) ∧ s.Manned) _
      ⟨⟨[], kept_init made⟩, manned_init made⟩ hrun
    rintro t a s u s' ha ⟨⟨l, hk⟩, h⟩ hact
    have hother : a ≠ .other false := fun heq => hsole (heq ▸ ha)
    have hm := act_moves hact
    exact ⟨hk.moves hm, h.moves hk.counted hk.phased hother hm⟩
  exact h

/-! ## The account of a run -/

/-- No job is left when the pool is destroyed. -/
theorem Kept.done (h : Kept t s l) (hdone : s.owner = .done) :
    l = [] ∧ tally WorkerPc.work s.workers = 0 ∧ ∀ a, s.heap a = none := by
  have halone : s.owner.isAlone = true := by rw [hdone]; rfl
  have hlen : s.jobqueue.len = 0 := h.phased.clear (by rw [hdone]; rfl)
  have hl : l = [] := List.length_eq_zero_iff.mp (h.stored.holds.len.symm.trans hlen)
  have hgone : ∀ i, (s.workers i).work = 0 ∧ (s.workers i).job = 0 := by
    intro i
    rcases h.phased.no_worker halone i with hpc | hpc <;> rw [hpc] <;> exact ⟨rfl, rfl⟩
  have hidle : ∀ c, (s.callers c).job = 0 := by
    intro c
    rw [h.phased.no_caller (by rw [hdone]; exact nofun) c]
    rfl
  have howned : s.owned l = 0 := by
    rw [owned, hl, tally, tally, Finset.sum_eq_zero fun i _ => (hgone i).2,
      Finset.sum_eq_zero fun c _ => hidle c]
    rfl
  refine ⟨hl, Finset.sum_eq_zero fun i _ => (hgone i).1, ?_⟩
  intro a
  by_contra hne
  have := (h.stored.owns.mem_iff a).mpr hne
  rw [howned] at this
  exact Multiset.notMem_zero a this

/-- The account of every run: jobs leave the queue in the order they came in, each is run to
its end once or dropped by the end of the pool, and a destroyed pool leaves no job, and no
thread if no other pool was destroyed. -/
theorem thpool_jobs {made : Fin n → Bool} {as : List (PoolAction n m α)}
    (hrun : carryOut act as (thpool_init made) = .next s t) :
    ∃ l, QueueHolds s.heap s.jobqueue l ∧ addedOf t = takenOf t ++ l.map Prod.snd ∧
      (takenOf t : Multiset α) = (finishedOf t : Multiset α) + (droppedOf t : Multiset α) +
        tally WorkerPc.work s.workers ∧
      (droppedOf t ≠ [] → ∀ i, s.workers i = .unlocking ∨ s.workers i = .gone) ∧
      (s.owner = .done → l = [] ∧ tally WorkerPc.work s.workers = 0 ∧
        (∀ a, s.heap a = none) ∧ (.other false ∉ as → ∀ i, s.threads i = false)) := by
  obtain ⟨l, h⟩ := kept_of_run hrun
  refine ⟨l, h.stored.holds, h.queued, h.handled, ?_, ?_⟩
  · intro hdropped i
    exact h.phased.no_worker (h.dropped hdropped) i
  · intro hdone
    obtain ⟨hl, hworkers, hheap⟩ := h.done hdone
    exact ⟨hl, hworkers, hheap, fun hsole => (manned_of_run hrun hsole).threads hdone⟩

/-- One worker and two callers: one adds a job, the other waits for its end. -/
def aJob : List (PoolAction 1 2 Nat) :=
  [.worker 0 none none, .worker 0 none none, .worker 0 none none, .owner none,
    .add 0 7 (some 0), .caller 0 none, .wait 1, .caller 1 none, .caller 0 (some 0),
    .worker 0 none none, .worker 0 none none, .worker 0 none none, .worker 0 none none,
    .worker 0 none none, .worker 0 none (some 1), .caller 1 none, .caller 1 none,
    .worker 0 none none, .worker 0 none none]

/-- A job more, for which there is no time: the pool is destroyed while the worker wakes up. -/
def aLifetime : List (PoolAction 1 2 Nat) :=
  aJob ++ [.add 0 9 none, .add 1 8 (some 3), .caller 1 none, .caller 1 (some 0), .destroy,
    .owner none, .owner none, .owner none, .worker 0 none none, .worker 0 none none,
    .worker 0 none none, .worker 0 none none, .owner none, .owner none, .owner none, .owner none]

/-- Both callers wait for the end of the one job. -/
def twoWaiters : List (PoolAction 1 2 Nat) :=
  [.worker 0 none none, .worker 0 none none, .worker 0 none none, .owner none,
    .add 0 7 (some 0), .caller 0 none, .caller 0 (some 0), .wait 0, .caller 0 none,
    .wait 1, .caller 1 none, .worker 0 none none, .worker 0 none none, .worker 0 none none,
    .worker 0 none none, .worker 0 none none, .worker 0 none (some 0), .caller 0 none,
    .caller 0 none, .worker 0 none none, .worker 0 none none]

/-- Another pool is destroyed before the worker gets to wait: it leaves, and a job is added. -/
def anotherEnds : List (PoolAction 1 2 Nat) :=
  [.worker 0 none none, .owner none, .other false, .worker 0 none none, .worker 0 none none,
    .worker 0 none none, .add 0 7 (some 0), .caller 0 none, .caller 0 none]

/-- This pool is destroyed after that. -/
def anotherThenThis : List (PoolAction 1 2 Nat) :=
  anotherEnds ++ [.destroy, .owner none, .owner none, .owner none, .owner none, .owner none]

/-- The state and the trace after such a schedule. -/
def after (as : List (PoolAction 1 2 Nat)) : Pool 1 2 Nat × List (PoolEvent 1 2 Nat) :=
  (carryOut act as (thpool_init fun _ => true)).getD (thpool_init fun _ => true)

theorem aJob_run : carryOut act aJob (thpool_init fun _ => true) =
    .next (after aJob).1 (after aJob).2 :=
  Outcome.eq_next (by decide +kernel) _

theorem aLifetime_run : carryOut act aLifetime (thpool_init fun _ => true) =
    .next (after aLifetime).1 (after aLifetime).2 :=
  Outcome.eq_next (by decide +kernel) _

theorem thpool_jobs_lifetime :
    ∃ l, QueueHolds (after aLifetime).1.heap (after aLifetime).1.jobqueue l ∧
      addedOf (after aLifetime).2 = takenOf (after aLifetime).2 ++ l.map Prod.snd ∧
      (takenOf (after aLifetime).2 : Multiset Nat) =
        (finishedOf (after aLifetime).2 : Multiset Nat) + (droppedOf (after aLifetime).2) +
          tally WorkerPc.work (after aLifetime).1.workers ∧
      (droppedOf (after aLifetime).2 ≠ [] → ∀ i, (after aLifetime).1.workers i = .unlocking ∨
        (after aLifetime).1.workers i = .gone) ∧
      ((after aLifetime).1.owner = .done → l = [] ∧
        tally WorkerPc.work (after aLifetime).1.workers = 0 ∧
        (∀ a, (after aLifetime).1.heap a = none) ∧
        (.other false ∉ aLifetime → ∀ i, (after aLifetime).1.threads i = false)) :=
  thpool_jobs aLifetime_run

/-- With another pool destroyed, this one may leave the memory of its threads behind. -/
theorem thpool_leaves_threads :
    ∃ (as : List (PoolAction 1 2 Nat)) (s : Pool 1 2 Nat) (t : List (PoolEvent 1 2 Nat)),
      carryOut act as (thpool_init fun _ => true) = .next s t ∧ s.owner = .done ∧
        s.workers 0 = .gone ∧ s.threads 0 = true := by
  have hend : (after anotherThenThis).1.owner = .done ∧
      (after anotherThenThis).1.workers 0 = .gone ∧
      (after anotherThenThis).1.threads 0 = true := by decide +kernel
  exact ⟨anotherThenThis, (after anotherThenThis).1, (after anotherThenThis).2,
    Outcome.eq_next (by decide +kernel) _, hend⟩

/-! ## Faults -/

/-- A job that a worker runs is in memory. -/
theorem Kept.running (h : Kept t s l) {i : Fin n} {b : Nat} {w : α}
    (hpc : s.workers i = .running b w) : s.heap b ≠ none := by
  rw [← h.stored.owns.mem_iff b]
  have hmem : b ∈ tally WorkerPc.job s.workers :=
    mem_owned_of_worker (i := i) (by rw [hpc]; exact Multiset.mem_singleton_self b)
  simp [owned, hmem]

theorem Kept.thread_do_fault (h : Kept t s l) {i : Fin n} {wakes : Option (Fin n)}
    {rouses : Option (Fin m)} :
    s.thread_do i wakes rouses = .fault ↔ s.owner = .done ∧ s.workers i = .unlocking := by
  constructor
  · intro hfault
    unfold thread_do at hfault
    split at hfault
    · rename_i htouch
      obtain ⟨hfreed, htouch⟩ : s.freed = true ∧ (s.workers i).touchesPool = true := by
        simpa using htouch
      have hdone := h.phased.freed.mp hfreed
      rcases h.phased.no_worker (by rw [hdone]; rfl) i with hpc | hpc
      · exact ⟨hdone, hpc⟩
      · rw [hpc] at htouch
        exact nomatch htouch
    exfalso
    obtain ⟨hpull, hfound⟩ := h.stored.holds.pull_ok
    cases hpc : s.workers i with
    | pulling =>
      simp only [hpc] at hfault
      split at hfault
      · cases hfault
      split at hfault
      · exact hpull ‹_›
      · cases hfault
      · rename_i b q posts hfind
        split at hfault
        · exact hfound b q posts hfind ‹_›
        · cases hfault
    | running b w =>
      simp only [hpc] at hfault
      split at hfault
      · exact h.running hpc ‹_›
      · cases hfault
    | _ =>
      simp only [hpc] at hfault
      (repeat' split at hfault) <;> cases hfault
  · rintro ⟨hdone, hpc⟩
    have hfreed := h.phased.freed.mpr hdone
    unfold thread_do
    rw [hfreed, hpc]
    rfl

theorem Kept.callStep_no_fault (h : Kept t s l) {c : Fin m} {wakes : Option (Fin n)} :
    s.callStep c wakes ≠ .fault := by
  intro hfault
  have hhere : s.callers c ≠ .idle → s.freed = false := by
    intro hbusy
    rw [← Bool.not_eq_true, h.phased.freed]
    intro hdone
    exact hbusy (h.phased.no_caller (by rw [hdone]; exact nofun) c)
  unfold callStep at hfault
  cases hpc : s.callers c with
  | pushing b w =>
    have hfreed := hhere (by rw [hpc]; exact nofun)
    simp only [hpc, hfreed, Bool.false_eq_true, if_false] at hfault
    split at hfault
    · cases hfault
    split at hfault
    · exact h.stored.push_ok hpc ‹_›
    · cases hfault
  | idle | sleeping =>
    simp only [hpc] at hfault
    cases hfault
  | posting | wantLock | readWorking =>
    have hfreed := hhere (by rw [hpc]; exact nofun)
    simp only [hpc, hfreed, Bool.false_eq_true, if_false] at hfault
    (repeat' split at hfault) <;> cases hfault

theorem Kept.ownStep_no_fault (h : Kept t s l) {wakes : Option (Fin n)} :
    s.ownStep wakes ≠ .fault := by
  intro hfault
  obtain ⟨hpull, hfound⟩ := h.stored.holds.pull_ok
  unfold ownStep at hfault
  cases hpc : s.owner with
  | clearing total =>
    simp only [hpc, jobqueue_clear] at hfault
    split at hfault
    · cases hfault
    split at hfault
    · exact hpull ‹_›
    · cases hfault
    · rename_i b q posts hfind
      split at hfault
      · exact hfound b q posts hfind ‹_›
      · (repeat' split at hfault) <;> cases hfault
  | freeing total =>
    have htotal : ¬ (n : Int) < total := not_lt.mpr (h.phased.total total (by rw [hpc]; rfl))
    simp only [hpc, htotal, if_false] at hfault
    cases hfault
  | _ =>
    simp only [hpc] at hfault
    try (repeat' split at hfault)
    all_goals cases hfault

/-- The only memory fault of the pool, in any schedule: the last worker unlocks the lock of a
pool that `thpool_destroy` has freed. -/
theorem thpool_fault {made : Fin n → Bool} {as : List (PoolAction n m α)}
    (hrun : carryOut act as (thpool_init made) = .next s t) :
    act a s = .fault ↔ ∃ i wakes rouses, a = .worker i wakes rouses ∧
      s.owner = .done ∧ s.workers i = .unlocking ∧ ∀ j, j ≠ i → s.workers j = .gone := by
  obtain ⟨l, h⟩ := kept_of_run hrun
  constructor
  · intro hfault
    cases a with
    | worker i wakes rouses =>
      obtain ⟨hdone, hpc⟩ := h.thread_do_fault.mp hfault
      refine ⟨i, wakes, rouses, rfl, hdone, hpc, ?_⟩
      intro j hne
      rcases h.phased.no_worker (by rw [hdone]; rfl) j with hj | hj
      · have honly := (alone_left (i := i) h.counted.countLock (by rw [hpc]; rfl)).1
        exact absurd (honly j (by rw [hj]; rfl)) hne
      · exact hj
    | caller c wakes => exact absurd hfault h.callStep_no_fault
    | owner wakes => exact absurd hfault h.ownStep_no_fault
    | add c w newjob =>
      simp only [act, thpool_add_work] at hfault
      (repeat' split at hfault) <;> cases hfault
    | wait c =>
      simp only [act, thpool_wait] at hfault
      split at hfault <;> cases hfault
    | destroy =>
      simp only [act, thpool_destroy] at hfault
      split at hfault <;> cases hfault
    | stirWorker i =>
      simp only [act] at hfault
      split at hfault <;> cases hfault
    | stirCaller c =>
      simp only [act] at hfault
      split at hfault <;> cases hfault
    | other keepalive => cases hfault
  · rintro ⟨i, wakes, rouses, rfl, hdone, hpc, -⟩
    exact h.thread_do_fault.mpr ⟨hdone, hpc⟩

theorem thpool_fault_lifetime : act (.worker 0 none none) (after aLifetime).1 = .fault := by
  have hend : (after aLifetime).1.owner = .done ∧ (after aLifetime).1.workers 0 = .unlocking ∧
      ∀ j, j ≠ 0 → (after aLifetime).1.workers j = .gone := by decide +kernel
  exact (thpool_fault aLifetime_run).mpr ⟨0, none, none, rfl, hend⟩

end Pool

end NoGround
