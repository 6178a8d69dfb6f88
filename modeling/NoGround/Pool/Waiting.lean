/-
  Pool/Waiting.lean --- `thpool_wait` returns only to an idle pool.

  `thpool_wait` reads the length of the queue and the number of working threads one after the
  other, and only the second under the lock that guards it.  A worker may pull the last job
  between the two.  It has counted itself working before, though, and cannot count itself out
  while the caller has the lock: so if the second counter is 0, it was 0 when the first was
  read, and at that moment every job that had ever been added had run to its end.
-/
import NoGround.Lib.Steps
import NoGround.Pool.Jobs

set_option autoImplicit false

namespace NoGround

open NoGround.Lib
open Function (update)

namespace Pool

variable {n m : Nat} {α : Type} {s s' : Pool n m α} {t u : List (PoolEvent n m α)}
  {a : PoolAction n m α} {l : List (Nat × α)} {c : Fin m}

theorem WorkerPc.work_of_not_working {pc : WorkerPc α} (h : pc.isWorking = false) :
    pc.work = 0 := by
  cases pc <;> simp_all [WorkerPc.isWorking, WorkerPc.work]

/-- During the latest call of `thpool_wait` by `c`, there was a moment when all jobs that had
been added were done. -/
def IdleInCall (c : Fin m) (t : List (PoolEvent n m α)) : Prop :=
  ∃ t₁ t₂, t = t₁ ++ t₂ ∧ .waiting c ∈ t₁ ∧ .waiting c ∉ t₂ ∧
    (finishedOf t₁).Perm (addedOf t₁)

theorem IdleInCall.append (h : IdleInCall c t) (hu : .waiting c ∉ u) : IdleInCall c (t ++ u) := by
  obtain ⟨t₁, t₂, rfl, hcall, hlatest, hidle⟩ := h
  refine ⟨t₁, t₂ ++ u, List.append_assoc .., hcall, ?_, hidle⟩
  simp [hlatest, hu]

/-- Whoever is inside the pool is in an open one. -/
theorem Kept.opened (h : Kept t s l) (hpc : (s.callers c).isBusy = true) : s.owner = .opened := by
  by_contra hne
  have := count_eq_zero.mp (h.phased.idle hne) c
  rw [hpc] at this
  exact nomatch this

/-- No job queued and no thread working: all that was added is done. -/
theorem Kept.idle (h : Kept t s l) (hopen : s.owner = .opened)
    (hlen : s.jobqueue.len = 0) (hworking : s.num_threads_working = 0) :
    (finishedOf t).Perm (addedOf t) := by
  have hnil : l = [] := List.length_eq_zero_iff.mp (h.stored.holds.len.symm.trans hlen)
  have hdropped : droppedOf t = [] := by
    by_contra hne
    have := h.dropped hne
    rw [hopen] at this
    exact nomatch this
  have hnone : tally WorkerPc.work s.workers = 0 := by
    apply Finset.sum_eq_zero
    intro i _
    apply WorkerPc.work_of_not_working
    exact count_eq_zero.mp (h.counted.working.symm.trans hworking) i
  have htaken := h.handled
  rw [hdropped, hnone] at htaken
  have hqueued := h.queued
  rw [hnil, List.map_nil, List.append_nil] at hqueued
  rw [← Multiset.coe_eq_coe, hqueued, htaken]
  simp

/-! ## The two reads -/

/-- A caller that is in the call came into it. -/
theorem called_moves (h : ∀ c, (s.callers c).isInWait = true → .waiting c ∈ t)
    (hm : Moves s a s' u) : ∀ c, (s'.callers c).isInWait = true → .waiting c ∈ t ++ u := by
  intro c hin
  rw [List.mem_append]
  by_cases hbefore : (s.callers c).isInWait = true
  · exact Or.inl (h c hbefore)
  right
  rw [CallerPc.isInWait_iff] at hin hbefore
  cases hm with
  | countOutLast _ _ rouses _ _ _ hrouses =>
    rcases wake_cases (p := .wantLock) hrouses c with hsame | ⟨hsleep, -⟩
    · simp_all
    · rw [CallerPc.isSleeping_iff] at hsleep
      simp_all
  | wait c' =>
    rcases eq_or_ne c c' with rfl | hne
    · exact List.mem_singleton_self _
    · simp_all
  | alloc c' | push c' | callerPost c' | waitMore c' | readLen c' | waitLonger c' | waited c'
  | stirCaller c' => rcases eq_or_ne c c' with rfl | hne <;> simp_all
  | _ => simp_all

/-- The first read is what brings a caller to the second. -/
theorem readWorking_moves (hm : Moves s a s' u) (hpc : s'.callers c = .readWorking)
    (hbefore : s.callers c ≠ .readWorking) :
    s.callers c = .wantLock ∧ s.jobqueue.len = 0 ∧ u = [] ∧
      s'.num_threads_working = s.num_threads_working := by
  cases hm with
  | countOutLast _ _ rouses _ _ _ hrouses =>
    rcases wake_cases (p := .wantLock) hrouses c with hsame | ⟨-, hwoken⟩
    · simp_all
    · simp_all
  | alloc c' | push c' | callerPost c' | wait c' | waitMore c' | readLen c' | waitLonger c'
  | waited c' | stirCaller c' => rcases eq_or_ne c c' with rfl | hne <;> simp_all
  | _ => simp_all

/-- While a caller has the lock, the number of working threads stands still. -/
theorem working_stands (hc : s.Counted) (hpc : s.callers c = .readWorking)
    (hm : Moves s a s' u) : s'.num_threads_working = s.num_threads_working := by
  have hheld := held_of_right (j := c) hc.countLock (by rw [hpc]; rfl)
  cases hm <;> simp_all

theorem not_called (hm : Moves s a s' u) (hpc : s.callers c = .readWorking) :
    .waiting c ∉ u := by
  cases hm with
  | wait c' _ hidle =>
    intro hmem
    obtain rfl : c = c' := by simpa using hmem
    rw [hpc] at hidle
    exact nomatch hidle
  | _ => simp

/-! ## The returns -/

/-- What a run keeps about its calls of `thpool_wait`. -/
structure Waits (t : List (PoolEvent n m α)) (s : Pool n m α) : Prop where
  called : ∀ c, (s.callers c).isInWait = true → .waiting c ∈ t
  seen : ∀ c, s.callers c = .readWorking → s.num_threads_working = 0 → IdleInCall c t
  returned : EachEvent (fun before e => ∀ c, e = .waited c → IdleInCall c before) t

theorem seen_moves (hk : Kept t s l) (h : Waits t s) (hm : Moves s a s' u) (c : Fin m)
    (hpc : s'.callers c = .readWorking) (hzero : s'.num_threads_working = 0) :
    IdleInCall c (t ++ u) := by
  by_cases hbefore : s.callers c = .readWorking
  · rw [working_stands hk.counted hbefore hm] at hzero
    exact (h.seen c hbefore hzero).append (not_called hm hbefore)
  · obtain ⟨hwant, hlen, rfl, hworking⟩ := readWorking_moves hm hpc hbefore
    have hcalled := h.called c (by rw [hwant]; rfl)
    rw [hworking] at hzero
    have hopen := hk.opened (c := c) (by rw [hwant]; rfl)
    exact ⟨t, [], rfl, hcalled, by simp, hk.idle hopen hlen hzero⟩

theorem Waits.moves (hk : Kept t s l) (h : Waits t s) (hm : Moves s a s' u) :
    Waits (t ++ u) s' := by
  refine ⟨called_moves h.called hm, seen_moves hk h hm, ?_⟩
  rw [eachEvent_append]
  refine ⟨h.returned, ?_⟩
  cases hm with
  | waited c _ hpc hworking =>
    rw [eachEvent_singleton]
    intro c' hc'
    obtain rfl : c = c' := by simpa using hc'
    rw [List.append_nil]
    exact h.seen c hpc hworking
  | start | again | leave | take | sleep | keep | turn | countIn | pullNone | post | countOutLast
  | countOut | die | unlock | stirWorker | alloc | callerPost | waitMore | readLen | waitLonger
  | stirCaller | destroy | close | poll | alone | broadcast | cleared | dropNone | other =>
    exact eachEvent_nil
  | pullLast | pullOne | finish | refuse | push | wait | opened | dropLast | dropOne | free =>
    rw [eachEvent_singleton]
    exact nofun

/-- Whenever `thpool_wait` returns, there was a moment during that call when every job that
had been added until then had run to its end. -/
theorem thpool_wait_idle {made : Fin n → Bool} {as : List (PoolAction n m α)}
    (hrun : carryOut act as (thpool_init made) = .next s t) :
    EachEvent (fun before e => ∀ c, e = .waited c → IdleInCall c before) t := by
  have hinit : Waits [] (thpool_init (m := m) (α := α) made) :=
    ⟨nofun, nofun, eachEvent_nil⟩
  obtain ⟨-, h⟩ : (∃ l, Kept t s l) ∧ Waits t s := by
    apply carryOut_invariant (fun t s => (∃ l, Kept t s l) ∧ Waits t s) _
      ⟨⟨[], kept_init made⟩, hinit⟩ hrun
    rintro t a s u s' ⟨⟨l, hk⟩, h⟩ hact
    exact ⟨hk.moves (act_moves hact), h.moves hk (act_moves hact)⟩
  exact h.returned

theorem thpool_wait_idle_lifetime :
    EachEvent (fun before e => ∀ c, e = .waited c → IdleInCall c before) (after aLifetime).2 :=
  thpool_wait_idle aLifetime_run

end Pool

end NoGround
