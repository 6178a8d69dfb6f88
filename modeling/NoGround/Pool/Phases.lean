/-
  Pool/Phases.lean --- the life of a pool: opened, used, destroyed.

  Where its owner is decides what the other threads can be at (`Phased`): `thpool_init` returns
  when every worker is alive, so none is still to start after that; nobody calls a pool that is
  not open or is being destroyed; and when `thpool_destroy` goes on to free, no worker is
  counted alive.

  `Manned` is what only holds while no other pool is destroyed: `threads_keepalive` is up until
  this pool is closed, so no worker leaves its loop before that, and `thpool_destroy` counts and
  frees all of them.  Another pool may be made at any time; it sets the flag that is up already,
  or keeps this pool from ending.
-/
import NoGround.Pool.Counts

set_option autoImplicit false

namespace NoGround

open NoGround.Lib
open Function (update)

variable {n m : Nat} {α : Type}

theorem WorkerPc.isAlive_iff {pc : WorkerPc α} (hleft : pc.isLeft = false) :
    pc.isAlive = true ↔ pc.isUnborn = false := by
  cases pc <;> simp_all [isLeft, isAlive, isUnborn]

theorem WorkerPc.isUnborn_of_isAlive {pc : WorkerPc α} (h : pc.isAlive = true) :
    pc.isUnborn = false := by
  cases pc <;> simp_all [isAlive, isUnborn]

theorem CallerPc.isBusy_eq_false {pc : CallerPc α} : pc.isBusy = false ↔ pc = .idle := by
  cases pc <;> simp [isBusy]

namespace Pool

variable {s s' : Pool n m α} {t : List (PoolEvent n m α)} {a : PoolAction n m α}

/-- What the place of the owner says about the other threads. -/
structure Phased (s : Pool n m α) : Prop where
  born : s.owner ≠ .opening → count WorkerPc.isUnborn s.workers = 0
  idle : s.owner ≠ .opened → count CallerPc.isBusy s.callers = 0
  alone : s.owner.isAlone = true → count WorkerPc.isAlive s.workers = 0
  freed : s.freed = true ↔ s.owner = .done
  total : ∀ total, s.owner.total = some total → total ≤ n
  clear : s.owner.isClear = true → s.jobqueue.len = 0

/-- What it says besides, while no other pool is destroyed. -/
structure Manned (s : Pool n m α) : Prop where
  keepalive : s.owner.hasClosed = false → s.threads_keepalive = true
  stayed : s.owner.hasClosed = false → count WorkerPc.isLeft s.workers = 0
  total : ∀ total, s.owner.total = some total → total = n
  threads : s.owner = .done → ∀ i, s.threads i = false

/-- While no worker has left the loop of an open pool, all its workers are alive. -/
theorem alive_eq (hborn : count WorkerPc.isUnborn s.workers = 0)
    (hstayed : count WorkerPc.isLeft s.workers = 0) : count WorkerPc.isAlive s.workers = n := by
  rw [count_eq_card]
  intro i
  rw [WorkerPc.isAlive_iff (count_eq_zero.mp hstayed i)]
  exact count_eq_zero.mp hborn i

theorem born_moves (hc : s.Counted)
    (h : s.owner ≠ .opening → count WorkerPc.isUnborn s.workers = 0) (hm : Moves s a s' t) :
    s'.owner ≠ .opening → count WorkerPc.isUnborn s'.workers = 0 := by
  intro hne
  cases hm with
  | opened _ _ halive =>
    rw [count_eq_zero]
    intro i
    exact WorkerPc.isUnborn_of_isAlive (count_eq_card.mp (hc.alive.symm.trans halive) i)
  | start i _ _ hpc =>
    have := count_eq_zero.mp (h hne) i
    rw [hpc] at this
    exact nomatch this
  | _ => simp_all [WorkerPc.isUnborn]

theorem idle_moves (h : s.owner ≠ .opened → count CallerPc.isBusy s.callers = 0)
    (hm : Moves s a s' t) : s'.owner ≠ .opened → count CallerPc.isBusy s'.callers = 0 := by
  intro hne
  cases hm with
  | callerPost c _ hpc | waited c _ hpc =>
    have := count_eq_zero.mp (h hne) c
    rw [hpc] at this
    exact nomatch this
  | destroy _ hidle =>
    rw [count_eq_zero]
    intro c
    rw [hidle c]
    rfl
  | _ => simp_all [CallerPc.isBusy]

theorem alone_moves (hc : s.Counted)
    (hborn : s.owner ≠ .opening → count WorkerPc.isUnborn s.workers = 0)
    (h : s.owner.isAlone = true → count WorkerPc.isAlive s.workers = 0) (hm : Moves s a s' t) :
    s'.owner.isAlone = true → count WorkerPc.isAlive s'.workers = 0 := by
  intro halone
  cases hm with
  | start i _ _ hpc =>
    have hopened : s.owner ≠ .opening := by
      intro hopening
      simp_all [OwnerPc.isAlone]
    have := count_eq_zero.mp (hborn hopened) i
    rw [hpc] at this
    exact nomatch this
  | die i _ _ hpc =>
    have := count_eq_zero.mp (h halone) i
    rw [hpc] at this
    exact nomatch this
  | alone => exact hc.alive.symm.trans ‹_›
  | _ => simp_all [WorkerPc.isAlive, OwnerPc.isAlone]

theorem freed_moves (h : s.freed = true ↔ s.owner = .done) (hm : Moves s a s' t) :
    s'.freed = true ↔ s'.owner = .done := by
  cases hm <;> simp_all

/-- `threads_total` counts workers of the pool. -/
theorem total_le_moves (hc : s.Counted)
    (h : ∀ total, s.owner.total = some total → total ≤ n) (hm : Moves s a s' t) :
    ∀ total, s'.owner.total = some total → total ≤ n := by
  cases hm with
  | destroy =>
    intro total htotal
    rw [← Option.some.inj htotal, hc.alive]
    exact count_le_card ..
  | _ => simp_all [OwnerPc.total]

/-- When the owner is alone, no worker will ever touch the queue again. -/
theorem Phased.no_worker (h : s.Phased) (halone : s.owner.isAlone = true) (i : Fin n) :
    s.workers i = .unlocking ∨ s.workers i = .gone := by
  have hdead := count_eq_zero.mp (h.alone halone) i
  have hborn : (s.workers i).isUnborn = false := by
    apply count_eq_zero.mp (h.born _) i
    intro hopening
    rw [hopening] at halone
    exact nomatch halone
  cases hpc : s.workers i <;> simp_all [WorkerPc.isAlive, WorkerPc.isUnborn]

/-- When nobody is inside the pool, no caller is anywhere. -/
theorem Phased.no_caller (h : s.Phased) (hopen : s.owner ≠ .opened) (c : Fin m) :
    s.callers c = .idle :=
  CallerPc.isBusy_eq_false.mp (count_eq_zero.mp (h.idle hopen) c)

theorem clear_moves (hp : s.Phased) (hm : Moves s a s' t) :
    s'.owner.isClear = true → s'.jobqueue.len = 0 := by
  have h := hp.clear
  intro hclear
  cases hm with
  | pullNone i _ _ _ _ hpc | pullLast i _ _ _ _ _ hpc | pullOne i _ _ _ _ _ hpc =>
    have halone : s.owner.isAlone = true := by
      cases howner : s.owner <;> simp_all [OwnerPc.isClear, OwnerPc.isAlone]
    have := hp.no_worker halone i
    simp_all
  | push c _ _ _ _ _ hpc =>
    have hopen : s.owner ≠ .opened := by
      intro hopen
      simp_all [OwnerPc.isClear]
    have := hp.no_caller hopen c
    simp_all
  | _ => simp_all [OwnerPc.isClear]

theorem Phased.moves (hc : s.Counted) (h : s.Phased) (hm : Moves s a s' t) : s'.Phased where
  born := born_moves hc h.born hm
  idle := idle_moves h.idle hm
  alone := alone_moves hc h.born h.alone hm
  freed := freed_moves h.freed hm
  total := total_le_moves hc h.total hm
  clear := clear_moves h hm

theorem phased_init (made : Fin n → Bool) : (thpool_init (m := m) (α := α) made).Phased where
  born := fun h => absurd rfl h
  idle := fun _ => count_eq_zero.mpr fun _ => rfl
  alone := nofun
  freed := by simp [thpool_init]
  total := nofun
  clear := nofun

/-! ## While no other pool is destroyed -/

theorem keepalive_moves (h : s.owner.hasClosed = false → s.threads_keepalive = true)
    (ha : a ≠ .other false) (hm : Moves s a s' t) :
    s'.owner.hasClosed = false → s'.threads_keepalive = true := by
  cases hm <;> simp_all [OwnerPc.hasClosed]

theorem stayed_moves (h : s.Manned) (hm : Moves s a s' t) :
    s'.owner.hasClosed = false → count WorkerPc.isLeft s'.workers = 0 := by
  have hkeep := h.keepalive
  have hstayed := h.stayed
  cases hm <;> simp_all [WorkerPc.isLeft, OwnerPc.hasClosed]

/-- `threads_total` is read when every worker is alive. -/
theorem total_moves (hc : s.Counted) (hp : s.Phased) (h : s.Manned) (hm : Moves s a s' t) :
    ∀ total, s'.owner.total = some total → total = n := by
  have htotal := h.total
  cases hm with
  | destroy hpc =>
    intro total htotal
    rw [← Option.some.inj htotal, hc.alive]
    exact alive_eq (hp.born (by rw [hpc]; exact nofun)) (h.stayed (by rw [hpc]; rfl))
  | _ => simp_all [OwnerPc.total]

theorem threads_moves (h : s.Manned) (hm : Moves s a s' t) :
    s'.owner = .done → ∀ i, s'.threads i = false := by
  have hthreads := h.threads
  cases hm with
  | free _ total hpc =>
    intro _ i
    have htotal := h.total total (by rw [hpc]; rfl)
    have hi : (i : Int) < total := by omega
    simp [hi]
  | _ => simp_all

theorem Manned.moves (hc : s.Counted) (hp : s.Phased) (h : s.Manned) (ha : a ≠ .other false)
    (hm : Moves s a s' t) : s'.Manned where
  keepalive := keepalive_moves h.keepalive ha hm
  stayed := stayed_moves h hm
  total := total_moves hc hp h hm
  threads := threads_moves h hm

theorem manned_init (made : Fin n → Bool) : (thpool_init (m := m) (α := α) made).Manned where
  keepalive := fun _ => rfl
  stayed := by
    intro _
    rw [count_eq_zero]
    intro i
    show (if made i then WorkerPc.starting else .unmade).isLeft = false
    split <;> rfl
  total := nofun
  threads := nofun

end Pool

end NoGround
