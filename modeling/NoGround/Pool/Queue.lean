/-
  Pool/Queue.lean --- the job queue as a list, and who owns each job in memory.

  `QueueHolds heap q l`: the queue `q` is the chain of the jobs `l`, front to rear.  `jobqueue_push`
  then puts a job behind `l`, and `jobqueue_pull` takes the first; neither follows a pointer
  that is not to a job.

  `Stored s l` is the whole memory: the jobs in it are those of the queue, those that workers
  run and those that callers are about to push, and no job is in two of these hands.
-/
import NoGround.Lib.Chain
import NoGround.Pool.Phases

set_option autoImplicit false

namespace NoGround

open NoGround.Lib
open Function (update)

variable {α : Type}

/-! ## The queue -/

/-- The queue holds the jobs `l`, each with its address and its work. -/
structure QueueHolds (heap : Nat → Option (Job α)) (q : Jobqueue) (l : List (Nat × α)) : Prop where
  len : q.len = l.length
  front : q.front = l.head?.map Prod.fst
  rear : q.rear = l.getLast?.map Prod.fst
  chain : Chain Job.mk heap l

section QueueHolds

variable {heap : Nat → Option (Job α)} {q : Jobqueue} {l : List (Nat × α)} {a : Nat} {w : α}

theorem queueHolds_empty : QueueHolds heap { front := none, rear := none, len := 0 } [] where
  len := rfl
  front := rfl
  rear := rfl
  chain := chain_nil

theorem QueueHolds.update {c : Option (Job α)} (h : QueueHolds heap q l) (ha : a ∉ l.map Prod.fst) :
    QueueHolds (update heap a c) q l where
  len := h.len
  front := h.front
  rear := h.rear
  chain := h.chain.update ha

theorem jobqueue_pull_nil (h : QueueHolds heap q []) :
    jobqueue_pull heap q = some (none, q, false) := by
  have hlen : q.len = 0 := h.len
  have hfront : q.front = none := h.front
  simp [jobqueue_pull, hlen, hfront]

theorem jobqueue_pull_cons (h : QueueHolds heap q ((a, w) :: l)) :
    ∃ q' posts p, jobqueue_pull heap q = some (some a, q', posts) ∧ heap a = some ⟨p, w⟩ ∧
      QueueHolds heap q' l := by
  obtain ⟨hcell, hrest⟩ := chain_cons.mp h.chain
  have hfront : q.front = some a := h.front
  cases l with
  | nil =>
    have hlen : q.len = 1 := h.len
    exact ⟨_, false, _, by simp [jobqueue_pull, hlen, hfront], hcell, queueHolds_empty⟩
  | cons x l =>
    have hlen : q.len = l.length + 2 := h.len
    have hrear : q.rear = (x :: l).getLast?.map Prod.fst := by
      rw [h.rear, List.getLast?_cons_cons]
    refine ⟨{ q with front := some x.1, len := l.length + 1 }, true, some x.1, ?_, hcell, ?_⟩
    · simp only [List.head?_cons, Option.map_some] at hcell
      simp [jobqueue_pull, hlen, hfront, hcell]
    · exact { len := rfl, front := rfl, rear := hrear, chain := hrest }

theorem jobqueue_push_spec {p : Option Nat} (h : QueueHolds heap q l) (ha : heap a = some ⟨p, w⟩)
    (hnodup : (l.map Prod.fst ++ [a]).Nodup) :
    ∃ heap' q', jobqueue_push heap q a = some (heap', q') ∧ QueueHolds heap' q' (l ++ [(a, w)]) ∧
      (∀ b, heap' b ≠ none ↔ heap b ≠ none) ∧
      ∀ b, b ∉ l.map Prod.fst → b ≠ a → heap' b = heap b := by
  have hout : a ∉ l.map Prod.fst := by
    have := List.nodup_append.mp hnodup
    exact fun hmem => this.2.2 a hmem a (List.mem_singleton_self a) rfl
  have hsame : ∀ b, update heap a (some (Job.mk none w)) b ≠ none ↔ heap b ≠ none := by
    intro b
    rcases eq_or_ne b a with rfl | hne
    · simp [ha]
    · rw [Function.update_of_ne hne]
  have hnew : update heap a (some (Job.mk none w)) a = some ⟨none, w⟩ := Function.update_self ..
  rcases List.eq_nil_or_concat l with rfl | ⟨l, ⟨b, v⟩, rfl⟩
  · have hlen : q.len = 0 := h.len
    refine ⟨update heap a (some ⟨none, w⟩), { front := some a, rear := some a, len := 1 },
      by simp [jobqueue_push, ha, hlen], ?_, hsame, ?_⟩
    · exact { len := rfl, front := rfl, rear := rfl, chain := ⟨hnew, chain_nil⟩ }
    · intro b _ hne
      exact Function.update_of_ne hne ..
  · rw [List.concat_eq_append] at *
    have hlen : q.len = l.length + 1 := by simp [h.len]
    have hrear : q.rear = some b := by simp [h.rear]
    have hchain := h.chain.update (c := some ⟨none, w⟩) hout
    have hlast := hchain.last
    have hba : b ≠ a := by
      rintro rfl
      simp at hout
    refine ⟨update (update heap a (some ⟨none, w⟩)) b (some ⟨some a, v⟩),
      { q with rear := some a, len := l.length + 2 },
      by simp [jobqueue_push, ha, hlen, hrear, hlast], ?_, ?_, ?_⟩
    · constructor
      · simp
      · show q.front = _
        rw [h.front]
        cases l <;> rfl
      · simp
      · rw [List.append_assoc]
        apply hchain.snoc hnew
        simpa using hnodup
    · intro c
      rw [← hsame]
      rcases eq_or_ne c b with rfl | hne
      · simp [hlast]
      · rw [Function.update_of_ne hne]
    · intro c hc hne
      have hcb : c ≠ b := by
        rintro rfl
        simp at hc
      rw [Function.update_of_ne hcb, Function.update_of_ne hne]

/-- A pull that finds nothing found an empty queue. -/
theorem QueueHolds.pull_none {q' : Jobqueue} {posts : Bool} (h : QueueHolds heap q l)
    (hpull : jobqueue_pull heap q = some (none, q', posts)) : l = [] ∧ q' = q := by
  cases l with
  | nil =>
    rw [jobqueue_pull_nil h] at hpull
    simp_all
  | cons x l =>
    obtain ⟨q₁, posts₁, p, hcons, -⟩ := jobqueue_pull_cons h
    rw [hcons] at hpull
    simp at hpull

/-- A pull that finds a job took the first one. -/
theorem QueueHolds.pull_some {q' : Jobqueue} {posts : Bool} {job : Job α} (h : QueueHolds heap q l)
    (hpull : jobqueue_pull heap q = some (some a, q', posts)) (hjob : heap a = some job) :
    ∃ l', l = (a, job.work) :: l' ∧ QueueHolds heap q' l' := by
  cases l with
  | nil =>
    rw [jobqueue_pull_nil h] at hpull
    simp at hpull
  | cons x l =>
    obtain ⟨q₁, posts₁, p, hcons, hcell, hrest⟩ := jobqueue_pull_cons h
    rw [hcons] at hpull
    obtain ⟨hx, rfl, rfl⟩ : x.1 = a ∧ q₁ = q' ∧ posts₁ = posts := by simpa using hpull
    rw [hx, hjob] at hcell
    refine ⟨l, ?_, hrest⟩
    rw [Option.some.inj hcell, ← hx]

/-- A pull follows no bad pointer, and what it finds is a job. -/
theorem QueueHolds.pull_ok (h : QueueHolds heap q l) :
    jobqueue_pull heap q ≠ none ∧
      ∀ b q' posts, jobqueue_pull heap q = some (some b, q', posts) → heap b ≠ none := by
  cases l with
  | nil =>
    rw [jobqueue_pull_nil h]
    simp
  | cons x l =>
    obtain ⟨q₁, posts₁, p, hcons, hcell, -⟩ := jobqueue_pull_cons h
    rw [hcons]
    simp_all

end QueueHolds

/-! ## The whole memory -/

/-- A caller that is to push a job finds in it the work it was called with. -/
def Pending (heap : Nat → Option (Job α)) : CallerPc α → Prop
  | .pushing a w => ∃ p, heap a = some ⟨p, w⟩
  | _ => True

theorem Pending.congr {heap heap' : Nat → Option (Job α)} {pc : CallerPc α}
    (h : Pending heap pc) (hsame : ∀ a ∈ pc.job, heap' a = heap a) : Pending heap' pc := by
  cases pc with
  | pushing a w =>
    obtain ⟨p, hp⟩ := h
    exact ⟨p, by rw [hsame a (Multiset.mem_singleton_self a), hp]⟩
  | _ => trivial

namespace Pool

variable {n m : Nat}

/-- The jobs in memory, by who has them. -/
def owned (s : Pool n m α) (l : List (Nat × α)) : Multiset Nat :=
  (l.map Prod.fst : Multiset Nat) + tally WorkerPc.job s.workers + tally CallerPc.job s.callers

/-- The queue holds `l`, and every job in memory has one owner. -/
structure Stored (s : Pool n m α) (l : List (Nat × α)) : Prop where
  holds : QueueHolds s.heap s.jobqueue l
  owns : Owns s.heap (s.owned l)
  pending : ∀ c, Pending s.heap (s.callers c)

/-- What was added, in order. -/
def addedOf (t : List (PoolEvent n m α)) : List α :=
  t.filterMap fun
    | .added _ w => some w
    | _ => none

/-- What was taken out of the queue, in order. -/
def takenOf (t : List (PoolEvent n m α)) : List α :=
  t.filterMap fun
    | .pulled _ w => some w
    | .dropped w => some w
    | _ => none

variable {s s' : Pool n m α} {t : List (PoolEvent n m α)} {a : PoolAction n m α}
  {l l' : List (Nat × α)}

/-- Nothing changes if neither the memory nor an owner does. -/
theorem Stored.frame (h : s.Stored l) (hheap : s'.heap = s.heap)
    (hqueue : s'.jobqueue = s.jobqueue)
    (hworkers : tally WorkerPc.job s'.workers = tally WorkerPc.job s.workers)
    (hcallers : tally CallerPc.job s'.callers = tally CallerPc.job s.callers)
    (hpending : ∀ c, Pending s'.heap (s'.callers c)) : s'.Stored l where
  holds := by rw [hheap, hqueue]; exact h.holds
  owns := by
    unfold owned
    rw [hheap, hworkers, hcallers]
    exact h.owns
  pending := hpending

theorem owned_cons (x : Nat × α) : s.owned (x :: l) = x.1 ::ₘ s.owned l := by
  rw [owned, owned, List.map_cons, ← Multiset.cons_coe, Multiset.cons_add, Multiset.cons_add]

theorem mem_owned_of_worker {i : Fin n} {b : Nat} (h : b ∈ (s.workers i).job) :
    b ∈ tally WorkerPc.job s.workers := mem_tally.mpr ⟨i, h⟩

theorem mem_owned_of_caller {c : Fin m} {b : Nat} (h : b ∈ (s.callers c).job) :
    b ∈ tally CallerPc.job s.callers := mem_tally.mpr ⟨c, h⟩

/-- A job that its owner frees is not one of the others. -/
theorem Stored.free (h : s.Stored l) {b : Nat} (howned : s.owned l = b ::ₘ s'.owned l')
    (hholds : QueueHolds s.heap s'.jobqueue l') (hheap : s'.heap = update s.heap b none)
    (hcallers : s'.callers = s.callers) : s'.Stored l' := by
  have howns := h.owns
  rw [howned] at howns
  have hout : b ∉ s'.owned l' := (Multiset.nodup_cons.mp howns.nodup).1
  constructor
  · rw [hheap]
    apply hholds.update
    intro hmem
    exact hout (by simp [owned, hmem])
  · rw [hheap]
    exact howns.free
  · intro c
    rw [hheap]
    apply Pending.congr (by rw [hcallers]; exact h.pending c)
    intro b' hb'
    apply Function.update_of_ne
    rintro rfl
    exact hout (by simp [owned, mem_owned_of_caller hb'])

theorem Stored.finish {i : Fin n} {b : Nat} {w : α} (h : s.Stored l)
    (hpc : s.workers i = .running b w) :
    Stored (({ s with heap := update s.heap b none }).goto i .leaving) l := by
  have hmem : b ∈ tally WorkerPc.job s.workers :=
    mem_owned_of_worker (i := i) (by rw [hpc]; exact Multiset.mem_singleton_self b)
  obtain ⟨T, hT⟩ := Multiset.exists_cons_of_mem hmem
  refine Stored.free h ?_ h.holds rfl rfl
  simp [owned, hpc, WorkerPc.job, hT]

theorem Stored.alloc {c : Fin m} {b : Nat} {w : α} (h : s.Stored l) (hpc : s.callers c = .idle)
    (hfresh : s.heap b = none) :
    Stored (({ s with heap := update s.heap b (some ⟨none, w⟩) }).callerTo c (.pushing b w)) l := by
  have hout : b ∉ s.owned l := fun hmem => (h.owns.mem_iff b).mp hmem hfresh
  constructor
  · apply h.holds.update
    intro hmem
    exact hout (by simp [owned, hmem])
  · have howned : owned (({ s with heap := update s.heap b (some ⟨none, w⟩) }).callerTo c
        (.pushing b w)) l = b ::ₘ s.owned l := by
      simp only [owned, callerTo, tally_update_sub, hpc, CallerPc.job, tsub_zero,
        ← Multiset.singleton_add]
      ac_rfl
    rw [howned]
    exact h.owns.alloc hfresh
  · apply forall_update
    · intro c'
      apply (h.pending c').congr
      intro b' hb'
      apply Function.update_of_ne
      rintro rfl
      exact hout (by simp [owned, mem_owned_of_caller hb'])
    · exact ⟨none, Function.update_self ..⟩

/-- A caller's push goes through. -/
theorem Stored.push_ok {c : Fin m} {b : Nat} {w : α} (h : s.Stored l)
    (hpc : s.callers c = .pushing b w) : jobqueue_push s.heap s.jobqueue b ≠ none := by
  have hmem : b ∈ tally CallerPc.job s.callers :=
    mem_owned_of_caller (c := c) (by rw [hpc]; exact Multiset.mem_singleton_self b)
  obtain ⟨p, hp⟩ : ∃ p, s.heap b = some ⟨p, w⟩ := by
    have := h.pending c
    rw [hpc] at this
    exact this
  obtain ⟨hkeys, -, hdisj⟩ := Multiset.nodup_add.mp h.owns.nodup
  have hout : b ∉ l.map Prod.fst := fun hin =>
    Multiset.disjoint_left.mp hdisj (Multiset.mem_add.mpr (Or.inl hin)) hmem
  have hnodup : (l.map Prod.fst ++ [b]).Nodup := by
    rw [List.nodup_append]
    refine ⟨(Multiset.nodup_add.mp hkeys).1, List.nodup_singleton b, ?_⟩
    rintro x hx y hy rfl
    rw [List.mem_singleton.mp hy] at hx
    exact hout hx
  obtain ⟨heap, q, hspec, -⟩ := jobqueue_push_spec h.holds hp hnodup
  rw [hspec]
  exact Option.some_ne_none _

theorem Stored.push {c : Fin m} {b : Nat} {w : α} {heap : Nat → Option (Job α)} {q : Jobqueue}
    (h : s.Stored l) (hpc : s.callers c = .pushing b w)
    (hpush : jobqueue_push s.heap s.jobqueue b = some (heap, q)) :
    Stored (({ s with heap := heap, jobqueue := q, rwmutex := true }).callerTo c .posting)
      (l ++ [(b, w)]) := by
  have hmem : b ∈ tally CallerPc.job s.callers :=
    mem_owned_of_caller (c := c) (by rw [hpc]; exact Multiset.mem_singleton_self b)
  obtain ⟨T, hT⟩ := Multiset.exists_cons_of_mem hmem
  have hrest : tally CallerPc.job (update s.callers c .posting) = T := by
    simp [hpc, CallerPc.job, hT]
  have howns := h.owns
  have howned : s.owned l = (l.map Prod.fst ++ [b] : List Nat) +
      (tally WorkerPc.job s.workers + T) := by
    rw [owned, hT, ← Multiset.coe_add, Multiset.coe_singleton, ← Multiset.singleton_add]
    ac_rfl
  rw [howned] at howns
  obtain ⟨p, hp⟩ : ∃ p, s.heap b = some ⟨p, w⟩ := by
    have := h.pending c
    rw [hpc] at this
    exact this
  obtain ⟨hkeys, -, hdisj⟩ := Multiset.nodup_add.mp howns.nodup
  obtain ⟨heap', q', hspec, hholds, hsame, hother⟩ := jobqueue_push_spec h.holds hp hkeys
  rw [hpush] at hspec
  obtain ⟨rfl, rfl⟩ : heap = heap' ∧ q = q' := by simpa using hspec
  constructor
  · exact hholds
  · have howned' : owned (({ s with heap := heap, jobqueue := q, rwmutex := true }).callerTo c
        .posting) (l ++ [(b, w)]) = (l.map Prod.fst ++ [b] : List Nat) +
          (tally WorkerPc.job s.workers + T) := by
      rw [owned, callerTo, hrest, List.map_append, List.map_singleton, add_assoc]
    rw [howned']
    exact howns.congr hsame
  · have hpend : ∀ c', Pending s.heap (update s.callers c .posting c') := fun c' =>
      forall_update (P := Pending s.heap) h.pending (by trivial) c'
    intro c'
    apply (hpend c').congr
    intro b' hb'
    have hb'T : b' ∈ T := by
      rw [← hrest]
      exact mem_tally.mpr ⟨c', hb'⟩
    have hb'out : b' ∉ (l.map Prod.fst ++ [b] : List Nat) := by
      intro hin
      exact Multiset.disjoint_left.mp hdisj hin (Multiset.mem_add.mpr (Or.inr hb'T))
    simp only [List.mem_append, List.mem_singleton, not_or] at hb'out
    exact hother b' hb'out.1 hb'out.2

/-- A worker has pulled the first job. -/
theorem Stored.pull {i : Fin n} {b : Nat} {q : Jobqueue} {posts lock : Bool} {job : Job α}
    {pc : WorkerPc α} (h : s.Stored l) (hpc : s.workers i = .pulling)
    (hpull : jobqueue_pull s.heap s.jobqueue = some (some b, q, posts))
    (hjob : s.heap b = some job) (hpc' : pc.job = {b}) :
    ∃ l', Stored (({ s with jobqueue := q, rwmutex := lock }).goto i pc) l' ∧
      l = (b, job.work) :: l' := by
  obtain ⟨l', rfl, hrest⟩ := h.holds.pull_some hpull hjob
  refine ⟨l', ⟨hrest, ?_, h.pending⟩, rfl⟩
  have hzero : (s.workers i).job = 0 := by rw [hpc]; rfl
  have howned : owned (({ s with jobqueue := q, rwmutex := lock }).goto i pc) l' =
      s.owned ((b, job.work) :: l') := by
    rw [owned_cons]
    simp only [owned, goto, tally_update_sub, hzero, hpc', tsub_zero, ← Multiset.singleton_add]
    ac_rfl
  rw [howned]
  exact h.owns

theorem Stored.moves (h : s.Stored l) (hm : Moves s a s' t) :
    ∃ l', s'.Stored l' ∧ l.map Prod.snd ++ addedOf t = takenOf t ++ l'.map Prod.snd := by
  cases hm with
  | pullNone i _ _ q posts hpc _ hpull =>
    obtain ⟨rfl, rfl⟩ := h.holds.pull_none hpull
    exact ⟨[], h.frame rfl rfl (by simp [hpc, WorkerPc.job]) rfl h.pending, rfl⟩
  | pullLast i _ _ b q job hpc _ hpull hjob =>
    have hown : (WorkerPc.running b job.work).job = {b} := rfl
    obtain ⟨l', hl', rfl⟩ := h.pull hpc hpull hjob hown
    exact ⟨l', hl', by simp [addedOf, takenOf]⟩
  | pullOne i _ _ b q job hpc _ hpull hjob =>
    have hown : (WorkerPc.posting b job.work).job = {b} := rfl
    obtain ⟨l', hl', rfl⟩ := h.pull hpc hpull hjob hown
    exact ⟨l', hl', by simp [addedOf, takenOf]⟩
  | post i wakes _ b w hpc hwakes =>
    have hmem : b ∈ tally WorkerPc.job s.workers :=
      mem_owned_of_worker (i := i) (by rw [hpc]; exact Multiset.mem_singleton_self b)
    obtain ⟨T, hT⟩ := Multiset.exists_cons_of_mem hmem
    refine ⟨l, h.frame rfl rfl ?_ rfl h.pending, by simp [addedOf, takenOf]⟩
    simp [hpc, hwakes, WorkerPc.job, hT, ← Multiset.singleton_add, add_comm]
  | finish i _ _ b w job hpc hjob => exact ⟨l, h.finish hpc, by simp [addedOf, takenOf]⟩
  | alloc c w b _ hpc hfresh => exact ⟨l, h.alloc hpc hfresh, by simp [addedOf, takenOf]⟩
  | push c _ b w heap q hpc _ hpush =>
    exact ⟨l ++ [(b, w)], h.push hpc hpush, by simp [addedOf, takenOf]⟩
  | cleared _ _ _ hlen =>
    have hnil : l = [] := List.length_eq_zero_iff.mp (h.holds.len.symm.trans hlen)
    subst hnil
    exact ⟨[], ⟨queueHolds_empty, h.owns, h.pending⟩, rfl⟩
  | dropNone _ _ q posts _ _ hpull =>
    obtain ⟨rfl, rfl⟩ := h.holds.pull_none hpull
    exact ⟨[], h, rfl⟩
  | dropLast _ _ b q job _ _ hpull hjob =>
    obtain ⟨l', rfl, hrest⟩ := h.holds.pull_some hpull hjob
    exact ⟨l', h.free (owned_cons _) hrest rfl rfl, by simp [addedOf, takenOf]⟩
  | dropOne _ _ b q job _ _ hpull hjob hwakes =>
    obtain ⟨l', rfl, hrest⟩ := h.holds.pull_some hpull hjob
    refine ⟨l', h.free ?_ hrest rfl rfl, by simp [addedOf, takenOf]⟩
    rw [owned_cons]
    simp [owned, hwakes]
  | countOutLast i _ rouses hpc _ _ hrouses =>
    refine ⟨l, h.frame rfl rfl (by simp [hpc, WorkerPc.job]) ?_ ?_, by simp [addedOf, takenOf]⟩
    · exact tally_roused CallerPc.steady_job hrouses
    · exact forall_wake (P := Pending s.heap) h.pending (by trivial)
  | _ =>
    refine ⟨l, h.frame rfl rfl ?_ ?_ ?_, ?_⟩
    · simp_all [WorkerPc.job]
    · simp_all [CallerPc.job]
    · first
      | exact h.pending
      | exact fun c => forall_update (P := Pending s.heap) h.pending (by trivial) c
    · simp [addedOf, takenOf]

theorem stored_init (made : Fin n → Bool) : (thpool_init (m := m) (α := α) made).Stored [] where
  holds := queueHolds_empty
  owns := by
    have hworkers : tally WorkerPc.job (thpool_init (m := m) (α := α) made).workers = 0 := by
      apply Finset.sum_eq_zero
      intro i _
      show (if made i then WorkerPc.starting else .unmade).job = 0
      split <;> rfl
    have hcallers : tally CallerPc.job (thpool_init (n := n) (m := m) (α := α) made).callers = 0 :=
      Finset.sum_eq_zero fun _ _ => rfl
    rw [owned, hworkers, hcallers]
    exact owns_empty
  pending := fun _ => trivial

end Pool

end NoGround
