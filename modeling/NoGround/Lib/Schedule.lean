/-
  Lib/Schedule.lean --- threads that take turns, and the schedules they are run by.

  A system of threads is a function `act`: the action names the thread and settles what the
  system leaves open, and the outcome is a next state with the events of the step, or
  `blocked` where that thread cannot go on now, or `fault` where it touches memory that is
  not there.  A schedule is a list of actions; `carryOut` runs it.

  `carryOut_invariant` is the induction over schedules; `carryOut_invariant_mem` is the same
  for what only some actions keep.  `carryOut_rank` bounds them: if a
  step lowers a rank by one, and an action may be charged for raising it, then no schedule is
  longer than the rank it starts from and the charges of its actions.
-/
import Mathlib.Data.List.Basic
import Mathlib.Algebra.BigOperators.Group.List.Basic
import Mathlib.Algebra.GroupWithZero.Nat
import Mathlib.Algebra.Order.Ring.Nat

set_option autoImplicit false

namespace NoGround.Lib

/-- What a step comes to. -/
inductive Outcome (σ ε : Type) where
  /-- The thread cannot go on now. -/
  | blocked
  /-- The thread touches memory that is not there. -/
  | fault
  | next (s : σ) (t : List ε)

section Schedule

variable {ι σ ε : Type}

/-- Run the rest behind a step, and put its events behind those of the step. -/
def Outcome.andThen (r : Outcome σ ε) (k : σ → Outcome σ ε) : Outcome σ ε :=
  match r with
  | .blocked => .blocked
  | .fault => .fault
  | .next s t =>
      match k s with
      | .blocked => .blocked
      | .fault => .fault
      | .next s' u => .next s' (t ++ u)

theorem Outcome.andThen_eq_next {r : Outcome σ ε} {k : σ → Outcome σ ε} {s' : σ} {u : List ε} :
    r.andThen k = .next s' u ↔
      ∃ s t t', r = .next s t ∧ k s = .next s' t' ∧ u = t ++ t' := by
  cases r with
  | blocked => simp [andThen]
  | fault => simp [andThen]
  | next s t =>
    cases hk : k s with
    | blocked => simp [andThen, hk]
    | fault => simp [andThen, hk]
    | next m v =>
      simp only [andThen, hk, Outcome.next.injEq]
      constructor
      · rintro ⟨rfl, rfl⟩
        exact ⟨s, t, v, ⟨rfl, rfl⟩, by simp [hk], rfl⟩
      · rintro ⟨s₁, t₁, v₁, ⟨rfl, rfl⟩, hk₁, rfl⟩
        rw [hk, Outcome.next.injEq] at hk₁
        exact ⟨hk₁.1, by rw [hk₁.2]⟩

/-- The state and the events of a step that was taken. -/
def Outcome.getD (r : Outcome σ ε) (s : σ) : σ × List ε :=
  match r with
  | .next s' t => (s', t)
  | _ => (s, [])

def Outcome.isNext : Outcome σ ε → Bool
  | .next _ _ => true
  | _ => false

theorem Outcome.eq_next {r : Outcome σ ε} (h : r.isNext = true) (s : σ) :
    r = .next (r.getD s).1 (r.getD s).2 := by
  cases r with
  | next => rfl
  | _ => exact nomatch h

variable (act : ι → σ → Outcome σ ε)

/-- Carry out the actions of a schedule, one after the other. -/
def carryOut : List ι → σ → Outcome σ ε
  | [], s => .next s []
  | a :: as, s => (act a s).andThen (carryOut as)

variable {act}

theorem carryOut_cons {a : ι} {as : List ι} {s s' : σ} {u : List ε} :
    carryOut act (a :: as) s = .next s' u ↔
      ∃ m t t', act a s = .next m t ∧ carryOut act as m = .next s' t' ∧ u = t ++ t' :=
  Outcome.andThen_eq_next

/-- The induction over schedules, from any point of a trace, for the actions of one schedule. -/
theorem carryOut_invariant_mem (I : List ε → σ → Prop) {as : List ι}
    (hstep : ∀ t a m u m', a ∈ as → I t m → act a m = .next m' u → I (t ++ u) m')
    {t : List ε} {s s' : σ} {u : List ε} (hinit : I t s)
    (hrun : carryOut act as s = .next s' u) : I (t ++ u) s' := by
  induction as generalizing t s u with
  | nil =>
    rw [carryOut, Outcome.next.injEq] at hrun
    obtain ⟨rfl, rfl⟩ := hrun
    rwa [List.append_nil]
  | cons a as ih =>
    obtain ⟨m, v, v', hact, hrest, rfl⟩ := carryOut_cons.mp hrun
    rw [← List.append_assoc]
    have hfirst := hstep t a s v m List.mem_cons_self hinit hact
    exact ih (fun t a m u m' ha => hstep t a m u m' (List.mem_cons_of_mem _ ha)) hfirst hrest

/-- The induction over schedules. -/
theorem carryOut_invariant (I : List ε → σ → Prop)
    (hstep : ∀ t a m u m', I t m → act a m = .next m' u → I (t ++ u) m')
    {as : List ι} {s s' : σ} {u : List ε} (hinit : I [] s)
    (hrun : carryOut act as s = .next s' u) : I u s' :=
  carryOut_invariant_mem I (fun t a m u m' _ => hstep t a m u m') hinit hrun

/-- A rank that each step lowers, up to what the action is charged, bounds the schedule. -/
theorem carryOut_rank (rank : σ → Int) (cost : ι → Nat)
    (hstep : ∀ a m u m', act a m = .next m' u → rank m' + 1 ≤ rank m + cost a)
    {as : List ι} {s s' : σ} {u : List ε} (hrun : carryOut act as s = .next s' u) :
    as.length + rank s' ≤ rank s + (as.map cost).sum := by
  induction as generalizing s u with
  | nil =>
    rw [carryOut, Outcome.next.injEq] at hrun
    obtain ⟨rfl, -⟩ := hrun
    simp
  | cons a as ih =>
    obtain ⟨m, v, v', hact, hrest, -⟩ := carryOut_cons.mp hrun
    have hfirst := hstep a s v m hact
    have hlater := ih hrest
    rw [List.length_cons, List.map_cons, List.sum_cons]
    omega

end Schedule

end NoGround.Lib
