/-
  Lib/Crew.lean --- a fixed number of threads, each at some point of its program.

  A crew is a function from the threads to the points they are at.  A protocol keeps
  equations between its shared variables and what the threads are doing: the number of
  threads at certain points (`count`), or everything they hold together (`tally`).  One
  thread taking a step changes both by what that thread contributes before and after.
-/
import Mathlib.Algebra.BigOperators.Fin
import Mathlib.Algebra.BigOperators.Group.Finset.Basic
import Mathlib.Algebra.Order.Group.Multiset
import Mathlib.Algebra.Order.BigOperators.Group.Finset
import Mathlib.Algebra.Order.Group.Int

set_option autoImplicit false

namespace NoGround.Lib

open Function (update)

section Crew

variable {n : Nat} {π : Type}

/-- What the threads contribute together. -/
def tally {M : Type} [AddCommMonoid M] (f : π → M) (crew : Fin n → π) : M := ∑ i, f (crew i)

/-- One thread goes on to another point. -/
theorem tally_update {M : Type} [AddCommMonoid M] (f : π → M) (crew : Fin n → π) (i : Fin n)
    (p : π) : tally f (update crew i p) + f (crew i) = tally f crew + f p := by
  have hrest : ∑ j ∈ Finset.univ.erase i, f (update crew i p j) =
      ∑ j ∈ Finset.univ.erase i, f (crew j) := by
    apply Finset.sum_congr rfl
    intro j hj
    rw [Function.update_of_ne (Finset.ne_of_mem_erase hj)]
  unfold tally
  rw [← Finset.sum_erase_add Finset.univ _ (Finset.mem_univ i), hrest,
    ← Finset.sum_erase_add (f := fun j => f (crew j)) Finset.univ (Finset.mem_univ i),
    Function.update_self]
  exact add_right_comm _ _ _

/-- What one thread holds is part of what they hold together. -/
theorem mem_tally {κ : Type} {f : π → Multiset κ} {crew : Fin n → π} {a : κ} :
    a ∈ tally f crew ↔ ∃ i, a ∈ f (crew i) := by
  unfold tally
  rw [Multiset.mem_sum]
  simp

/-- One thread gives up what it held and takes something else. -/
@[simp] theorem tally_update_sub {κ : Type} [DecidableEq κ] (f : π → Multiset κ)
    (crew : Fin n → π) (i : Fin n) (p : π) :
    tally f (update crew i p) = tally f crew - f (crew i) + f p := by
  have hle : f (crew i) ≤ tally f crew :=
    Finset.single_le_sum (f := fun i => f (crew i)) (fun _ _ => Multiset.zero_le _)
      (Finset.mem_univ i)
  rw [tsub_add_eq_add_tsub hle, ← tally_update, add_tsub_cancel_right]

/-- The same for numbers. -/
@[simp] theorem tally_update_int (f : π → Int) (crew : Fin n → π) (i : Fin n) (p : π) :
    tally f (update crew i p) = tally f crew - f (crew i) + f p := by
  have := tally_update f crew i p
  omega

/-- All threads move, and none contributes much more. -/
theorem tally_map_le {f : π → Int} {g : π → π} {d : Int} (crew : Fin n → π)
    (h : ∀ p, f (g p) ≤ f p + d) : tally f (fun i => g (crew i)) ≤ tally f crew + n * d := by
  unfold tally
  calc ∑ i, f (g (crew i)) ≤ ∑ i, (f (crew i) + d) := Finset.sum_le_sum fun i _ => h (crew i)
    _ = ∑ i, f (crew i) + n * d := by simp [Finset.sum_add_distrib]

theorem forall_update {P : π → Prop} {crew : Fin n → π} {i : Fin n} {p : π}
    (h : ∀ j, P (crew j)) (hp : P p) (j : Fin n) : P (update crew i p j) := by
  rcases eq_or_ne j i with rfl | hne
  · rwa [Function.update_self]
  · rw [Function.update_of_ne hne]
    exact h j

/-- All threads move, and none contributes anything else. -/
theorem tally_map {M : Type} [AddCommMonoid M] (f : π → M) (crew : Fin n → π) (g : π → π)
    (h : ∀ p, f (g p) = f p) : tally f (fun i => g (crew i)) = tally f crew := by
  unfold tally
  exact Finset.sum_congr rfl fun i _ => h (crew i)

/-! ## Counting -/

/-- One or nothing. -/
def bit (b : Bool) : Int := if b then 1 else 0

@[simp] theorem bit_true : bit true = 1 := rfl

@[simp] theorem bit_false : bit false = 0 := rfl

theorem bit_eq_one {b : Bool} : bit b = 1 ↔ b = true := by cases b <;> decide

theorem bit_le_one (b : Bool) : bit b ≤ 1 := by cases b <;> decide

theorem bit_nonneg (b : Bool) : 0 ≤ bit b := by cases b <;> decide

/-- The number of threads at such points. -/
def count (P : π → Bool) (crew : Fin n → π) : Int := tally (fun p => bit (P p)) crew

@[simp] theorem count_update (P : π → Bool) (crew : Fin n → π) (i : Fin n) (p : π) :
    count P (update crew i p) = count P crew - bit (P (crew i)) + bit (P p) := by
  have := tally_update (fun p => bit (P p)) crew i p
  unfold count
  omega

theorem count_eq_sum (P : π → Bool) (crew : Fin n → π) :
    count P crew = ∑ i, bit (P (crew i)) := rfl

theorem count_nonneg (P : π → Bool) (crew : Fin n → π) : 0 ≤ count P crew := by
  rw [count_eq_sum]
  exact Finset.sum_nonneg fun i _ => bit_nonneg (P (crew i))

theorem bit_le_count (P : π → Bool) (crew : Fin n → π) (i : Fin n) :
    bit (P (crew i)) ≤ count P crew := by
  rw [count_eq_sum]
  exact Finset.single_le_sum (f := fun i => bit (P (crew i))) (fun _ _ => bit_nonneg _)
    (Finset.mem_univ i)

theorem count_eq_zero {P : π → Bool} {crew : Fin n → π} :
    count P crew = 0 ↔ ∀ i, P (crew i) = false := by
  constructor
  · intro h i
    have hle := bit_le_count P crew i
    cases hP : P (crew i) with
    | false => rfl
    | true =>
      rw [hP, bit_true] at hle
      omega
  · intro h
    rw [count_eq_sum]
    apply Finset.sum_eq_zero
    intro i _
    rw [h i, bit_false]

theorem count_pos {P : π → Bool} {crew : Fin n → π} {i : Fin n} (h : P (crew i) = true) :
    0 < count P crew := by
  have hle := bit_le_count P crew i
  rw [h, bit_true] at hle
  omega

theorem count_le_count {P Q : π → Bool} {crew : Fin n → π} (h : ∀ p, P p = true → Q p = true) :
    count P crew ≤ count Q crew := by
  rw [count_eq_sum, count_eq_sum]
  apply Finset.sum_le_sum
  intro i _
  cases hP : P (crew i) with
  | false => exact bit_nonneg _
  | true => rw [h _ hP]

/-- Two threads at such points are at least two. -/
theorem eq_of_count_le_one {P : π → Bool} {crew : Fin n → π} {i j : Fin n}
    (hone : count P crew ≤ 1) (hi : P (crew i) = true) (hj : P (crew j) = true) : i = j := by
  by_contra hne
  have hsplit := Finset.sum_erase_add (f := fun k => bit (P (crew k))) Finset.univ
    (Finset.mem_univ i)
  have hrest : bit (P (crew j)) ≤ ∑ k ∈ Finset.univ.erase i, bit (P (crew k)) :=
    Finset.single_le_sum (f := fun k => bit (P (crew k))) (fun _ _ => bit_nonneg _)
      (Finset.mem_erase.mpr ⟨fun h => hne h.symm, Finset.mem_univ j⟩)
  have hcount := count_eq_sum P crew
  rw [hi, bit_true] at hsplit
  rw [hj, bit_true] at hrest
  omega

/-- Every thread is at such a point or at another. -/
theorem count_add_count_not (P : π → Bool) (crew : Fin n → π) :
    count P crew + count (fun p => !P p) crew = n := by
  rw [count_eq_sum, count_eq_sum, ← Finset.sum_add_distrib]
  have hone : ∀ i ∈ Finset.univ, bit (P (crew i)) + bit (!P (crew i)) = (1 : Int) := by
    intro i _
    cases P (crew i) <;> rfl
  rw [Finset.sum_congr rfl hone]
  simp

theorem count_le_card (P : π → Bool) (crew : Fin n → π) : count P crew ≤ n := by
  have hsplit := count_add_count_not P crew
  have hrest := count_nonneg (fun p => !P p) crew
  omega

theorem count_eq_card {P : π → Bool} {crew : Fin n → π} :
    count P crew = n ↔ ∀ i, P (crew i) = true := by
  have hsplit := count_add_count_not P crew
  have hzero : count (fun p => !P p) crew = 0 ↔ ∀ i, P (crew i) = true := by
    rw [count_eq_zero]
    simp only [Bool.not_eq_false']
  rw [← hzero]
  omega

/-! ## A lock that threads of two kinds take -/

section Lock

variable {k : Nat} {ρ : Type} {P : π → Bool} {Q : ρ → Bool} {crew : Fin n → π} {others : Fin k → ρ}
  {lock : Bool} {i : Fin n} {j : Fin k}

theorem held_of_left (h : bit lock = count P crew + count Q others) (hi : P (crew i) = true) :
    lock = true := by
  have hpos := count_pos hi
  have hothers := count_nonneg Q others
  have hone := bit_le_one lock
  exact bit_eq_one.mp (by omega)

theorem held_of_right (h : bit lock = count P crew + count Q others) (hj : Q (others j) = true) :
    lock = true := by
  rw [add_comm] at h
  exact held_of_left h hj

/-- A free lock is held by nobody. -/
theorem free_iff (h : bit lock = count P crew + count Q others) :
    lock = false ↔ (∀ i, P (crew i) = false) ∧ ∀ j, Q (others j) = false := by
  rw [← count_eq_zero, ← count_eq_zero]
  have hcrew := count_nonneg P crew
  have hothers := count_nonneg Q others
  cases lock with
  | true => simp only [bit_true] at h; constructor <;> [exact fun h => nomatch h; omega]
  | false => simp only [bit_false] at h; constructor <;> [(intro; omega); exact fun _ => rfl]

/-- While one thread holds the lock, no other thread does. -/
theorem alone_left (h : bit lock = count P crew + count Q others) (hi : P (crew i) = true) :
    (∀ i', P (crew i') = true → i' = i) ∧ ∀ j, Q (others j) = false := by
  have hpos := count_pos hi
  have hothers := count_nonneg Q others
  have hone := bit_le_one lock
  constructor
  · intro i' hi'
    exact eq_of_count_le_one (by omega) hi' hi
  · exact count_eq_zero.mp (by omega)

end Lock

/-! ## Signals -/

/-- A signal on a condition wakes one of the threads that wait on it, if there are any. -/
def wakesOne (asleep : π → Bool) (crew : Fin n → π) : Option (Fin n) → Bool
  | none => decide (∀ i, asleep (crew i) = false)
  | some i => asleep (crew i)

/-- The thread that was woken goes on at `p`. -/
def wake (crew : Fin n → π) (p : π) : Option (Fin n) → Fin n → π
  | none => crew
  | some i => update crew i p

/-- Some thread may always be chosen. -/
theorem exists_wakesOne (asleep : π → Bool) (crew : Fin n → π) :
    ∃ who, wakesOne asleep crew who = true := by
  by_cases h : ∃ i, asleep (crew i) = true
  · obtain ⟨i, hi⟩ := h
    exact ⟨some i, hi⟩
  · refine ⟨none, ?_⟩
    simpa [wakesOne] using h

variable {asleep : π → Bool} {crew : Fin n → π} {who : Option (Fin n)} {p : π}

/-- Being woken changes what a thread contributes in one way. -/
theorem tally_wake {M : Type} [AddCommMonoid M] {f : π → M} (h : wakesOne asleep crew who = true)
    (hf : ∀ q, asleep q = true → f q = f p) : tally f (wake crew p who) = tally f crew := by
  cases who with
  | none => rfl
  | some i =>
    unfold tally
    apply Finset.sum_congr rfl
    intro j _
    by_cases hij : j = i
    · rw [hij, wake, Function.update_self, hf (crew i) h]
    · rw [wake, Function.update_of_ne hij]

theorem tally_wake_le {f : π → Int} {d : Int} (hd : 0 ≤ d)
    (h : wakesOne asleep crew who = true) (hf : ∀ q, asleep q = true → f p ≤ f q + d) :
    tally f (wake crew p who) ≤ tally f crew + d := by
  cases who with
  | none => exact le_add_of_nonneg_right hd
  | some i =>
    have := hf (crew i) h
    rw [wake, tally_update_int]
    omega

theorem forall_wake {P : π → Prop} (h : ∀ j, P (crew j)) (hp : P p) (j : Fin n) :
    P (wake crew p who j) := by
  cases who with
  | none => exact h j
  | some i => exact forall_update h hp j

/-- A signal wakes the only thread that waits. -/
theorem count_wake_last (h : wakesOne asleep crew who = true) (hp : asleep p = false)
    (hone : count asleep crew ≤ 1) : count asleep (wake crew p who) = 0 := by
  cases who with
  | none => exact count_eq_zero.mpr (of_decide_eq_true h)
  | some i =>
    have hpos := count_nonneg asleep (update crew i p)
    have hi : asleep (crew i) = true := h
    rw [count_update, hi, hp, bit_true, bit_false] at hpos
    rw [wake, count_update, hi, hp, bit_true, bit_false]
    omega

/-- After a signal, somebody was woken or nobody was waiting. -/
theorem count_wake_pos {P : π → Bool} (h : wakesOne asleep crew who = true) (hp : P p = true) :
    count asleep (wake crew p who) = 0 ∨ 0 < count P (wake crew p who) := by
  cases who with
  | none => exact Or.inl (count_eq_zero.mpr (of_decide_eq_true h))
  | some i =>
    right
    apply count_pos (i := i)
    rw [wake, Function.update_self, hp]

/-- Whoever does not wait on the condition stays where it is. -/
theorem wake_apply {i : Fin n} (h : wakesOne asleep crew who = true)
    (hi : asleep (crew i) = false) : wake crew p who i = crew i := by
  cases who with
  | none => rfl
  | some j =>
    apply Function.update_of_ne
    rintro rfl
    rw [wakesOne, hi] at h
    exact absurd h Bool.false_ne_true

/-- A thread is where it was, or was waiting and is woken. -/
theorem wake_cases (h : wakesOne asleep crew who = true) (i : Fin n) :
    wake crew p who i = crew i ∨ asleep (crew i) = true ∧ wake crew p who i = p := by
  cases who with
  | none => exact Or.inl rfl
  | some j =>
    by_cases hij : i = j
    · subst hij
      exact Or.inr ⟨h, Function.update_self ..⟩
    · exact Or.inl (Function.update_of_ne hij ..)

end Crew

end NoGround.Lib
