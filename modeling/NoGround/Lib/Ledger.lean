/-
  Lib/Ledger.lean --- what is held after a trace of gains and losses.

  A trace mentions names (descriptors, tickets, tenants) that some of its events
  gain and others lose.  `held` computes the names held at the end.  The same
  trace can be read under several classifications: the descriptors that are
  open, and the descriptors that are registered, are two ledgers of one trace.

  `Fresh` is the promise of an allocator: a name is gained only while it is not
  held.  It is inherited by every initial part of a trace, which is what lets it
  serve as a hypothesis in an induction over runs.
-/
import Mathlib.Data.List.Nodup

set_option autoImplicit false

namespace NoGround.Lib

/-- What one event does to the holdings. -/
inductive Move (α : Type) where
  | gain (a : α)
  | lose (a : α)
  | idle
  deriving DecidableEq, Repr

section Ledger

variable {α ε : Type} [DecidableEq α]

/-- The holdings after one move. -/
def Move.apply (h : List α) : Move α → List α
  | .gain a => a :: h
  | .lose a => h.erase a
  | .idle => h

/-- The move gains nothing that is held already. -/
def Move.FreshFor (h : List α) : Move α → Prop
  | .gain a => a ∉ h
  | .lose _ => True
  | .idle => True

instance (h : List α) : (m : Move α) → Decidable (m.FreshFor h)
  | .gain a => inferInstanceAs (Decidable (a ∉ h))
  | .lose _ => inferInstanceAs (Decidable True)
  | .idle => inferInstanceAs (Decidable True)

variable (move : ε → Move α)

/-- The holdings after a trace, from the holdings `h`. -/
def heldFrom (h : List α) : List ε → List α
  | [] => h
  | e :: tr => heldFrom ((move e).apply h) tr

/-- The holdings after a trace. -/
def held (tr : List ε) : List α := heldFrom move [] tr

/-- Every gain of the trace is fresh, from the holdings `h`. -/
def FreshFrom (h : List α) : List ε → Prop
  | [] => True
  | e :: tr => (move e).FreshFor h ∧ FreshFrom ((move e).apply h) tr

instance decidableFreshFrom :
    (tr : List ε) → (h : List α) → Decidable (FreshFrom move h tr)
  | [], _ => inferInstanceAs (Decidable True)
  | e :: tr, h =>
      have := decidableFreshFrom tr ((move e).apply h)
      inferInstanceAs (Decidable (_ ∧ _))

/-- No name is gained while it is held. -/
def Fresh (tr : List ε) : Prop := FreshFrom move [] tr

instance (tr : List ε) : Decidable (Fresh move tr) := decidableFreshFrom move tr []

theorem heldFrom_append (h : List α) (t u : List ε) :
    heldFrom move h (t ++ u) = heldFrom move (heldFrom move h t) u := by
  induction t generalizing h with
  | nil => rfl
  | cons e t ih => exact ih _

@[simp] theorem held_nil : held move ([] : List ε) = [] := rfl

theorem held_append (t u : List ε) :
    held move (t ++ u) = heldFrom move (held move t) u :=
  heldFrom_append move [] t u

theorem freshFrom_append (h : List α) (t u : List ε) :
    FreshFrom move h (t ++ u) ↔
      FreshFrom move h t ∧ FreshFrom move (heldFrom move h t) u := by
  induction t generalizing h with
  | nil => simp [FreshFrom, heldFrom]
  | cons e t ih => simp [FreshFrom, heldFrom, ih, and_assoc]

/-- A fresh trace splits into a fresh trace and one that is fresh after it. -/
theorem fresh_append (t u : List ε) :
    Fresh move (t ++ u) ↔ Fresh move t ∧ FreshFrom move (held move t) u :=
  freshFrom_append move [] t u

/-- A name held at the end and gained by none of the events was held before
them. -/
theorem mem_of_mem_heldFrom {a : α} {h : List α} {tr : List ε}
    (ha : a ∈ heldFrom move h tr) (hno : ∀ e ∈ tr, move e ≠ .gain a) : a ∈ h := by
  induction tr generalizing h with
  | nil => exact ha
  | cons e tr ih =>
    have hmem := ih ha (fun e' he' => hno e' (List.mem_cons_of_mem e he'))
    have hne := hno e List.mem_cons_self
    cases hmove : move e with
    | gain b =>
      rw [hmove] at hmem hne
      rcases List.mem_cons.mp hmem with rfl | hmem
      · exact absurd rfl hne
      · exact hmem
    | lose b => rw [hmove] at hmem; exact List.mem_of_mem_erase hmem
    | idle => rw [hmove] at hmem; exact hmem

/-- A name stays held while no event loses it. -/
theorem mem_heldFrom_of_mem {a : α} {h : List α} {tr : List ε} (ha : a ∈ h)
    (hno : ∀ e ∈ tr, move e ≠ .lose a) : a ∈ heldFrom move h tr := by
  induction tr generalizing h with
  | nil => exact ha
  | cons e tr ih =>
    have hne := hno e List.mem_cons_self
    refine ih ?_ (fun e' he' => hno e' (List.mem_cons_of_mem e he'))
    cases hmove : move e with
    | gain b => exact List.mem_cons_of_mem b ha
    | lose b =>
      rw [hmove] at hne
      have hab : a ≠ b := fun heq => hne (by rw [heq])
      exact (List.mem_erase_of_ne hab).mpr ha
    | idle => exact ha

/-- Idle events change nothing. -/
theorem heldFrom_of_idle {h : List α} {tr : List ε} (hidle : ∀ e ∈ tr, move e = .idle) :
    heldFrom move h tr = h := by
  induction tr with
  | nil => rfl
  | cons e tr ih =>
    obtain ⟨he, htr⟩ := List.forall_mem_cons.mp hidle
    show heldFrom move ((move e).apply h) tr = h
    rw [he]
    exact ih htr

/-- A tenure without interruption: a name held at the end and gained by none of
the later events was held already before them. -/
theorem mem_held_of_append {a : α} {t u : List ε} (ha : a ∈ held move (t ++ u))
    (hno : ∀ e ∈ u, move e ≠ .gain a) : a ∈ held move t := by
  rw [held_append] at ha
  exact mem_of_mem_heldFrom move ha hno

end Ledger

end NoGround.Lib
