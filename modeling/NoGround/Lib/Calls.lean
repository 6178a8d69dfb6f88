/-
  Lib/Calls.lean --- an object, the calls of its interface, and what it is to answer.

  The code of an object takes a call and a state to an answer and the next state, or to nothing
  where it leaves its memory.  A specification says of a call which answers are allowed, and what
  the object is afterwards.  It may leave a choice, such as whether there was memory.

  `Implements` is the step: from states that stand for each other the code answers, as is
  allowed, and the states after it stand for each other.  `Implements.runs` carries it to any
  number of calls.
-/
import Mathlib.Data.List.Basic

set_option autoImplicit false

namespace NoGround.Lib

section Calls

variable {κ α σ τ : Type}

/-- The answers to a list of calls, in order. -/
def answers (code : κ → σ → Option (α × σ)) : List κ → σ → Option (List α × σ)
  | [], s => some ([], s)
  | c :: cs, s => do
    let (a, s) ← code c s
    let (as, s) ← answers code cs s
    return (a :: as, s)

/-- A list of calls and answers that is allowed, and what the object is behind it. -/
inductive Allowed (spec : κ → τ → α → τ → Prop) : τ → List κ → List α → τ → Prop where
  | nil (t : τ) : Allowed spec t [] [] t
  | cons {t m t' : τ} {c : κ} {a : α} {cs : List κ} {as : List α} (first : spec c t a m)
      (others : Allowed spec m cs as t') : Allowed spec t (c :: cs) (a :: as) t'

/-- The code answers each call that is promised as it is specified. -/
def Implements (code : κ → σ → Option (α × σ)) (spec : κ → τ → α → τ → Prop)
    (promised : κ → τ → Prop) (represents : σ → τ → Prop) : Prop :=
  ∀ c s t, represents s t → promised c t →
    ∃ a s' t', code c s = some (a, s') ∧ spec c t a t' ∧ represents s' t'

/-- Every call of a list is promised, whatever was answered before it. -/
inductive Promised (spec : κ → τ → α → τ → Prop) (promised : κ → τ → Prop) :
    τ → List κ → Prop where
  | nil (t : τ) : Promised spec promised t []
  | cons {t : τ} {c : κ} {cs : List κ} (first : promised c t)
      (others : ∀ a t', spec c t a t' → Promised spec promised t' cs) :
      Promised spec promised t (c :: cs)

variable {code : κ → σ → Option (α × σ)} {spec : κ → τ → α → τ → Prop}
  {promised : κ → τ → Prop} {represents : σ → τ → Prop}

/-- **Every run of calls is answered as it is specified.** -/
theorem Implements.runs (h : Implements code spec promised represents) {cs : List κ} {s : σ}
    {t : τ} (hrep : represents s t) (hcs : Promised spec promised t cs) :
    ∃ as s' t', answers code cs s = some (as, s') ∧ Allowed spec t cs as t' ∧
      represents s' t' := by
  induction cs generalizing s t with
  | nil => exact ⟨[], s, t, rfl, .nil t, hrep⟩
  | cons c cs ih =>
    obtain ⟨hfirst, hothers⟩ : promised c t ∧ ∀ a t', spec c t a t' →
        Promised spec promised t' cs := by
      cases hcs with
      | cons first others => exact ⟨first, others⟩
    obtain ⟨a, m, tm, hcode, hspec, hrepm⟩ := h c s t hrep hfirst
    obtain ⟨as, s', t', hrest, hallowed, hrep'⟩ := ih hrepm (hothers a tm hspec)
    refine ⟨a :: as, s', t', ?_, .cons hspec hallowed, hrep'⟩
    rw [answers, hcode]
    show ((answers code cs m).bind fun r => some (a :: r.1, r.2)) = _
    rw [hrest]
    rfl

/-- A promise that does not depend on what the object is. -/
theorem Promised.of_forall {valid : κ → Prop} {cs : List κ} (hcs : ∀ c ∈ cs, valid c) (t : τ) :
    Promised spec (fun c _ => valid c) t cs := by
  induction cs generalizing t with
  | nil => exact .nil t
  | cons c cs ih =>
    apply Promised.cons (hcs c List.mem_cons_self)
    intro a t' _
    exact ih (fun c' hc' => hcs c' (List.mem_cons_of_mem c hc')) t'

end Calls

end NoGround.Lib
