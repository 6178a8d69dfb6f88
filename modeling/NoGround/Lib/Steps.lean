/-
  Lib/Steps.lean --- runs of a labelled transition system whose labels are lists
  of events.

  `Steps step s t s'` says that a run from `s` to `s'` has the trace `t`, the
  concatenation of the labels.  A step may have an empty label, or a label of
  several events that belong together.

  Two rules carry every proof about runs.  `Steps.invariant` is the induction: a
  relation between the trace so far and the state, kept by each step, holds at
  the end.  `EachEvent` states something of every event of a trace and of the
  events before it, and `eachEvent_append` is how a step extends it; `EachSince` is
  the same for the events behind it.
-/
import Mathlib.Data.List.Basic

set_option autoImplicit false

namespace NoGround.Lib

variable {σ ε : Type}

/-- Runs: any number of steps, with the labels concatenated. -/
inductive Steps (step : σ → List ε → σ → Prop) : σ → List ε → σ → Prop where
  | refl (s : σ) : Steps step s [] s
  | snoc {s m s' : σ} {t u : List ε} (run : Steps step s t m) (last : step m u s') :
      Steps step s (t ++ u) s'

namespace Steps

variable {step : σ → List ε → σ → Prop}

/-- A step that is not seen in the trace. -/
theorem silent {s m s' : σ} {t : List ε} (run : Steps step s t m) (last : step m [] s') :
    Steps step s t s' := by
  have := Steps.snoc run last
  simpa using this

/-- The induction over runs. -/
theorem invariant {s s' : σ} {t : List ε} (run : Steps step s t s')
    (I : List ε → σ → Prop) (hinit : I [] s)
    (hstep : ∀ t m u s', I t m → step m u s' → I (t ++ u) s') : I t s' := by
  induction run with
  | refl => exact hinit
  | snoc _ last ih => exact hstep _ _ _ _ ih last

end Steps

/-! ## Events and what came before them -/

/-- Every event of the trace is related to the events before it. -/
def EachEvent (R : List ε → ε → Prop) (t : List ε) : Prop :=
  ∀ before e after, t = before ++ e :: after → R before e

variable {R : List ε → ε → Prop}

theorem eachEvent_nil : EachEvent R ([] : List ε) := by
  intro before e after h
  simp at h

theorem eachEvent_singleton {e : ε} : EachEvent R [e] ↔ R [] e := by
  constructor
  · intro h
    exact h [] e [] rfl
  · intro h before e' after heq
    cases before with
    | nil =>
      obtain ⟨rfl, -⟩ := List.cons.inj heq
      exact h
    | cons e'' before =>
      obtain ⟨-, hnil⟩ := List.cons.inj heq
      simp at hnil

theorem eachEvent_append {t u : List ε} :
    EachEvent R (t ++ u) ↔
      EachEvent R t ∧ EachEvent (fun before => R (t ++ before)) u := by
  constructor
  · intro h
    refine ⟨?_, ?_⟩
    · intro before e after heq
      exact h before e (after ++ u) (by simp [heq])
    · intro before e after heq
      exact h (t ++ before) e after (by simp [heq])
  · rintro ⟨ht, hu⟩ before e after heq
    rcases List.append_eq_append_iff.mp heq with ⟨mid, hbefore, hmid⟩ | ⟨mid, ht', hmid⟩
    · rw [hbefore]
      exact hu mid e after hmid
    · cases mid with
      | nil =>
        have hbefore : before = t := by simpa using ht'.symm
        have := hu [] e after (by simpa using hmid.symm)
        rw [hbefore]
        simpa using this
      | cons e' mid =>
        obtain ⟨rfl, -⟩ := List.cons.inj hmid
        exact ht before e mid ht'

theorem eachEvent_cons {e : ε} {t : List ε} :
    EachEvent R (e :: t) ↔ R [] e ∧ EachEvent (fun before => R (e :: before)) t := by
  rw [← List.singleton_append, eachEvent_append, eachEvent_singleton]
  rfl

instance decidableEachEvent : (t : List ε) → (R : List ε → ε → Prop) →
    [∀ before e, Decidable (R before e)] → Decidable (EachEvent R t)
  | [], _, _ => .isTrue eachEvent_nil
  | e :: t, R, _ =>
      have := decidableEachEvent t fun before => R (e :: before)
      decidable_of_iff _ eachEvent_cons.symm

/-! ## Events and what came behind them -/

/-- Every event of the trace is related to the events behind it. -/
def EachSince (R : ε → List ε → Prop) (t : List ε) : Prop :=
  ∀ before e after, t = before ++ e :: after → R e after

variable {S : ε → List ε → Prop}

theorem eachSince_nil : EachSince S ([] : List ε) := by
  intro before e after h
  simp at h

theorem eachSince_cons {e : ε} {t : List ε} :
    EachSince S (e :: t) ↔ S e t ∧ EachSince S t := by
  constructor
  · intro h
    refine ⟨h [] e t rfl, ?_⟩
    intro before e' after heq
    exact h (e :: before) e' after (by simp [heq])
  · rintro ⟨he, ht⟩ before e' after heq
    cases before with
    | nil =>
      obtain ⟨rfl, rfl⟩ := List.cons.inj heq
      exact he
    | cons e'' before =>
      obtain ⟨-, hrest⟩ := List.cons.inj heq
      exact ht before e' after hrest

theorem eachSince_append {t u : List ε} :
    EachSince S (t ++ u) ↔ EachSince (fun e after => S e (after ++ u)) t ∧ EachSince S u := by
  induction t with
  | nil => exact ⟨fun h => ⟨eachSince_nil, h⟩, fun h => h.2⟩
  | cons e t ih => rw [List.cons_append, eachSince_cons, eachSince_cons, ih, and_assoc]

/-- What is related stays related, if the events say so. -/
theorem EachSince.imp {S' : ε → List ε → Prop} {t : List ε} (h : EachSince S t)
    (himp : ∀ e ∈ t, ∀ after, S e after → S' e after) : EachSince S' t := by
  intro before e after heq
  exact himp e (by simp [heq]) after (h before e after heq)

end NoGround.Lib
