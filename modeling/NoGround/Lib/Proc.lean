/-
  Lib/Proc.lean --- programs that read and write a state, may halt, and leave a
  trace of events.

  A C function that makes system calls and calls back into its client is
  modelled as a `Proc`: from the state it starts in it produces an outcome (a
  value, or the reason it halted), the state it stops in and the events it
  emitted.  A halted program keeps its last state and its trace, so a property
  of "every event up to the halt" can be stated.

  THE LOGIC.  `Triple P m Q E` reads: from a trace and a state that satisfy `P`,
  the program `m` either returns `a` and satisfies `Q a`, or halts with `e` and
  satisfies `E e`.  The trace in the assertions is the whole trace so far, not
  the part `m` emits, so that an invariant may relate the state to the history.

  Nothing in this file depends on what the state, the events or the halting
  reasons are.
-/
import Mathlib.Data.List.Basic

set_option autoImplicit false

namespace NoGround.Lib

/-- What one run leaves behind. -/
structure Result (η σ ε α : Type) where
  /-- the returned value, or why the program halted -/
  outcome : Except η α
  /-- the state at the end -/
  state : σ
  /-- the events emitted, oldest first -/
  out : List ε

/-- A run that returned, in full. -/
theorem Result.eq_ok {η σ ε α : Type} {r : Result η σ ε α} {a : α} (h : r.outcome = .ok a) :
    r = ⟨.ok a, r.state, r.out⟩ := by
  rw [← h]

/-- The value of a run that returned. -/
theorem Result.ok_inj {η σ ε α : Type} {a a' : α} {s s' : σ} {out out' : List ε}
    (h : (⟨.ok a, s, out⟩ : Result η σ ε α) = ⟨.ok a', s', out'⟩) : a = a' := by
  injection h with hvalue _ _
  exact Except.ok.inj hvalue

/-- A program over the state `σ`, halting with `η`, emitting `ε`, returning `α`. -/
def Proc (η σ ε α : Type) : Type := σ → Result η σ ε α

namespace Proc

variable {η σ τ ε ε' α β : Type}

/-- Return a value. -/
protected def pure (a : α) : Proc η σ ε α := fun s => ⟨.ok a, s, []⟩

/-- Run `m`, then the program its value selects. -/
protected def bind (m : Proc η σ ε α) (f : α → Proc η σ ε β) : Proc η σ ε β := fun s =>
  match m s with
  | ⟨.error e, s', out⟩ => ⟨.error e, s', out⟩
  | ⟨.ok a, s', out⟩ =>
      match f a s' with
      | ⟨r, s'', out'⟩ => ⟨r, s'', out ++ out'⟩

instance : Monad (Proc η σ ε) where
  pure := Proc.pure
  bind := Proc.bind

/-- Stop the whole program. -/
def halt (e : η) : Proc η σ ε α := fun s => ⟨.error e, s, []⟩

/-- Append one event to the trace. -/
def emit (e : ε) : Proc η σ ε Unit := fun s => ⟨.ok (), s, [e]⟩

/-- Change the state. -/
def modify (f : σ → σ) : Proc η σ ε Unit := fun s => ⟨.ok (), f s, []⟩

/-- A step of the state that returns a value and is not traced. -/
def step (f : σ → α × σ) : Proc η σ ε α := fun s => ⟨.ok (f s).1, (f s).2, []⟩

/-- A computation that either has a value or halts. -/
def ofExcept : Except η α → Proc η σ ε α
  | .ok a => Proc.pure a
  | .error e => halt e

/-- Run a program of the component `get s` of the state; its events are renamed
by `f`. -/
def zoom (get : σ → τ) (set : σ → τ → σ) (f : ε' → ε) (m : Proc η τ ε' α) :
    Proc η σ ε α := fun s =>
  match m (get s) with
  | ⟨r, t, out⟩ => ⟨r, set s t, out.map f⟩

/-- Rename the events of a program. -/
def mapOut (f : ε' → ε) (m : Proc η σ ε' α) : Proc η σ ε α :=
  zoom id (fun _ s => s) f m

/-- Run `m` if the condition holds. -/
def when (c : Prop) [Decidable c] (m : Proc η σ ε Unit) : Proc η σ ε Unit :=
  if c then m else Proc.pure ()

/-- A loop over an index.  The body returns the next index; at most `fuel` rounds
are made, and a loop that wants more of them halts with `stuck`. -/
def loop (stuck : η) (cond : Nat → σ → Bool) (body : Nat → Proc η σ ε Nat) :
    Nat → Nat → Proc η σ ε Unit
  | 0, i => fun s => if cond i s then ⟨.error stuck, s, []⟩ else ⟨.ok (), s, []⟩
  | fuel + 1, i => fun s =>
      if cond i s then (body i >>= fun j => loop stuck cond body fuel j) s
      else ⟨.ok (), s, []⟩

/-- Run `m` once for each element, first to last. -/
def forEach (f : α → Proc η σ ε Unit) : List α → Proc η σ ε Unit
  | [] => Proc.pure ()
  | a :: as => f a >>= fun _ => forEach f as

/-- Run `m` `n` times. -/
def times (m : Proc η σ ε Unit) : Nat → Proc η σ ε Unit
  | 0 => Proc.pure ()
  | n + 1 => m >>= fun _ => times m n

/-- The state in front of round `k` of a loop that counts up from `i`. -/
def rounds (body : Nat → Proc η σ ε Nat) (i : Nat) (s : σ) : Nat → σ
  | 0 => s
  | k + 1 => (body (i + k) (rounds body i s k)).state

/-! ## What each construct does to a state -/

@[simp] theorem pure_run (a : α) (s : σ) :
    (pure a : Proc η σ ε α) s = ⟨.ok a, s, []⟩ := rfl

theorem bind_run_ok {m : Proc η σ ε α} {s s' : σ} {a : α} {out : List ε}
    (h : m s = ⟨.ok a, s', out⟩) (f : α → Proc η σ ε β) :
    (m >>= f) s = ⟨(f a s').outcome, (f a s').state, out ++ (f a s').out⟩ := by
  show Proc.bind m f s = _
  simp [Proc.bind, h]

theorem bind_run_error {m : Proc η σ ε α} {s s' : σ} {e : η} {out : List ε}
    (h : m s = ⟨.error e, s', out⟩) (f : α → Proc η σ ε β) :
    (m >>= f) s = ⟨.error e, s', out⟩ := by
  show Proc.bind m f s = _
  simp [Proc.bind, h]

@[simp] theorem halt_run (e : η) (s : σ) :
    (halt e : Proc η σ ε α) s = ⟨.error e, s, []⟩ := rfl

@[simp] theorem emit_run (e : ε) (s : σ) :
    (emit e : Proc η σ ε Unit) s = ⟨.ok (), s, [e]⟩ := rfl

@[simp] theorem modify_run (f : σ → σ) (s : σ) :
    (modify f : Proc η σ ε Unit) s = ⟨.ok (), f s, []⟩ := rfl

@[simp] theorem step_run (f : σ → α × σ) (s : σ) :
    (step f : Proc η σ ε α) s = ⟨.ok (f s).1, (f s).2, []⟩ := rfl

@[simp] theorem pure_bind_run (a : α) (f : α → Proc η σ ε β) (s : σ) :
    ((pure a : Proc η σ ε α) >>= f) s = f a s := by
  rw [bind_run_ok (pure_run a s)]; simp

@[simp] theorem emit_bind_run (e : ε) (f : Unit → Proc η σ ε β) (s : σ) :
    ((emit e : Proc η σ ε Unit) >>= f) s =
      ⟨(f () s).outcome, (f () s).state, e :: (f () s).out⟩ :=
  bind_run_ok (emit_run e s) f

@[simp] theorem modify_bind_run (g : σ → σ) (f : Unit → Proc η σ ε β) (s : σ) :
    ((modify g : Proc η σ ε Unit) >>= f) s = f () (g s) := by
  rw [bind_run_ok (modify_run g s)]; simp

@[simp] theorem step_bind_run (g : σ → α × σ) (f : α → Proc η σ ε β) (s : σ) :
    ((step g : Proc η σ ε α) >>= f) s = f (g s).1 (g s).2 := by
  rw [bind_run_ok (step_run g s)]; simp

@[simp] theorem ofExcept_ok (a : α) :
    (ofExcept (.ok a) : Proc η σ ε α) = pure a := rfl

theorem when_pos {c : Prop} [Decidable c] (h : c) (m : Proc η σ ε Unit) : when c m = m :=
  if_pos h

theorem when_neg {c : Prop} [Decidable c] (h : ¬ c) (m : Proc η σ ε Unit) :
    when c m = pure () :=
  if_neg h

theorem bind_assoc_run {γ : Type} (m : Proc η σ ε α) (f : α → Proc η σ ε β)
    (g : β → Proc η σ ε γ) (s : σ) :
    ((m >>= f) >>= g) s = (m >>= fun a => f a >>= g) s := by
  rcases hm : m s with ⟨r, s', out⟩
  cases r with
  | error e =>
    rw [bind_run_error hm, bind_run_error (bind_run_error hm f)]
  | ok a =>
    rw [bind_run_ok hm]
    rcases hf : f a s' with ⟨r', s'', out'⟩
    have hmf : (m >>= f) s = ⟨r', s'', out ++ out'⟩ := by rw [bind_run_ok hm, hf]
    cases r' with
    | error e => rw [bind_run_error hmf, bind_run_error hf]
    | ok b => rw [bind_run_ok hmf, bind_run_ok hf]; simp

theorem pure_bind_eq (a : α) (f : α → Proc η σ ε β) : (pure a >>= f) = f a :=
  funext (pure_bind_run a f)

theorem bind_assoc_eq {γ : Type} (m : Proc η σ ε α) (f : α → Proc η σ ε β)
    (g : β → Proc η σ ε γ) : ((m >>= f) >>= g) = m >>= fun a => f a >>= g :=
  funext (bind_assoc_run m f g)

theorem bind_pure_eq (m : Proc η σ ε α) : (m >>= fun a => (pure a : Proc η σ ε α)) = m := by
  funext s
  rcases hm : m s with ⟨r, s', out⟩
  cases r with
  | error e => exact bind_run_error hm _
  | ok a =>
    refine (bind_run_ok hm _).trans ?_
    rw [pure_run, List.append_nil]

/-- A program whose value is replaced. -/
theorem bind_pure_run (m : Proc η σ ε α) (b : β) (s : σ) :
    (m >>= fun _ => (pure b : Proc η σ ε β)) s =
      ⟨(m s).outcome.map fun _ => b, (m s).state, (m s).out⟩ := by
  rcases hm : m s with ⟨r, s', out⟩
  cases r with
  | error e => rw [bind_run_error hm]; rfl
  | ok a => rw [bind_run_ok hm]; simp [Except.map]

theorem out_bind_pure (m : Proc η σ ε α) (f : α → β) (s : σ) :
    ((m >>= fun a => pure (f a)) s).out = (m s).out := by
  rcases hm : m s with ⟨r, s', out⟩
  cases r with
  | error e => rw [bind_run_error hm]
  | ok a => rw [bind_run_ok hm]; simp

/-- A program that goes on for longer emits the same first. -/
theorem out_bind_prefix {f : α → Proc η σ ε β} {γ : Type} {g : α → Proc η σ ε γ}
    (h : ∀ a s, (f a s).out <+: (g a s).out) (m : Proc η σ ε α) (s : σ) :
    ((m >>= f) s).out <+: ((m >>= g) s).out := by
  rcases hm : m s with ⟨r, s', out⟩
  cases r with
  | error e =>
    have hout : ((m >>= f) s).out = ((m >>= g) s).out := by
      rw [bind_run_error hm, bind_run_error hm]
    exact hout ▸ List.prefix_rfl
  | ok a =>
    rw [bind_run_ok hm, bind_run_ok hm]
    exact (List.prefix_append_right_inj out).mpr (h a s')

theorem mapOut_run (f : ε' → ε) (m : Proc η σ ε' α) (s : σ) :
    mapOut f m s = ⟨(m s).outcome, (m s).state, (m s).out.map f⟩ := rfl

/-! ## Loops that count -/

/-- The rounds behind the first one. -/
theorem rounds_succ (body : Nat → Proc η σ ε Nat) (i : Nat) (s : σ) (k : Nat) :
    rounds body i s (k + 1) = rounds body (i + 1) (body i s).state k := by
  induction k with
  | zero => rfl
  | succ k ih =>
    have hindex : i + (k + 1) = i + 1 + k := by omega
    rw [rounds, ih, rounds, hindex]

/-- A loop whose rounds return and count up ends in front of the first round that is not
made. -/
theorem loop_rounds {stuck : η} {cond : Nat → σ → Bool} {body : Nat → Proc η σ ε Nat} {n : Nat} :
    ∀ (i fuel : Nat) (s : σ), n ≤ fuel →
      (∀ k < n, cond (i + k) (rounds body i s k) = true ∧
        (body (i + k) (rounds body i s k)).outcome = .ok (i + k + 1)) →
      cond (i + n) (rounds body i s n) = false →
      ∃ out, loop stuck cond body fuel i s = ⟨.ok (), rounds body i s n, out⟩ := by
  induction n with
  | zero =>
    intro i fuel s _ _ hend
    have hstop : cond i s = false := hend
    cases fuel with
    | zero => exact ⟨[], by simp [loop, hstop, rounds]⟩
    | succ fuel => exact ⟨[], by simp [loop, hstop, rounds]⟩
  | succ n ih =>
    intro i fuel s hfuel hround hend
    obtain ⟨fuel, rfl⟩ : ∃ f, fuel = f + 1 := ⟨fuel - 1, by omega⟩
    obtain ⟨hcond, hbody⟩ := hround 0 (by omega)
    have hfirst : body i s = ⟨.ok (i + 1), (body i s).state, (body i s).out⟩ :=
      Result.eq_ok hbody
    have hshift : ∀ k, i + 1 + k = i + (k + 1) := by
      intro k
      omega
    have hround' : ∀ k < n, cond (i + 1 + k) (rounds body (i + 1) (body i s).state k) = true ∧
        (body (i + 1 + k) (rounds body (i + 1) (body i s).state k)).outcome =
          .ok (i + 1 + k + 1) := by
      intro k hk
      rw [← rounds_succ, hshift]
      exact hround (k + 1) (by omega)
    have hend' : cond (i + 1 + n) (rounds body (i + 1) (body i s).state n) = false := by
      rw [← rounds_succ, hshift]
      exact hend
    obtain ⟨out, hrest⟩ := ih (i + 1) fuel (body i s).state (by omega) hround' hend'
    have hgo : cond i s = true := hcond
    refine ⟨(body i s).out ++ out, ?_⟩
    rw [rounds_succ]
    unfold loop
    rw [if_pos hgo, bind_run_ok hfirst, hrest]

/-- Rounds that go on where others returned. -/
theorem times_add_run {m : Proc η σ ε Unit} {n : Nat} {s s' : σ} {out : List ε}
    (h : times m n s = ⟨.ok (), s', out⟩) (k : Nat) :
    times m (n + k) s =
      ⟨(times m k s').outcome, (times m k s').state, out ++ (times m k s').out⟩ := by
  induction n generalizing s out with
  | zero =>
    cases h
    rw [Nat.zero_add, List.nil_append]
  | succ n ih =>
    rw [Nat.add_right_comm, times]
    rw [times] at h
    rcases hm : m s with ⟨r, s₁, out₁⟩
    cases r with
    | error e =>
      rw [bind_run_error hm] at h
      cases h
    | ok a =>
      rw [bind_run_ok hm] at h
      injection h with hok hstate hout
      have hrest : times m n s₁ = ⟨.ok (), s', (times m n s₁).out⟩ := by
        rw [← hok, ← hstate]
      rw [bind_run_ok hm, ih hrest, ← hout, List.append_assoc]

/-! ## Programs that return -/

/-- The program never halts. -/
def Returns (m : Proc η σ ε α) : Prop := ∀ s, ∃ a, (m s).outcome = .ok a

namespace Returns

theorem run {m : Proc η σ ε α} (h : Returns m) (s : σ) :
    ∃ a s' out, m s = ⟨.ok a, s', out⟩ := by
  obtain ⟨a, ha⟩ := h s
  exact ⟨a, (m s).state, (m s).out, by rw [← ha]⟩

theorem pure (a : α) : Returns (Pure.pure a : Proc η σ ε α) := fun _ => ⟨a, rfl⟩

theorem emit (e : ε) : Returns (Proc.emit e : Proc η σ ε Unit) := fun _ => ⟨(), rfl⟩

theorem bind {m : Proc η σ ε α} {f : α → Proc η σ ε β} (hm : Returns m)
    (hf : ∀ a, Returns (f a)) : Returns (m >>= f) := by
  intro s
  obtain ⟨a, s', out, hrun⟩ := hm.run s
  obtain ⟨b, hb⟩ := hf a s'
  rw [bind_run_ok hrun]
  exact ⟨b, hb⟩

theorem ite {c : Prop} [Decidable c] {m₁ m₂ : Proc η σ ε α} (h₁ : Returns m₁)
    (h₂ : Returns m₂) : Returns (if c then m₁ else m₂) := by
  split
  · exact h₁
  · exact h₂

theorem mapOut {m : Proc η σ ε' α} (h : Returns m) (f : ε' → ε) :
    Returns (Proc.mapOut f m) := by
  intro s
  obtain ⟨a, ha⟩ := h s
  exact ⟨a, ha⟩

end Returns

/-! ## What a program emits -/

/-- Every event the program emits satisfies `P`, from whatever state it is run. -/
def Emits (P : ε → Prop) (m : Proc η σ ε α) : Prop := ∀ s, ∀ e ∈ (m s).out, P e

namespace Emits

variable {P : ε → Prop}

theorem of_silent {m : Proc η σ ε α} (h : ∀ s, (m s).out = []) : Emits P m := by
  intro s e he
  rw [h s] at he
  cases he

theorem pure (a : α) : Emits P (Pure.pure a : Proc η σ ε α) := of_silent fun _ => rfl

theorem halt (e : η) : Emits P (Proc.halt e : Proc η σ ε α) := of_silent fun _ => rfl

theorem step (f : σ → α × σ) : Emits P (Proc.step f : Proc η σ ε α) := of_silent fun _ => rfl

theorem modify (f : σ → σ) : Emits P (Proc.modify f : Proc η σ ε Unit) :=
  of_silent fun _ => rfl

theorem emit {e : ε} (h : P e) : Emits P (Proc.emit e : Proc η σ ε Unit) := by
  intro s e' he'
  rw [List.mem_singleton.mp he']
  exact h

theorem bind {m : Proc η σ ε α} {f : α → Proc η σ ε β} (hm : Emits P m)
    (hf : ∀ a, Emits P (f a)) : Emits P (m >>= f) := by
  intro s e he
  have hfirst := hm s
  rcases hrun : m s with ⟨r, s', out⟩
  rw [hrun] at hfirst
  cases r with
  | error err =>
    rw [bind_run_error hrun] at he
    exact hfirst e he
  | ok a =>
    rw [bind_run_ok hrun] at he
    rcases List.mem_append.mp he with he | he
    · exact hfirst e he
    · exact hf a s' e he

theorem ite {c : Prop} [Decidable c] {m₁ m₂ : Proc η σ ε α} (h₁ : Emits P m₁)
    (h₂ : Emits P m₂) : Emits P (if c then m₁ else m₂) := by
  split
  · exact h₁
  · exact h₂

theorem when {c : Prop} [Decidable c] {m : Proc η σ ε Unit} (h : Emits P m) :
    Emits P (Proc.when c m) :=
  ite h (pure ())

theorem ofExcept (x : Except η α) : Emits P (Proc.ofExcept x : Proc η σ ε α) := by
  refine of_silent fun s => ?_
  cases x <;> rfl

theorem mapOut {Q : ε' → Prop} {f : ε' → ε} {m : Proc η σ ε' α} (h : Emits Q m)
    (hf : ∀ e, Q e → P (f e)) : Emits P (Proc.mapOut f m) := by
  intro s e he
  rw [mapOut_run] at he
  obtain ⟨e', he', rfl⟩ := List.mem_map.mp he
  exact hf e' (h s e' he')

theorem loop {stuck : η} {cond : Nat → σ → Bool} {body : Nat → Proc η σ ε Nat}
    (h : ∀ i, Emits P (body i)) : ∀ fuel i, Emits P (Proc.loop stuck cond body fuel i) := by
  intro fuel
  induction fuel with
  | zero =>
    intro i s e he
    unfold Proc.loop at he
    split at he <;> cases he
  | succ fuel ih =>
    intro i s e he
    unfold Proc.loop at he
    split at he
    · exact bind (h i) ih s e he
    · cases he

end Emits

/-! ## Triples -/

/-- The assertion a result satisfies after the trace `t`. -/
def Post (Q : α → List ε → σ → Prop) (E : η → List ε → σ → Prop) (t : List ε)
    (r : Result η σ ε α) : Prop :=
  match r.outcome with
  | .ok a => Q a (t ++ r.out) r.state
  | .error e => E e (t ++ r.out) r.state

/-- From `P`, the program returns within `Q` or halts within `E`. -/
def Triple (P : List ε → σ → Prop) (m : Proc η σ ε α)
    (Q : α → List ε → σ → Prop) (E : η → List ε → σ → Prop) : Prop :=
  ∀ t s, P t s → Post Q E t (m s)

/-- The program keeps the assertion `I`, whether it returns or halts. -/
def Keeps (I : List ε → σ → Prop) (m : Proc η σ ε α) : Prop :=
  Triple I m (fun _ => I) (fun _ => I)

namespace Triple

variable {P P' : List ε → σ → Prop} {Q Q' : α → List ε → σ → Prop}
  {R : β → List ε → σ → Prop} {E E' : η → List ε → σ → Prop}

theorem ok {m : Proc η σ ε α} (h : Triple P m Q E) {s s' : σ} {a : α}
    {t out : List ε} (hp : P t s) (hm : m s = ⟨.ok a, s', out⟩) : Q a (t ++ out) s' := by
  have := h t s hp
  rwa [hm] at this

theorem error {m : Proc η σ ε α} (h : Triple P m Q E) {s s' : σ} {e : η}
    {t out : List ε} (hp : P t s) (hm : m s = ⟨.error e, s', out⟩) :
    E e (t ++ out) s' := by
  have := h t s hp
  rwa [hm] at this

theorem conseq {m : Proc η σ ε α} (h : Triple P m Q E)
    (hp : ∀ t s, P' t s → P t s) (hq : ∀ a t s, Q a t s → Q' a t s)
    (he : ∀ e t s, E e t s → E' e t s) : Triple P' m Q' E' := by
  intro t s hps
  have hm := h t s (hp t s hps)
  unfold Post at hm ⊢
  split at hm
  · exact hq _ _ _ hm
  · exact he _ _ _ hm

theorem strengthen {m : Proc η σ ε α} (h : Triple P m Q E)
    (hp : ∀ t s, P' t s → P t s) : Triple P' m Q E :=
  h.conseq hp (fun _ _ _ hq => hq) (fun _ _ _ he => he)

theorem weaken {m : Proc η σ ε α} (h : Triple P m Q E)
    (hq : ∀ a t s, Q a t s → Q' a t s) : Triple P m Q' E :=
  h.conseq (fun _ _ hp => hp) hq (fun _ _ _ he => he)

/-- Two triples for one program. -/
theorem and {m : Proc η σ ε α} (h : Triple P m Q E) (h' : Triple P' m Q' E') :
    Triple (fun t s => P t s ∧ P' t s) m (fun a t s => Q a t s ∧ Q' a t s)
      (fun e t s => E e t s ∧ E' e t s) := by
  rintro t s ⟨hp, hp'⟩
  have hpost := h t s hp
  have hpost' := h' t s hp'
  unfold Post at hpost hpost' ⊢
  split at hpost
  · rename_i hok
    rw [hok] at hpost'
    exact ⟨hpost, hpost'⟩
  · rename_i herror
    rw [herror] at hpost'
    exact ⟨hpost, hpost'⟩

theorem pure {a : α} (h : ∀ t s, P t s → Q a t s) :
    Triple P (Pure.pure a : Proc η σ ε α) Q E := by
  intro t s hp
  simpa [Post] using h t s hp

theorem bind {m : Proc η σ ε α} {f : α → Proc η σ ε β}
    (hm : Triple P m Q E) (hf : ∀ a, Triple (Q a) (f a) R E) :
    Triple P (m >>= f) R E := by
  intro t s hp
  rcases hr : m s with ⟨r, s', out⟩
  cases r with
  | error e =>
    rw [bind_run_error hr]
    exact hm.error hp hr
  | ok a =>
    rw [bind_run_ok hr]
    have hq : Q a (t ++ out) s' := hm.ok hp hr
    have hfa := hf a (t ++ out) s' hq
    unfold Post at hfa ⊢
    simpa [List.append_assoc] using hfa

/-- The rule for a program whose value is known. -/
theorem bind_known {m : Proc η σ ε α} {f : α → Proc η σ ε β} {a : α} {I : List ε → σ → Prop}
    (hm : Triple P m (fun a' t s => a' = a ∧ I t s) E) (hf : Triple I (f a) R E) :
    Triple P (m >>= f) R E := by
  refine bind hm fun a' => ?_
  rintro t s ⟨rfl, h⟩
  exact hf t s h

theorem halt {e : η} (h : ∀ t s, P t s → E e t s) :
    Triple P (Proc.halt e : Proc η σ ε α) Q E := by
  intro t s hp
  simpa [Post] using h t s hp

theorem emit {e : ε} {Q : Unit → List ε → σ → Prop}
    (h : ∀ t s, P t s → Q () (t ++ [e]) s) :
    Triple P (Proc.emit e : Proc η σ ε Unit) Q E := by
  intro t s hp
  simpa [Post] using h t s hp

theorem modify {f : σ → σ} {Q : Unit → List ε → σ → Prop}
    (h : ∀ t s, P t s → Q () t (f s)) :
    Triple P (Proc.modify f : Proc η σ ε Unit) Q E := by
  intro t s hp
  simpa [Post] using h t s hp

theorem step {f : σ → α × σ} (h : ∀ t s, P t s → Q (f s).1 t (f s).2) :
    Triple P (Proc.step f : Proc η σ ε α) Q E := by
  intro t s hp
  simpa [Post] using h t s hp

theorem ite {c : Prop} [Decidable c] {m₁ m₂ : Proc η σ ε α}
    (h₁ : c → Triple P m₁ Q E) (h₂ : ¬ c → Triple P m₂ Q E) :
    Triple P (if c then m₁ else m₂) Q E := by
  by_cases hc : c
  · rw [if_pos hc]; exact h₁ hc
  · rw [if_neg hc]; exact h₂ hc

theorem when {c : Prop} [Decidable c] {m : Proc η σ ε Unit} {Q : Unit → List ε → σ → Prop}
    (h₁ : c → Triple P m Q E) (h₂ : ¬ c → ∀ t s, P t s → Q () t s) :
    Triple P (Proc.when c m) Q E :=
  ite h₁ fun hc => pure (h₂ hc)

/-- The loop rule.  The invariant may speak of the fuel left: a loop whose
invariant excludes `cond` at fuel `0` never halts with `stuck`. -/
theorem loop {stuck : η} {cond : Nat → σ → Bool} {body : Nat → Proc η σ ε Nat}
    (I : Nat → Nat → List ε → σ → Prop)
    (hbody : ∀ fuel i, Triple (fun t s => I (fuel + 1) i t s ∧ cond i s = true) (body i)
      (fun j => I fuel j) E)
    (hstuck : ∀ i t s, I 0 i t s → cond i s = true → E stuck t s) :
    ∀ fuel i, Triple (I fuel i) (Proc.loop stuck cond body fuel i)
      (fun _ t s => ∃ fuel' j, I fuel' j t s ∧ cond j s = false) E := by
  intro fuel
  induction fuel with
  | zero =>
    intro i t s hi
    by_cases hc : cond i s = true
    · simpa [Proc.loop, hc, Post] using hstuck i t s hi hc
    · have hc' : cond i s = false := by simpa using hc
      simpa [Proc.loop, hc', Post] using ⟨0, i, hi, hc'⟩
  | succ fuel ih =>
    intro i t s hi
    by_cases hc : cond i s = true
    · have hseq := bind (hbody fuel i) (fun j => ih j) t s ⟨hi, hc⟩
      simpa [Proc.loop, hc] using hseq
    · have hc' : cond i s = false := by simpa using hc
      simpa [Proc.loop, hc', Post] using ⟨fuel + 1, i, hi, hc'⟩

end Triple

namespace Keeps

variable {I : List ε → σ → Prop}

theorem pure (a : α) : Keeps I (Pure.pure a : Proc η σ ε α) :=
  Triple.pure fun _ _ h => h

theorem bind {m : Proc η σ ε α} {f : α → Proc η σ ε β} (hm : Keeps I m)
    (hf : ∀ a, Keeps I (f a)) : Keeps I (m >>= f) :=
  Triple.bind hm hf

theorem halt (e : η) : Keeps I (Proc.halt e : Proc η σ ε α) :=
  Triple.halt fun _ _ h => h

theorem ofExcept (x : Except η α) : Keeps I (Proc.ofExcept x : Proc η σ ε α) := by
  cases x with
  | error e => exact Keeps.halt e
  | ok a => exact Keeps.pure a

/-- No program changes what was emitted before it. -/
theorem of_prefix {C : List ε → Prop} (hC : ∀ t u, C t → C (t ++ u)) (m : Proc η σ ε α) :
    Keeps (fun t _ => C t) m := by
  intro t s h
  unfold Post
  split
  · exact hC _ _ h
  · exact hC _ _ h

/-- What a program keeps holds of its run from the empty trace, however it ends. -/
theorem run {m : Proc η σ ε α} (h : Keeps I m) {s : σ} (hinit : I [] s) :
    I (m s).out (m s).state := by
  have hpost := h [] s hinit
  unfold Post at hpost
  split at hpost <;> simpa using hpost

theorem ite {c : Prop} [Decidable c] {m₁ m₂ : Proc η σ ε α}
    (h₁ : c → Keeps I m₁) (h₂ : ¬ c → Keeps I m₂) : Keeps I (if c then m₁ else m₂) :=
  Triple.ite h₁ h₂

theorem forEach {f : α → Proc η σ ε Unit} (hf : ∀ a, Keeps I (f a)) :
    ∀ as, Keeps I (Proc.forEach f as)
  | [] => Keeps.pure ()
  | a :: as => Keeps.bind (hf a) fun _ => forEach hf as

theorem when {c : Prop} [Decidable c] {m : Proc η σ ε Unit} (h : Keeps I m) :
    Keeps I (Proc.when c m) :=
  ite (fun _ => h) fun _ => pure ()

theorem loop {stuck : η} {cond : Nat → σ → Bool} {body : Nat → Proc η σ ε Nat}
    (h : ∀ i, Keeps I (body i)) (fuel i : Nat) : Keeps I (Proc.loop stuck cond body fuel i) := by
  have hbody (_ : Nat) (i : Nat) :
      Triple (fun t s => I t s ∧ cond i s = true) (body i) (fun _ => I) (fun _ => I) :=
    (h i).strengthen fun _ _ hi => hi.1
  have hloop := @Triple.loop η σ ε (fun _ => I) stuck cond body (fun _ _ => I) hbody
    (fun _ _ _ hi _ => hi) fuel i
  exact hloop.weaken fun _ _ _ ⟨_, _, hi, _⟩ => hi

theorem times {m : Proc η σ ε Unit} (h : Keeps I m) : ∀ n, Keeps I (Proc.times m n)
  | 0 => Keeps.pure ()
  | n + 1 => Keeps.bind h fun _ => times h n

end Keeps

end Proc

end NoGround.Lib
