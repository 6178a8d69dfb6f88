/-
  Lib/Writes.lean --- programs that write to a block without reading it.

  `Stores lo hi m` says that `m` makes the same writes whatever the block holds, all of them
  in the range from `lo` to `hi`, and ends in the same way.  Such programs compose.  They leave
  every byte outside their range as it is, and two of them whose ranges have no byte in common
  may be run in either order.
-/
import NoGround.Lib.Proc
import NoGround.Lib.Slices

set_option autoImplicit false

namespace NoGround.Lib

/-! ## Lists of writes -/

/-- Some bytes, and where they are written. -/
structure Write where
  place : Nat
  bytes : List UInt8

/-- The write is in this range. -/
def Write.Within (lo hi : Nat) (w : Write) : Prop := lo ≤ w.place ∧ w.place + w.bytes.length ≤ hi

namespace Block

/-- The writes, one after the other. -/
def writeAll : Block → List Write → Block
  | b, [] => b
  | b, w :: ws => (b.write w.place w.bytes).writeAll ws

section WriteAll

variable {b b' : Block} {ws ws' : List Write} {lo hi j : Nat}

theorem writeAll_append : b.writeAll (ws ++ ws') = (b.writeAll ws).writeAll ws' := by
  induction ws generalizing b with
  | nil => rfl
  | cons w ws ih => exact ih

@[simp] theorem size_writeAll : (b.writeAll ws).size = b.size := by
  induction ws generalizing b with
  | nil => rfl
  | cons w ws ih => exact ih

/-- A byte is what the writes make of it, whatever the other bytes are. -/
theorem byte_writeAll_congr (h : b.byte j = b'.byte j) :
    (b.writeAll ws).byte j = (b'.writeAll ws).byte j := by
  induction ws generalizing b b' with
  | nil => exact h
  | cons w ws ih =>
    refine ih ?_
    show (if _ then _ else b.byte j) = if _ then _ else b'.byte j
    rw [h]

theorem byte_writeAll_outside (hws : ∀ w ∈ ws, w.Within lo hi) (hj : j < lo ∨ hi ≤ j) :
    (b.writeAll ws).byte j = b.byte j := by
  induction ws generalizing b with
  | nil => rfl
  | cons w ws ih =>
    obtain ⟨hlo, hhi⟩ := hws w List.mem_cons_self
    refine (ih fun w' hw' => hws w' (List.mem_cons_of_mem w hw')).trans ?_
    exact if_neg (by omega)

/-- Writes in ranges without a common byte commute. -/
theorem writeAll_comm {lo' hi' : Nat} (hws : ∀ w ∈ ws, w.Within lo hi)
    (hws' : ∀ w ∈ ws', w.Within lo' hi')
    (hapart : ∀ j, ¬ ((lo ≤ j ∧ j < hi) ∧ lo' ≤ j ∧ j < hi')) :
    (b.writeAll ws).writeAll ws' = (b.writeAll ws').writeAll ws := by
  have hbyte : ∀ j, ((b.writeAll ws).writeAll ws').byte j =
      ((b.writeAll ws').writeAll ws).byte j := by
    intro j
    by_cases hj : lo ≤ j ∧ j < hi
    · have hj' : j < lo' ∨ hi' ≤ j := by
        have := hapart j
        omega
      rw [byte_writeAll_outside hws' hj']
      exact byte_writeAll_congr (byte_writeAll_outside hws' hj').symm
    · have hout : j < lo ∨ hi ≤ j := by omega
      rw [byte_writeAll_outside (b := b.writeAll ws') hws hout]
      exact byte_writeAll_congr (byte_writeAll_outside hws hout)
  have hsize : ((b.writeAll ws).writeAll ws').size = ((b.writeAll ws').writeAll ws).size := by
    simp
  exact congrArg₂ Block.mk hsize (funext hbyte)

end WriteAll

end Block

/-! ## Programs that only write -/

/-- The program makes the same writes in this range whatever the block holds, and ends in the
same way. -/
def Stores {η ε : Type} (lo hi : Nat) (m : Proc η Block ε Unit) : Prop :=
  ∃ ws r out, (∀ w ∈ ws, Write.Within lo hi w) ∧ ∀ b, m b = ⟨r, b.writeAll ws, out⟩

namespace Stores

variable {η ε α : Type} {lo hi : Nat} {m m' : Proc η Block ε Unit}

theorem pure : Stores lo hi (Pure.pure () : Proc η Block ε Unit) :=
  ⟨[], .ok (), [], fun _ hw => absurd hw List.not_mem_nil, fun _ => rfl⟩

theorem halt (e : η) : Stores lo hi (Proc.halt e : Proc η Block ε Unit) :=
  ⟨[], .error e, [], fun _ hw => absurd hw List.not_mem_nil, fun _ => rfl⟩

/-- The value that a program starts with is computed, or the program halts. -/
theorem ofExcept_bind {x : Except η α} {f : α → Proc η Block ε Unit}
    (h : ∀ a, Stores lo hi (f a)) : Stores lo hi (Proc.ofExcept x >>= f) := by
  cases x with
  | error e => exact halt e
  | ok a =>
    rw [Proc.ofExcept_ok, Proc.pure_bind_eq]
    exact h a

theorem mono {lo' hi' : Nat} (h : Stores lo hi m) (hlo : lo' ≤ lo) (hhi : hi ≤ hi') :
    Stores lo' hi' m := by
  obtain ⟨ws, r, out, hws, hrun⟩ := h
  refine ⟨ws, r, out, fun w hw => ?_, hrun⟩
  obtain ⟨hplace, hend⟩ := hws w hw
  exact ⟨Nat.le_trans hlo hplace, Nat.le_trans hend hhi⟩

/-- One program after the other. -/
theorem bind (h : Stores lo hi m) (h' : Stores lo hi m') :
    Stores lo hi (m >>= fun _ => m') := by
  obtain ⟨ws, r, out, hws, hrun⟩ := h
  cases r with
  | error e => exact ⟨ws, .error e, out, hws, fun b => Proc.bind_run_error (hrun b) _⟩
  | ok a =>
    obtain ⟨ws', r', out', hws', hrun'⟩ := h'
    refine ⟨ws ++ ws', r', out ++ out', List.forall_mem_append.mpr ⟨hws, hws'⟩, fun b => ?_⟩
    rw [Proc.bind_run_ok (hrun b), hrun', Block.writeAll_append]

theorem size (h : Stores lo hi m) (b : Block) : (m b).state.size = b.size := by
  obtain ⟨ws, r, out, -, hrun⟩ := h
  rw [hrun]
  exact Block.size_writeAll

/-- Everything outside the range is unchanged. -/
theorem frame (h : Stores lo hi m) (b : Block) {j : Nat} (hj : j < lo ∨ hi ≤ j) :
    (m b).state.byte j = b.byte j := by
  obtain ⟨ws, r, out, hws, hrun⟩ := h
  rw [hrun]
  exact Block.byte_writeAll_outside hws hj

/-- **Programs that write to ranges without a common byte commute.** -/
theorem comm {lo' hi' : Nat} (h : Stores lo hi m) (h' : Stores lo' hi' m')
    (hapart : ∀ j, ¬ ((lo ≤ j ∧ j < hi) ∧ lo' ≤ j ∧ j < hi')) (b : Block) :
    (m' (m b).state).state = (m (m' b).state).state := by
  obtain ⟨ws, r, out, hws, hrun⟩ := h
  obtain ⟨ws', r', out', hws', hrun'⟩ := h'
  rw [hrun, hrun', hrun, hrun']
  exact Block.writeAll_comm hws hws' hapart

end Stores

/-! ## One access -/

/-- The program is one write of `size` bytes at this place, or it halts and writes nothing. -/
def Puts {η ε : Type} (place size : Nat) (m : Proc η Block ε Unit) : Prop :=
  (∃ e, ∀ b, m b = ⟨.error e, b, []⟩) ∨
    ∃ bs : List UInt8, bs.length = size ∧ ∀ b, m b = ⟨.ok (), b.write place bs, []⟩

namespace Puts

variable {η ε α : Type} {place size : Nat} {m m' : Proc η Block ε Unit}

theorem halt (e : η) : Puts place size (Proc.halt e : Proc η Block ε Unit) :=
  Or.inl ⟨e, fun _ => rfl⟩

theorem write {bs : List UInt8} (hbs : bs.length = size) :
    Puts place size (Proc.modify fun b => b.write place bs : Proc η Block ε Unit) :=
  Or.inr ⟨bs, hbs, fun _ => rfl⟩

theorem ite {c : Prop} [Decidable c] (h : Puts place size m) (h' : Puts place size m') :
    Puts place size (if c then m else m') := by
  split
  · exact h
  · exact h'

theorem ofExcept_bind {x : Except η α} {f : α → Proc η Block ε Unit}
    (h : ∀ a, Puts place size (f a)) : Puts place size (Proc.ofExcept x >>= f) := by
  cases x with
  | error e => exact halt e
  | ok a =>
    rw [Proc.ofExcept_ok, Proc.pure_bind_eq]
    exact h a

theorem stores (h : Puts place size m) : Stores place (place + size) m := by
  rcases h with ⟨e, hrun⟩ | ⟨bs, rfl, hrun⟩
  · exact ⟨[], .error e, [], fun _ hw => absurd hw List.not_mem_nil, hrun⟩
  · refine ⟨[⟨place, bs⟩], .ok (), [], fun w hw => ?_, hrun⟩
    rw [List.mem_singleton.mp hw]
    exact ⟨Nat.le_refl _, Nat.le_refl _⟩

/-- A run that fails leaves the block as it was. -/
theorem of_error {b b' : Block} {e : η} {out : List ε} (h : Puts place size m)
    (hrun : m b = ⟨.error e, b', out⟩) : b' = b ∧ out = [] := by
  rcases h with ⟨e', hm⟩ | ⟨bs, -, hm⟩
  · rw [hm] at hrun
    injection hrun with _ hstate hout
    exact ⟨hstate.symm, hout.symm⟩
  · rw [hm] at hrun
    cases hrun

end Puts

/-- The program reads `size` bytes at this place and nothing else, and writes nothing. -/
def Takes {η ε α : Type} (place size : Nat) (m : Proc η Block ε α) : Prop :=
  ∃ f : List UInt8 → Except η α, ∀ b, m b = ⟨f (b.slice place size), b, []⟩

namespace Takes

variable {η ε α : Type} {place size : Nat} {m m' : Proc η Block ε α}

theorem halt (e : η) : Takes place size (Proc.halt e : Proc η Block ε α) :=
  ⟨fun _ => .error e, fun _ => rfl⟩

/-- The bytes, and what is made of them. -/
theorem slice (f : List UInt8 → α) :
    Takes place size (Proc.step (fun b : Block => (b.slice place size, b)) >>= fun bs =>
      pure (f bs) : Proc η Block ε α) :=
  ⟨fun bs => .ok (f bs), fun _ => rfl⟩

theorem ite {c : Prop} [Decidable c] (h : Takes place size m) (h' : Takes place size m') :
    Takes place size (if c then m else m') := by
  split
  · exact h
  · exact h'

end Takes

end NoGround.Lib
