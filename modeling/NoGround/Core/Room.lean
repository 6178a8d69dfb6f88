/-
  Core/Room.lean --- when a push makes room for its item.

  A push on a full array doubles its capacity, which makes room unless there was none.  An
  array is created without room, or loses it when it is fitted while it is empty; the
  invariant of every run (`Sized`) allows both.  From there a push finds no place: it asks for
  room for no items again, and copies the item behind the end of the block.

  The runs here are all that return, with capacities from 0 on, so an operation is followed
  whether or not it completes (`ArrayOp.run_returned`).
-/
import NoGround.Core.ArrayList

set_option autoImplicit false

namespace NoGround

open NoGround.Lib

/-! ## Operations that stop -/

section Stops

variable {ω : Type} (alloc : AllocFn ω) {w c : Nat} {u : List MemEvent} {array : NgArray}
  {items : List Item}

/-- A copy behind the end of the block. -/
theorem copyIn_outside {dst k : Nat} (item : Nat → UInt8) (hk : k ≠ 0)
    (h : array.items.size < dst + k) :
    Proc.Triple (At u array) (ArrayProc.copyIn dst item k : ArrayProc ω Unit)
      (fun _ _ _ => False) (fun _ _ _ => True) := by
  unfold ArrayProc.copyIn
  rw [offset_eq]
  refine Proc.Triple.bind (emit_traced _) fun _ => ?_
  refine Proc.Triple.bind_known (Proc.Triple.pure fun _ _ h => ⟨rfl, h⟩) ?_
  rintro t m ⟨-, rfl⟩
  have hnone : m.array.items.store dst item k = none := Block.each_eq_none dst _ k 0 _ hk h
  simp only [ArrayProc.onItems, hnone, Option.map_none]
  trivial

/-- A push on an array without room. -/
theorem ngArrayPush_stops (h : Contains w items 0 array) (item : Nat → UInt8) (hw : w < 2 ^ 31)
    (hpos : 0 < w) :
    Proc.Triple (At u array) (ngArrayPush alloc w item : ArrayProc ω Int)
      (fun _ _ _ => False) (fun _ _ _ => True) := by
  have hempty : items.length = 0 := by
    have := h.fits
    omega
  have hlen := h.len_eq
  rw [hempty, Int.natCast_zero] at hlen
  have hcap := h.cap_eq
  rw [Int.natCast_zero] at hcap
  have hresize := ngArrayResize_triple alloc (u := u) h (show InI32 w 0 from h.range)
  unfold ngArrayPush
  refine read_at ?_
  rw [hlen, hcap, Proc.when_pos (show (0 : Int) < toI32 (0 + 1) by decide)]
  refine Proc.Triple.bind (hresize.conseq (fun _ _ h => h) (fun _ _ _ h => h) fun _ _ _ _ =>
    trivial) fun _ => ?_
  refine traced_triple fun array' h' => ?_
  have hoffset : toI32 ((w : Int) * array'.len) = ((0 : Nat) : Int) := by
    rw [h'.len_eq, List.take_zero]
    exact toI32_mul (n := 0) (by omega)
  refine read_at ?_
  rw [hoffset, toSize_natCast hw]
  refine Proc.Triple.bind (copyIn_outside item (by omega) ?_) fun _ => ?_
  · rw [h'.size_eq, Nat.mul_zero, Nat.zero_add]
    exact hpos
  · exact fun _ _ h => h.elim

theorem halt_stops {α : Type} {P : List MemEvent → ArrayMachine ω → Prop} (e : Halt) :
    Proc.Triple P (Proc.halt e : ArrayProc ω α) (fun _ _ _ => False) (fun _ _ _ => True) :=
  Proc.Triple.halt fun _ _ _ => trivial

/-- An operation that does not complete does not return. -/
theorem ArrayOp.run_stops (op : ArrayOp) (hw : w < 2 ^ 31)
    (hstops : ¬ op.Completes w items.length c) :
    Proc.Triple (Traced u (Contains w items c)) (op.run alloc w : ArrayProc ω OpResult)
      (fun _ _ _ => False) (fun _ _ _ => True) := by
  refine traced_triple fun array h => ?_
  cases op with
  | push item =>
    obtain ⟨hpos, rfl⟩ : 0 < w ∧ c = 0 := by
      simp only [Completes] at hstops
      omega
    exact Proc.Triple.bind (ngArrayPush_stops alloc h item hw hpos) fun _ _ _ h => h.elim
  | pop item =>
    refine Proc.Triple.bind (Q := fun _ _ _ => False) ?_ fun _ _ _ h => h.elim
    unfold ngArrayPop
    refine read_at ?_
    simp only [Completes] at hstops
    rw [if_pos (by rw [h.len_eq]; omega)]
    exact halt_stops _
  | remove index item =>
    refine Proc.Triple.bind (Q := fun _ _ _ => False) ?_ fun _ _ _ h => h.elim
    unfold ngArrayRemove
    refine read_at ?_
    rw [if_pos (by rw [h.len_eq]; exact fun h => hstops h.symm)]
    exact halt_stops _
  | swapAndPop index item =>
    refine Proc.Triple.bind (Q := fun _ _ _ => False) ?_ fun _ _ _ h => h.elim
    unfold ngArraySwapAndPop
    refine read_at ?_
    rw [if_pos (by rw [h.len_eq]; exact fun h => hstops h.symm)]
    exact halt_stops _
  | fit => exact absurd trivial hstops

/-- An operation that returns does to the numbers what it does without bounds, whatever the
array holds. -/
theorem ArrayOp.run_returned (op : ArrayOp) {n : Nat} (hw : w < 2 ^ 31)
    (hrange : InI32 w (op.newCap n c)) :
    Proc.Triple (Traced u (Sized w n c)) (op.run alloc w : ArrayProc ω OpResult)
      (fun _ => Traced (u ++ op.events w n c) (Sized w (op.newLen n c) (op.newCap n c)))
      (fun _ _ _ => True) := by
  refine sized_triple fun items hlength => ?_
  subst hlength
  by_cases hcompletes : op.Completes w items.length c
  · refine (op.run_triple alloc hcompletes hrange).conseq (fun _ _ h => h) ?_ fun _ _ _ _ =>
      trivial
    rintro r t m ⟨-, ht, hm⟩
    rw [← length_newItems hcompletes]
    exact ⟨ht, hm.toSized⟩
  · exact (op.run_stops alloc hw hcompletes).weaken fun _ _ _ h => h.elim

end Stops

/-! ## Runs from any capacity -/

/-- Every capacity on the way is in `i32`. -/
def CapsInI32 (w : Nat) : List ArrayOp → Nat → Nat → Prop
  | [], _, _ => True
  | op :: ops, len, cap =>
      InI32 w (op.newCap len cap) ∧ CapsInI32 w ops (op.newLen len cap) (op.newCap len cap)

/-- The array is sized, and can be pushed to without leaving `i32`. -/
def ReadyToPush (w : Nat) (item : Nat → UInt8) (array : NgArray) : Prop :=
  ∃ n c, Sized w n c array ∧ InI32 w (ArrayOp.newCap n c (.push item))

section Runs

variable {ω : Type} (alloc : AllocFn ω) {w n c cap : Nat} {u : List MemEvent}
  {ops : List ArrayOp} {item : Nat → UInt8}

theorem runOps_returned (hw : w < 2 ^ 31) (hrange : CapsInI32 w (ops ++ [.push item]) n c) :
    Proc.Triple (Traced u (Sized w n c)) (runOps alloc w ops : ArrayProc ω (List OpResult))
      (fun _ _ m => ReadyToPush w item m.array) (fun _ _ _ => True) := by
  induction ops generalizing n c u with
  | nil => exact Proc.Triple.pure fun _ m hm => ⟨n, c, hm.2, hrange.1⟩
  | cons op ops ih =>
    unfold runOps
    refine Proc.Triple.bind (op.run_returned alloc hw hrange.1) fun _ => ?_
    exact Proc.Triple.bind (ih hrange.2) fun _ => Proc.Triple.pure fun _ _ h => h

/-- Every array that a run leaves. -/
theorem arrayRun_returned (hw : w < 2 ^ 31) (hcap : InI32 w cap)
    (hrange : CapsInI32 w (ops ++ [.push item]) 0 cap) {m m' : ArrayMachine ω}
    {results : List OpResult} {out : List MemEvent}
    (hrun : arrayRun alloc w cap ops m = ⟨.ok results, m', out⟩) :
    ReadyToPush w item m'.array := by
  have htriple : Proc.Triple (Traced [] fun _ => True) (arrayRun alloc w cap ops)
      (fun _ _ m => ReadyToPush w item m.array) (fun _ _ _ => True) :=
    Proc.Triple.bind ((ngArrayAlloc_triple alloc hcap).conseq (fun _ _ h => h)
      (fun _ _ _ h => ⟨h.1, h.2.toSized⟩) fun _ _ _ _ => trivial) fun _ =>
      runOps_returned alloc hw hrange
  exact htriple.ok ⟨rfl, trivial⟩ hrun

end Runs

/-! ## Push -/

/-- A push from `m` returns, copies its item to a place among the `cap` items of the block,
and leaves no more items than that. -/
def PushMakesRoom {ω : Type} (alloc : AllocFn ω) (w : Nat) (item : Nat → UInt8)
    (m : ArrayMachine ω) : Prop :=
  ∃ (len : Int) (m' : ArrayMachine ω) (out : List MemEvent) (k : Nat),
    ngArrayPush alloc w item m = ⟨.ok len, m', out⟩ ∧
      .copied (.array ((w * k : Nat) : Int)) .item w ∈ out ∧ (k : Int) < m'.array.cap ∧
      (m'.array.items.size : Int) = w * m'.array.cap ∧
      m'.array.items.cell w k = (List.range w).map item ∧ m'.array.len ≤ m'.array.cap

section Push

variable {ω : Type} (alloc : AllocFn ω) {w n c cap : Nat} {item : Nat → UInt8}

theorem pushMakesRoom_of_pos {m : ArrayMachine ω} (h : Sized w n c m.array) (hpos : 0 < c)
    (hrange : InI32 w (ArrayOp.newCap n c (.push item)))
    (hgranted : AllGranted (ngArrayPush alloc w item m).out) : PushMakesRoom alloc w item m := by
  have hlength : (m.array.items.cells w n).length = n := Block.length_cells
  have hcontains := h.contains
  have hfits := h.fits
  generalize m.array.items.cells w n = items at hlength hcontains
  subst hlength
  obtain ⟨len, m', out, hrun, -, hout, hafter⟩ := ok_of_allGranted
    (ngArrayPush_triple alloc (u := []) hcontains item (Or.inr hpos) hrange) ⟨rfl, rfl⟩ hgranted
  have hroom : items.length < ArrayOp.newCap items.length c (.push item) := by
    simp only [ArrayOp.newCap]
    split <;> omega
  have hitems : ArrayOp.newItems w items c (.push item) =
      items ++ [(List.range w).map item] := by
    rw [ArrayOp.newItems, List.take_of_length_le (Nat.le_of_lt hroom)]
  rw [hitems] at hafter
  have hlen := hafter.len_eq
  have hlast := hafter.getElem? (k := items.length) (by simp)
  rw [List.length_append, List.length_singleton] at hlen
  rw [List.getElem?_concat_length] at hlast
  refine ⟨len, m', out, items.length, hrun, ?_, ?_, ?_, ?_, ?_⟩
  · rw [show out = ArrayOp.events w items.length c (.push item) from hout]
    exact List.mem_append_right _ (List.mem_singleton.mpr rfl)
  · rw [hafter.cap_eq]
    omega
  · rw [hafter.cap_eq, hafter.size_eq, Int.natCast_mul]
  · exact (Option.some.inj hlast).symm
  · rw [hlen, hafter.cap_eq]
    omega

/-- A push on an array without room leaves none. -/
theorem not_pushMakesRoom {m : ArrayMachine ω} (hw : w < 2 ^ 31) (h : Sized w n 0 m.array) :
    ¬ PushMakesRoom alloc w item m := by
  rintro ⟨len, m', out, k, hrun, -, hk, -⟩
  have hnone : ArrayOp.newCap n 0 (.push item) = 0 := by
    simp only [ArrayOp.newCap]
    rw [if_pos (Nat.succ_pos n), Nat.zero_mul]
  have htriple := (ArrayOp.push item).run_returned alloc (u := []) hw
    (show InI32 w (ArrayOp.newCap n 0 (.push item)) by rw [hnone]; exact h.range)
  rw [hnone] at htriple
  have hop : (ArrayOp.push item).run alloc w m = ⟨.ok ⟨some len, none⟩, m', out ++ []⟩ :=
    Proc.bind_run_ok hrun fun len => (pure ⟨some len, none⟩ : ArrayProc ω OpResult)
  have hsized := (htriple.ok ⟨rfl, h⟩ hop).2
  rw [hsized.cap_eq] at hk
  omega

/-- **A push makes room** exactly when the array has room for one item at all: on every array
that is left by any operations on a new one, of any capacity. -/
theorem ngArrayPush_makesRoom_iff (hw : w < 2 ^ 31) (hcap : InI32 w cap) {ops : List ArrayOp}
    (hrange : CapsInI32 w (ops ++ [.push item]) 0 cap) {m m' : ArrayMachine ω}
    {results : List OpResult} {out : List MemEvent}
    (hrun : arrayRun alloc w cap ops m = ⟨.ok results, m', out⟩)
    (hgranted : AllGranted (ngArrayPush alloc w item m').out) :
    PushMakesRoom alloc w item m' ↔ m'.array.cap ≠ 0 := by
  obtain ⟨n, c, hsized, hrange'⟩ := arrayRun_returned alloc hw hcap hrange hrun
  rw [hsized.cap_eq]
  constructor
  · rintro hroom hzero
    obtain rfl := Int.natCast_eq_zero.mp hzero
    exact not_pushMakesRoom alloc hw hsized hroom
  · intro hne
    exact pushMakesRoom_of_pos alloc hsized (by omega) hrange' hgranted

end Push

/-- An item of two bytes is pushed and taken out again. -/
def pushAndPop : List ArrayOp := [.push fun _ => 1, .pop true]

theorem pushAndPop_outcome : (arrayRun grantAll 2 1 pushAndPop noArray).outcome =
    .ok [⟨some 1, none⟩, ⟨some 0, some [1, 1]⟩] := by
  decide +kernel

theorem pushAndPop_inI32 : CapsInI32 2 (pushAndPop ++ [.push fun _ => 7]) 0 1 :=
  ⟨by decide, by decide, by decide, trivial⟩

theorem ngArrayPush_makesRoom_after_pop :
    PushMakesRoom grantAll 2 (fun _ => 7) (arrayRun grantAll 2 1 pushAndPop noArray).state :=
  (ngArrayPush_makesRoom_iff grantAll (w := 2) (by decide) (by decide) pushAndPop_inI32
    (Result.eq_ok pushAndPop_outcome) (by decide +kernel)).mpr (by decide +kernel)

/-- The array is fitted while it is empty, and then pushed to. -/
theorem fitted_empty_has_no_room :
    (arrayRun grantAll 2 4 (pushAndPop ++ [.fit]) noArray).outcome =
        .ok [⟨some 1, none⟩, ⟨some 0, some [1, 1]⟩, ⟨none, none⟩] ∧
      CapsInI32 2 ((pushAndPop ++ [.fit]) ++ [.push fun _ => 7]) 0 4 ∧
      AllGranted (ngArrayPush grantAll 2 (fun _ => 7)
        (arrayRun grantAll 2 4 (pushAndPop ++ [.fit]) noArray).state).out ∧
      ¬ PushMakesRoom grantAll 2 (fun _ => 7)
        (arrayRun grantAll 2 4 (pushAndPop ++ [.fit]) noArray).state := by
  refine ⟨by decide +kernel, ⟨by decide, by decide, by decide, by decide, trivial⟩,
    by decide +kernel, ?_⟩
  have hlen : (arrayRun grantAll 2 4 (pushAndPop ++ [.fit]) noArray).state.array.len = 0 := by
    decide +kernel
  have hcap : (arrayRun grantAll 2 4 (pushAndPop ++ [.fit]) noArray).state.array.cap = 0 := by
    decide +kernel
  have hsize : (arrayRun grantAll 2 4 (pushAndPop ++ [.fit]) noArray).state.array.items.size =
      0 := by
    decide +kernel
  exact not_pushMakesRoom grantAll (w := 2) (n := 0) (by decide)
    ⟨hlen, hcap, hsize, by decide, Or.inl (Nat.le_refl 0)⟩

end NoGround
