/-
  Core/Memcpy.lean --- when a removal does not depend on how `memcpy` copies.

  The functions of core.h that take an item out, with `memcpy` as a parameter.  `Memcpy.move`
  reads all bytes first, and gives back the functions of Core/Array.lean.  `Memcpy.inOrder`
  copies one byte after the other, in any order the library may choose.

  An item that is handed out goes to an object of the caller, so its order does not matter.
  Inside the array `ngArraySwapAndPop` copies one item over another one.  `ngArrayRemove`
  copies everything behind the item down by one item, so from two items on the two ranges
  overlap.
-/
import NoGround.Core.ArrayList
import NoGround.Lib.CopyOrder

set_option autoImplicit false

namespace NoGround

open NoGround.Lib

/-! ## `memcpy` -/

/-- The two copies that the functions make: an item out of the array, and bytes inside it. -/
structure Memcpy (ω : Type) where
  out : Bool → Int → Nat → ArrayProc ω (Option (List UInt8))
  within : Int → Int → Nat → ArrayProc ω Unit

/-- In which order the bytes of a copy are copied. -/
structure CopyOrder where
  order : Place → Place → Nat → List Nat
  perm : ∀ dst src n, (order dst src n).Perm (List.range n)

namespace Memcpy

variable {ω : Type}

/-- Every byte is read before one is written. -/
def move : Memcpy ω := ⟨ArrayProc.copyOut, ArrayProc.copyWithin⟩

/-- The bytes are copied one after the other. -/
def inOrder (o : CopyOrder) : Memcpy ω where
  out item src n :=
    if item then do
      Proc.emit (.copied .item (.array src) n)
      let at_src ← ArrayProc.offset src
      let bytes ← ArrayProc.onItems fun items =>
        (items.loadBy (o.order .item (.array src) n) at_src n).map fun bytes => (bytes, items)
      return some bytes
    else return none
  within dst src n := do
    Proc.emit (.copied (.array dst) (.array src) n)
    let at_dst ← ArrayProc.offset dst
    let at_src ← ArrayProc.offset src
    ArrayProc.onItems fun items =>
      (items.moveBy (o.order (.array dst) (.array src) n) at_dst at_src n).map
        fun items => ((), items)

end Memcpy

/-! ## Removal with any `memcpy` (core.h:116-171) -/

section Functions

variable {ω : Type} (memcpy : Memcpy ω) (alloc : AllocFn ω) (item_size : Int)

/-- `ngArrayPop`. -/
def ngArrayPopBy (item : Bool) : ArrayProc ω (Int × Option (List UInt8)) := do
  let array ← ArrayProc.array
  if array.len ≤ 0 then Proc.halt .abort
  else do
    let out ← memcpy.out item (toI32 ((array.len - 1) * item_size)) (toSize item_size)
    ArrayProc.setLen (array.len - 1)
    shrinkArray alloc item_size
    let len ← arrayLen
    return (len, out)

/-- `ngArrayRemove`. -/
def ngArrayRemoveBy (index : Int) (item : Bool) : ArrayProc ω (Int × Option (List UInt8)) := do
  let array ← ArrayProc.array
  if ¬ (index < array.len ∧ 0 ≤ index) then Proc.halt .abort
  else do
    let out ← memcpy.out item (toI32 (index * item_size)) (toSize item_size)
    let rhsb := array.len - (index + 1)
    ArrayProc.setLen (array.len - 1)
    memcpy.within (toI32 (index * item_size)) (toI32 ((index + 1) * item_size))
      (toSize (toI32 (item_size * rhsb)))
    shrinkArray alloc item_size
    let len ← arrayLen
    return (len, out)

/-- `ngArraySwapAndPop`. -/
def ngArraySwapAndPopBy (index : Int) (item : Bool) :
    ArrayProc ω (Int × Option (List UInt8)) := do
  let array ← ArrayProc.array
  if ¬ (index < array.len ∧ 0 ≤ index) then Proc.halt .abort
  else if index + 1 = array.len then ngArrayPopBy memcpy alloc item_size item
  else do
    let out ← memcpy.out item (toI32 (index * item_size)) (toSize item_size)
    ArrayProc.setLen (array.len - 1)
    memcpy.within (toI32 (index * item_size)) (toI32 ((array.len - 1) * item_size))
      (toSize item_size)
    shrinkArray alloc item_size
    let len ← arrayLen
    return (len, out)

/-- The operation, with this `memcpy` if it takes an item out. -/
def ArrayOp.runBy : ArrayOp → ArrayProc ω OpResult
  | pop item => do
    let (len, out) ← ngArrayPopBy memcpy alloc item_size item
    return ⟨some len, out⟩
  | remove index item => do
    let (len, out) ← ngArrayRemoveBy memcpy alloc item_size index item
    return ⟨some len, out⟩
  | swapAndPop index item => do
    let (len, out) ← ngArraySwapAndPopBy memcpy alloc item_size index item
    return ⟨some len, out⟩
  | push item => ArrayOp.run alloc item_size (push item)
  | fit => ArrayOp.run alloc item_size fit

/-- The functions of Core/Array.lean read all bytes first. -/
theorem ArrayOp.runBy_move (op : ArrayOp) :
    op.runBy Memcpy.move alloc item_size = op.run alloc item_size := by
  cases op with
  | push item => rfl
  | pop item => rfl
  | remove index item => rfl
  | swapAndPop index item => rfl
  | fit => rfl

end Functions

/-! ## Copies without a common byte -/

/-- The source and the destination have no byte in common; what is handed in or out is an
object of its own. -/
def MemEvent.Apart : MemEvent → Prop
  | .copied (.array dst) (.array src) n =>
      ∀ i k : Nat, i < n → k < n → dst + i ≠ src + k
  | .copied (.array _) .item _ => True
  | .copied .item _ _ => True
  | .requested _ _ _ => True

section Copies

variable {ω : Type} (o : CopyOrder)

theorem inOrder_out : (Memcpy.inOrder o).out = (ArrayProc.copyOut (ω := ω)) := by
  funext item src n
  unfold Memcpy.inOrder ArrayProc.copyOut
  simp only [Block.loadBy_eq_load _ (o.perm _ _ _)]

theorem inOrder_within {dst src n : Nat} (h : Block.Apart dst src n) :
    (Memcpy.inOrder o).within dst src n = (ArrayProc.copyWithin dst src n : ArrayProc ω Unit) := by
  unfold Memcpy.inOrder ArrayProc.copyWithin
  simp only [offset_eq]
  refine congrArg _ (funext fun _ => funext fun s => ?_)
  rw [Proc.pure_bind_run, Proc.pure_bind_run, Proc.pure_bind_run, Proc.pure_bind_run]
  simp only [Block.moveBy_eq_move _ (o.perm _ _ _) h]

end Copies

section Emits

variable {ω α : Type}

theorem emits_onItems (f : Block → Option (α × Block)) :
    Proc.Emits MemEvent.Apart (ArrayProc.onItems f : ArrayProc ω α) := by
  refine Proc.Emits.of_silent fun s => ?_
  unfold ArrayProc.onItems
  split <;> rfl

theorem emits_offset (n : Int) :
    Proc.Emits MemEvent.Apart (ArrayProc.offset n : ArrayProc ω Nat) :=
  Proc.Emits.ite (Proc.Emits.halt _) (Proc.Emits.pure _)

theorem emits_copyOut (item : Bool) (src : Int) (n : Nat) :
    Proc.Emits MemEvent.Apart (ArrayProc.copyOut item src n : ArrayProc ω (Option Item)) := by
  unfold ArrayProc.copyOut
  refine Proc.Emits.ite ?_ (Proc.Emits.pure _)
  refine Proc.Emits.bind (Proc.Emits.emit trivial) fun _ => ?_
  refine Proc.Emits.bind (emits_offset src) fun _ => ?_
  exact Proc.Emits.bind (emits_onItems _) fun _ => Proc.Emits.pure _

theorem emits_copyWithin {dst src n : Nat} (h : Block.Apart dst src n) :
    Proc.Emits MemEvent.Apart (ArrayProc.copyWithin dst src n : ArrayProc ω Unit) := by
  have happart : MemEvent.Apart (.copied (.array (dst : Int)) (.array (src : Int)) n) := by
    intro i k hi hk heq
    exact h i k hi hk (by omega)
  unfold ArrayProc.copyWithin
  refine Proc.Emits.bind (Proc.Emits.emit happart) fun _ => ?_
  refine Proc.Emits.bind (emits_offset dst) fun _ => ?_
  exact Proc.Emits.bind (emits_offset src) fun _ => emits_onItems _

/-- What follows the copies copies nothing. -/
theorem emits_removalEnd (alloc : AllocFn ω) (item_size : Int) (out : Option Item) :
    Proc.Emits MemEvent.Apart (shrinkArray alloc item_size >>= fun _ => arrayLen >>= fun len =>
      pure (len, out) : ArrayProc ω (Int × Option Item)) := by
  have hallocate : ∀ old cap, Proc.Emits MemEvent.Apart (allocate alloc item_size old cap) := by
    intro old cap
    unfold allocate
    refine Proc.Emits.bind (Proc.Emits.step _) fun new => ?_
    refine Proc.Emits.bind (Proc.Emits.emit trivial) fun _ => ?_
    cases new with
    | none => exact Proc.Emits.halt _
    | some items => exact Proc.Emits.ite (Proc.Emits.halt _) (Proc.Emits.pure _)
  have hresize : ∀ cap, Proc.Emits MemEvent.Apart (ngArrayResize alloc item_size cap) := by
    intro cap
    unfold ngArrayResize
    refine Proc.Emits.bind (Proc.Emits.step _) fun old => ?_
    exact Proc.Emits.bind (hallocate old.items cap) fun _ => Proc.Emits.modify _
  refine Proc.Emits.bind ?_ fun _ => ?_
  · exact Proc.Emits.bind (Proc.Emits.step _) fun array => Proc.Emits.when (hresize _)
  · refine Proc.Emits.bind ?_ fun len => Proc.Emits.pure _
    exact Proc.Emits.bind (Proc.Emits.step _) fun array => Proc.Emits.pure _

end Emits

/-! ## Every array -/

/-- The array holds `n` items of `w` bytes, and they lie in its block. -/
structure ItemsInside (w n : Nat) (array : NgArray) : Prop where
  len_eq : array.len = n
  inside : w * n ≤ array.items.size
  size_lt : array.items.size < 2 ^ 31

/-- The numbers of a removal at `k`. -/
theorem ItemsInside.numbers {w n k : Nat} {array : NgArray} (h : ItemsInside w n array)
    (hk : k < n) : RemovalNumbers w (n - 1) k array.len := by
  have hn : n - 1 + 1 = n := by omega
  refine removalNumbers (by rw [h.len_eq, hn]) (by omega) ?_
  rw [hn]
  exact Nat.lt_of_le_of_lt h.inside h.size_lt

/-- The ranges of the shift behind item `k`. -/
theorem shift_apart {w n k : Nat} (h : w = 0 ∨ n ≤ k + 2) :
    Block.Apart (w * k) (w * (k + 1)) (w * (n - 1 - k)) := by
  intro i l hi _
  rcases h with rfl | hle
  · omega
  · have hcount : w * (n - 1 - k) ≤ w * 1 := Nat.mul_le_mul_left w (by omega)
    rw [Nat.mul_succ]
    omega

section Removals

variable {ω : Type} (alloc : AllocFn ω)

theorem emits_ngArrayPop (item_size : Int) (item : Bool) :
    Proc.Emits MemEvent.Apart (ngArrayPop alloc item_size item) := by
  unfold ngArrayPop
  refine Proc.Emits.bind (Proc.Emits.step _) fun array => ?_
  refine Proc.Emits.ite (Proc.Emits.halt _) ?_
  refine Proc.Emits.bind (emits_copyOut item _ _) fun out => ?_
  exact Proc.Emits.bind (Proc.Emits.modify _) fun _ => emits_removalEnd alloc item_size out

variable {w n k : Nat} {m : ArrayMachine ω} (o : CopyOrder)

theorem ngArrayPopBy_inOrder (item_size : Int) (item : Bool) :
    ngArrayPopBy (Memcpy.inOrder o) alloc item_size item = ngArrayPop alloc item_size item := by
  unfold ngArrayPopBy ngArrayPop
  simp only [inOrder_out]

theorem read_run {α : Type} (f : NgArray → ArrayProc ω α) :
    (ArrayProc.array >>= f) m = f m.array m :=
  Proc.step_bind_run _ f m

/-- A swap copies one item over another one. -/
theorem ngArraySwapAndPopBy_inOrder (h : ItemsInside w n m.array) (hk : k < n) (item : Bool) :
    ngArraySwapAndPopBy (Memcpy.inOrder o) alloc w k item m =
        ngArraySwapAndPop alloc w k item m ∧
      ∀ e ∈ (ngArraySwapAndPop alloc w k item m).out, e.Apart := by
  have hnumbers := h.numbers hk
  have hindex : ¬ ¬ ((k : Int) < m.array.len ∧ 0 ≤ (k : Int)) := by
    rw [h.len_eq]
    omega
  unfold ngArraySwapAndPopBy ngArraySwapAndPop
  rw [read_run, read_run, if_neg hindex, if_neg hindex]
  by_cases hlast : (k : Int) + 1 = m.array.len
  · rw [if_pos hlast, if_pos hlast, ngArrayPopBy_inOrder]
    exact ⟨rfl, emits_ngArrayPop alloc w item m⟩
  · have hapart : Block.Apart (w * k) (w * (n - 1)) w := by
      rw [h.len_eq] at hlast
      have hend := Block.cell_end_le w (show k < n - 1 by omega)
      intro i l hi _
      omega
    rw [if_neg hlast, if_neg hlast]
    simp only [inOrder_out, hnumbers.dst, hnumbers.last, hnumbers.item, inOrder_within o hapart]
    refine ⟨trivial, ?_⟩
    refine Proc.Emits.bind (emits_copyOut item _ _) (fun out => ?_) m
    refine Proc.Emits.bind (Proc.Emits.modify _) fun _ => ?_
    exact Proc.Emits.bind (emits_copyWithin hapart) fun _ => emits_removalEnd alloc w out

/-- A shift by one item, of at most one item. -/
theorem ngArrayRemoveBy_inOrder (h : ItemsInside w n m.array) (hk : k < n)
    (hshift : w = 0 ∨ n ≤ k + 2) (item : Bool) :
    ngArrayRemoveBy (Memcpy.inOrder o) alloc w k item m = ngArrayRemove alloc w k item m ∧
      ∀ e ∈ (ngArrayRemove alloc w k item m).out, e.Apart := by
  have hnumbers := h.numbers hk
  have hindex : ¬ ¬ ((k : Int) < m.array.len ∧ 0 ≤ (k : Int)) := by
    rw [h.len_eq]
    omega
  have hapart := shift_apart hshift
  unfold ngArrayRemoveBy ngArrayRemove
  rw [read_run, read_run, if_neg hindex, if_neg hindex]
  simp only [inOrder_out, hnumbers.dst, hnumbers.src, hnumbers.behind, hnumbers.item,
    inOrder_within o hapart]
  refine ⟨trivial, ?_⟩
  refine Proc.Emits.bind (emits_copyOut item _ _) (fun out => ?_) m
  refine Proc.Emits.bind (Proc.Emits.modify _) fun _ => ?_
  exact Proc.Emits.bind (emits_copyWithin hapart) fun _ => emits_removalEnd alloc w out

/-- A shift of two items or more overlaps. -/
theorem shift_not_apart (hw : 0 < w) (hlt : k + 2 < n) :
    ¬ MemEvent.Apart (.copied (.array ((w * k : Nat) : Int))
      (.array ((w * (k + 1) : Nat) : Int)) (w * (n - 1 - k))) := by
  intro h
  have hcount : w * 2 ≤ w * (n - 1 - k) := Nat.mul_le_mul_left w (by omega)
  refine h w 0 (by omega) (by omega) ?_
  rw [Nat.mul_succ]
  omega

/-- What was emitted stays in the trace. -/
theorem keeps_mem {α : Type} (e : MemEvent) (p : ArrayProc ω α) :
    Proc.Keeps (fun t _ => e ∈ t) p :=
  Proc.Keeps.of_prefix (fun _ u h => List.mem_append_left u h) p

theorem mem_out_of_triple {α : Type} {e : MemEvent} {p : ArrayProc ω α}
    (h : Proc.Triple (At [] m.array) p (fun _ t _ => e ∈ t) (fun _ t _ => e ∈ t)) :
    e ∈ (p m).out := by
  have hpost := h [] m ⟨rfl, rfl⟩
  unfold Proc.Post at hpost
  split at hpost
  · exact hpost
  · exact hpost

/-- The shift is made, in whatever order. -/
theorem ngArrayRemoveBy_shifts (h : ItemsInside w n m.array) (hk : k < n) (item : Bool) :
    .copied (.array ((w * k : Nat) : Int)) (.array ((w * (k + 1) : Nat) : Int))
      (w * (n - 1 - k)) ∈ (ngArrayRemoveBy (Memcpy.inOrder o) alloc w k item m).out := by
  have hnumbers := h.numbers hk
  have hindex : ¬ ¬ ((k : Int) < m.array.len ∧ 0 ≤ (k : Int)) := by
    rw [h.len_eq]
    omega
  have hend : w * k + w ≤ m.array.items.size := by
    have hitem := Block.cell_end_le w hk
    have hinside := h.inside
    omega
  unfold ngArrayRemoveBy
  rw [read_run, if_neg hindex]
  simp only [inOrder_out, hnumbers.dst, hnumbers.src, hnumbers.behind, hnumbers.item]
  refine mem_out_of_triple ?_
  refine Proc.Triple.bind (copyOut_triple item hend) fun out => ?_
  refine Proc.Triple.bind (Proc.Triple.modify (Q := fun _ _ _ => True) fun _ _ _ => trivial)
    fun _ => ?_
  refine Proc.Triple.bind ?_ fun _ => keeps_mem _ _
  refine Proc.Triple.bind (Proc.Triple.emit fun t _ _ => ?_) fun _ => keeps_mem _ _
  exact List.mem_append_right t (List.mem_singleton.mpr rfl)

end Removals

/-! ## Every order -/

/-- Whatever the order in which `memcpy` copies: no copy reads a byte that it writes, the
removal does what it does if all bytes are read first, and on an array that holds `items` this
is the removal from the list. -/
def OrderFree {ω : Type} (alloc : AllocFn ω) (w : Nat) (op : ArrayOp) (m : ArrayMachine ω) :
    Prop :=
  ∀ o : CopyOrder,
    (∀ e ∈ (op.runBy (Memcpy.inOrder o) alloc w m).out, e.Apart) ∧
      op.runBy (Memcpy.inOrder o) alloc w m = op.run alloc w m ∧
      ∀ items cap items' result, Represents w m.array items cap →
        op.onList w items = some (items', result) →
        AllGranted (op.runBy (Memcpy.inOrder o) alloc w m).out →
        ∃ m' out cap', op.runBy (Memcpy.inOrder o) alloc w m = ⟨.ok result, m', out⟩ ∧
          Represents w m'.array items' cap'

section Orders

variable {ω : Type} (alloc : AllocFn ω) {w n : Nat} {m : ArrayMachine ω}

theorem orderFree_of_eq {op : ArrayOp} (hop : op.Removes)
    (h : ∀ o, op.runBy (Memcpy.inOrder o) alloc w m = op.run alloc w m ∧
      ∀ e ∈ (op.run alloc w m).out, e.Apart) : OrderFree alloc w op m := by
  intro o
  obtain ⟨heq, hapart⟩ := h o
  rw [heq]
  refine ⟨hapart, rfl, ?_⟩
  intro items cap items' result hrep honList hgranted
  obtain ⟨m', out, cap', hrun, hrep', -⟩ :=
    hrep.removalsShrink alloc op items' result hop honList hgranted
  exact ⟨m', out, cap', hrun, hrep'⟩

/-- An operation is its function, with the result in another form. -/
theorem result_congr {f g : ArrayProc ω (Int × Option Item)}
    (h : f m = g m ∧ ∀ e ∈ (g m).out, e.Apart) :
    (f >>= fun r => pure ⟨some r.1, r.2⟩ : ArrayProc ω OpResult) m =
        (g >>= fun r => pure ⟨some r.1, r.2⟩) m ∧
      ∀ e ∈ ((g >>= fun r => pure ⟨some r.1, r.2⟩ : ArrayProc ω OpResult) m).out, e.Apart := by
  obtain ⟨heq, hapart⟩ := h
  refine ⟨?_, ?_⟩
  · rcases hg : g m with ⟨r, m', out⟩
    rw [hg] at heq
    cases r with
    | error e => rw [Proc.bind_run_error heq, Proc.bind_run_error hg]
    | ok r => rw [Proc.bind_run_ok heq, Proc.bind_run_ok hg]
  · rw [Proc.out_bind_pure]
    exact hapart

/-- **Removal and the order of `memcpy`.**  On every array whose items lie in its block, and
for every index of an item, a pop and a swap do not depend on the order in which `memcpy`
copies.  A removal does not exactly when there is at most one item behind the removed one, or
items have no bytes. -/
theorem removals_orderFree (h : ItemsInside w n m.array) {index : Int} (hlow : 0 ≤ index)
    (hhigh : index < n) (item : Bool) :
    OrderFree alloc w (.pop item) m ∧ OrderFree alloc w (.swapAndPop index item) m ∧
      (OrderFree alloc w (.remove index item) m ↔ w = 0 ∨ (n : Int) ≤ index + 2) := by
  obtain ⟨k, rfl⟩ := Int.eq_ofNat_of_zero_le hlow
  have hk : k < n := Int.ofNat_lt.mp hhigh
  refine ⟨?_, ?_, ?_, ?_⟩
  · refine orderFree_of_eq alloc trivial fun o =>
      result_congr ⟨?_, emits_ngArrayPop alloc w item m⟩
    rw [ngArrayPopBy_inOrder]
  · exact orderFree_of_eq alloc trivial fun o =>
      result_congr (ngArraySwapAndPopBy_inOrder alloc o h hk item)
  · intro hfree
    rcases Nat.eq_zero_or_pos w with hw | hw
    · exact Or.inl hw
    · refine Or.inr (Int.not_lt.mp fun hlt => ?_)
      have ascending : CopyOrder := ⟨fun _ _ n => List.range n, fun _ _ _ => List.Perm.refl _⟩
      refine shift_not_apart (n := n) (k := k) hw (by omega) ((hfree ascending).1 _ ?_)
      have hshifts := ngArrayRemoveBy_shifts alloc ascending h hk item
      rwa [← Proc.out_bind_pure _ (fun r => (⟨some r.1, r.2⟩ : OpResult))] at hshifts
  · intro hshift
    exact orderFree_of_eq alloc trivial fun o =>
      result_congr (ngArrayRemoveBy_inOrder alloc o h hk (by omega) item)

end Orders

/-- The order of a `memcpy` that starts with the last byte. -/
def lastFirst : CopyOrder :=
  ⟨fun _ _ n => (List.range n).reverse, fun _ _ _ => List.reverse_perm _⟩

/-- Three items of one byte, in a block for four. -/
def threeBytes : ArrayMachine Unit := ⟨⟨4, 3, Block.ofBytes [1, 2, 3, 0]⟩, ()⟩

theorem removals_orderFree_of_three :
    OrderFree grantAll 1 (.pop true) threeBytes ∧
      OrderFree grantAll 1 (.swapAndPop 1 true) threeBytes ∧
      (OrderFree grantAll 1 (.remove 1 true) threeBytes ↔ 1 = 0 ∨ (3 : Int) ≤ 1 + 2) :=
  removals_orderFree grantAll (n := 3) ⟨rfl, by decide, by decide⟩ (by decide) (by decide) true

/-- Taking out the first of three items leaves the last one twice. -/
theorem lastFirst_duplicates :
    ((ArrayOp.remove 0 false).runBy (Memcpy.inOrder lastFirst) grantAll 1
        threeBytes).state.array.items.cells 1 2 = [[3], [3]] ∧
      ((ArrayOp.remove 0 false).run grantAll 1 threeBytes).state.array.items.cells 1 2 =
        [[2], [3]] ∧
      ¬ OrderFree grantAll 1 (.remove 0 false) threeBytes := by
  have htwice : ((ArrayOp.remove 0 false).runBy (Memcpy.inOrder lastFirst) grantAll 1
      threeBytes).state.array.items.cells 1 2 = [[3], [3]] := by
    decide +kernel
  have honce : ((ArrayOp.remove 0 false).run grantAll 1 threeBytes).state.array.items.cells 1 2 =
      [[2], [3]] := by
    decide +kernel
  refine ⟨htwice, honce, fun hfree => ?_⟩
  have hsame : (ArrayOp.remove 0 false).runBy (Memcpy.inOrder lastFirst) grantAll 1 threeBytes =
      (ArrayOp.remove 0 false).run grantAll 1 threeBytes := (hfree lastFirst).2.1
  rw [hsame] at htwice
  exact absurd (honce.symm.trans htwice) (by decide)

end NoGround
