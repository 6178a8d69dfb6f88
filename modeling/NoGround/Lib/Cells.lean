/-
  Lib/Cells.lean --- arrays of items in a memory block.

  `cells w n` reads a block as `n` items of `w` bytes each, one behind the other.  The three
  ways to change the bytes of such an array are changes of that list: a store over one item
  is `List.set`, a store behind the last one appends, and moving the items behind an index
  down by one is `List.eraseIdx`.

  `move` copies a range of a block to another place in it.  It reads every byte before it
  writes one, as `memmove` does, so the ranges may overlap.
-/
import NoGround.Lib.Block
import NoGround.Lib.Table

set_option autoImplicit false

namespace NoGround.Lib

namespace Block

/-! ## Loading, storing and moving -/

/-- Read `n` bytes at `src`. -/
def load (b : Block) (src n : Nat) : Option (List UInt8) :=
  if src + n ≤ b.size then some ((List.range n).map fun i => b.byte (src + i)) else none

/-- Write `n` bytes at `dst`. -/
def store (b : Block) (dst : Nat) (f : Nat → UInt8) (n : Nat) : Option Block :=
  each dst (fun i _ => f i) n 0 b

/-- Copy `n` bytes at `src` to `dst`. -/
def move (b : Block) (dst src n : Nat) : Option Block :=
  if src + n ≤ b.size then b.store dst (fun i => b.byte (src + i)) n else none

theorem store_of_le {b : Block} {dst n : Nat} (f : Nat → UInt8) (h : dst + n ≤ b.size) :
    b.store dst f n = some ⟨b.size, fun j =>
      if dst ≤ j ∧ j < dst + n then f (j - dst) else b.byte j⟩ := by
  unfold store
  rw [each_of_le dst (fun i _ => f i) n 0 b h]
  rfl

theorem move_of_le {b : Block} {dst src n : Nat} (hdst : dst + n ≤ b.size)
    (hsrc : src + n ≤ b.size) :
    b.move dst src n = some ⟨b.size, fun j =>
      if dst ≤ j ∧ j < dst + n then b.byte (src + (j - dst)) else b.byte j⟩ := by
  unfold move
  rw [if_pos hsrc, store_of_le _ hdst]

/-! ## Cells -/

/-- Item `k` of an array of items of `w` bytes. -/
def cell (b : Block) (w k : Nat) : List UInt8 := (List.range w).map fun i => b.byte (w * k + i)

/-- The first `n` items. -/
def cells (b : Block) (w n : Nat) : List (List UInt8) := (List.range n).map (b.cell w)

section Cells

variable {b b' : Block} {w k n : Nat}

/-- An item ends before the items behind it begin. -/
theorem cell_end_le {m : Nat} (w : Nat) (h : k < m) : w * k + w ≤ w * m :=
  calc w * k + w = w * (k + 1) := (Nat.mul_succ w k).symm
    _ ≤ w * m := Nat.mul_le_mul_left w h

theorem load_cell (h : w * k + w ≤ b.size) : b.load (w * k) w = some (b.cell w k) := by
  unfold load cell
  rw [if_pos h]

theorem cell_congr (h : ∀ i, i < w → b.byte (w * k + i) = b'.byte (w * k + i)) :
    b.cell w k = b'.cell w k := by
  unfold cell
  refine List.map_congr_left fun i hi => ?_
  exact h i (List.mem_range.mp hi)

theorem cells_congr (h : ∀ i, i < w * n → b.byte i = b'.byte i) :
    b.cells w n = b'.cells w n := by
  unfold cells
  refine List.map_congr_left fun k hk => cell_congr fun i hi => ?_
  have hend := cell_end_le w (List.mem_range.mp hk)
  exact h _ (by omega)

@[simp] theorem length_cells : (b.cells w n).length = n := by
  simp [cells]

theorem getElem?_cells (h : k < n) : (b.cells w n)[k]? = some (b.cell w k) := by
  simp [cells, h]

theorem cells_succ : b.cells w (n + 1) = b.cells w n ++ [b.cell w n] := by
  unfold cells
  rw [List.range_succ, List.map_append, List.map_singleton]

theorem take_cells (m : Nat) : (b.cells w n).take m = b.cells w (min m n) := by
  unfold cells
  rw [← List.map_take, List.take_range]

/-- A store over one item: this item. -/
theorem cell_stored {f : Nat → UInt8} {size : Nat} :
    cell ⟨size, fun j => if w * k ≤ j ∧ j < w * k + w then f (j - w * k) else b.byte j⟩ w k =
      (List.range w).map f := by
  unfold cell
  refine List.map_congr_left fun i hi => ?_
  have hlt := List.mem_range.mp hi
  have hin : w * k ≤ w * k + i ∧ w * k + i < w * k + w := by omega
  simp only [if_pos hin]
  rw [Nat.add_sub_cancel_left]

/-- A store over one item: all items. -/
theorem cells_stored {f : Nat → UInt8} {size : Nat} :
    cells ⟨size, fun j => if w * k ≤ j ∧ j < w * k + w then f (j - w * k) else b.byte j⟩ w n =
      (b.cells w n).set k ((List.range w).map f) := by
  refine List.ext_getElem? fun m => ?_
  rcases Nat.lt_or_ge m n with hm | hm
  · rw [getElem?_cells hm, List.getElem?_set, length_cells]
    rcases Nat.lt_trichotomy m k with hlt | rfl | hgt
    · have hend := cell_end_le w hlt
      rw [if_neg (by omega), getElem?_cells hm]
      refine congrArg some (cell_congr fun i hi => ?_)
      exact if_neg (by omega)
    · rw [if_pos rfl, if_pos hm, cell_stored]
    · have hend := cell_end_le w hgt
      rw [if_neg (by omega), getElem?_cells hm]
      refine congrArg some (cell_congr fun i hi => ?_)
      exact if_neg (by omega)
  · rw [List.getElem?_eq_none (by simpa using hm), List.getElem?_eq_none (by simpa using hm)]

/-- A store behind the last item. -/
theorem cells_stored_last {f : Nat → UInt8} {size : Nat} :
    cells ⟨size, fun j => if w * n ≤ j ∧ j < w * n + w then f (j - w * n) else b.byte j⟩ w
      (n + 1) = b.cells w n ++ [(List.range w).map f] := by
  rw [cells_succ, cell_stored]
  congr 1
  exact cells_congr fun i hi => if_neg (by omega)

/-- The items behind item `k`, moved down by one. -/
theorem cells_moved_down {z : Nat} (hk : k ≤ n) :
    cells ⟨z, fun j =>
        if w * k ≤ j ∧ j < w * k + w * (n - k) then b.byte (w * (k + 1) + (j - w * k))
        else b.byte j⟩ w n =
      (b.cells w (n + 1)).eraseIdx k := by
  have hspan : w * k + w * (n - k) = w * n := by
    rw [← Nat.mul_add, Nat.add_sub_cancel' hk]
  refine List.ext_getElem? fun m => ?_
  rcases Nat.lt_or_ge m n with hm | hm
  · rw [getElem?_cells hm, List.getElem?_eraseIdx]
    rcases Nat.lt_or_ge m k with hlt | hge
    · have hend := cell_end_le w hlt
      rw [if_pos hlt, getElem?_cells (by omega)]
      refine congrArg some (cell_congr fun i hi => ?_)
      exact if_neg (by omega)
    · have hstart : w * k ≤ w * m := Nat.mul_le_mul_left w hge
      have hend := cell_end_le w hm
      have hnext : w * (m + 1) = w * (k + 1) + (w * m - w * k) := by
        rw [Nat.mul_succ, Nat.mul_succ]
        omega
      rw [if_neg (by omega), getElem?_cells (by omega)]
      unfold cell
      refine congrArg some (List.map_congr_left fun i hi => ?_)
      have hlt := List.mem_range.mp hi
      have hin : w * k ≤ w * m + i ∧ w * m + i < w * k + w * (n - k) := by omega
      simp only [if_pos hin]
      congr 1
      omega
  · have hlen : ((b.cells w (n + 1)).eraseIdx k).length = n := by
      rw [List.length_eraseIdx, length_cells, if_pos (by omega)]
      omega
    rw [List.getElem?_eq_none (by simpa using hm), List.getElem?_eq_none (by omega)]

/-- The last item, stored over item `k` and dropped behind it. -/
theorem cells_stored_over {z : Nat} (hk : k < n) :
    cells ⟨z, fun j =>
        if w * k ≤ j ∧ j < w * k + w then b.byte (w * n + (j - w * k)) else b.byte j⟩ w n =
      swapRemove (b.cells w (n + 1)) k := by
  rw [cells_stored (f := fun i => b.byte (w * n + i)), cells_succ, swapRemove_concat,
    List.set_append_left _ _ (by simpa using hk), List.dropLast_concat]
  rfl

end Cells

end Block

end NoGround.Lib
