/-
  Lib/CopyOrder.lean --- copies that take the bytes in any order.

  `memmove` reads every byte before it writes one.  `memcpy` copies them one after the other,
  and in which order is up to the library.  `moveBy` copies inside a block, `loadBy` out of
  it, in an order that is given as a list of indices.

  A copy out of a block is the same in every order.  A copy inside a block is the same in
  every order if the two ranges have no byte in common: no byte is read after it is written.
-/
import NoGround.Lib.Cells

set_option autoImplicit false

namespace NoGround.Lib

namespace Block

/-! ## Inside a block -/

/-- Copy the bytes with these indices from `src` to `dst`, one after the other. -/
def copyBytes (dst src : Nat) : List Nat → Block → Option Block
  | [], b => some b
  | i :: is, b =>
      match b.modify (dst + i) fun _ => b.byte (src + i) with
      | none => none
      | some b => copyBytes dst src is b

/-- Copy `n` bytes at `src` to `dst`, in the order of the indices `is`. -/
def moveBy (b : Block) (is : List Nat) (dst src n : Nat) : Option Block :=
  if src + n ≤ b.size then b.copyBytes dst src is else none

/-- The two ranges have no byte in common. -/
def Apart (dst src n : Nat) : Prop := ∀ i k, i < n → k < n → dst + i ≠ src + k

section Inside

variable {dst src n : Nat} {is : List Nat}

theorem copyBytes_of_lt (b : Block) (hlt : ∀ i ∈ is, dst + i < b.size)
    (hapart : ∀ i ∈ is, ∀ k ∈ is, dst + i ≠ src + k) :
    copyBytes dst src is b = some ⟨b.size, fun j =>
      if dst ≤ j ∧ j - dst ∈ is then b.byte (src + (j - dst)) else b.byte j⟩ := by
  induction is generalizing b with
  | nil =>
    have hsame : (fun j => if dst ≤ j ∧ j - dst ∈ ([] : List Nat) then b.byte (src + (j - dst))
        else b.byte j) = b.byte := by
      funext j
      exact if_neg fun h => List.not_mem_nil h.2
    rw [hsame]
    rfl
  | cons i is ih =>
    have hmem : i ∈ i :: is := List.mem_cons_self
    unfold copyBytes modify
    rw [if_pos (hlt i hmem)]
    have htail := ih ⟨b.size, Function.update b.byte (dst + i) (b.byte (src + i))⟩
      (fun k hk => hlt k (List.mem_cons_of_mem i hk)) fun k hk l hl =>
        hapart k (List.mem_cons_of_mem i hk) l (List.mem_cons_of_mem i hl)
    refine htail.trans ?_
    congr 2
    funext j
    by_cases hin : dst ≤ j ∧ j - dst ∈ is
    · -- The byte that is read was not written before.
      have hne : src + (j - dst) ≠ dst + i :=
        (hapart i hmem (j - dst) (List.mem_cons_of_mem i hin.2)).symm
      rw [if_pos hin, if_pos ⟨hin.1, List.mem_cons_of_mem i hin.2⟩]
      exact Function.update_of_ne hne _ _
    · rw [if_neg hin]
      by_cases hj : j = dst + i
      · subst hj
        rw [Nat.add_sub_cancel_left, if_pos ⟨Nat.le_add_right dst i, hmem⟩]
        exact Function.update_self _ _ _
      · have hout : ¬ (dst ≤ j ∧ j - dst ∈ i :: is) := by
          rintro ⟨hle, hj'⟩
          rcases List.mem_cons.mp hj' with heq | htail
          · exact hj (by omega)
          · exact hin ⟨hle, htail⟩
        rw [if_neg hout]
        exact Function.update_of_ne hj _ _

theorem copyBytes_eq_none (b : Block) {i : Nat} (hi : i ∈ is) (h : b.size ≤ dst + i) :
    copyBytes dst src is b = none := by
  induction is generalizing b with
  | nil => cases hi
  | cons k is ih =>
    unfold copyBytes modify
    by_cases hlt : dst + k < b.size
    · rw [if_pos hlt]
      refine ih _ ?_ h
      rcases List.mem_cons.mp hi with rfl | htail
      · omega
      · exact htail
    · rw [if_neg hlt]

/-- **Ranges without a common byte** are copied the same in every order. -/
theorem moveBy_eq_move (b : Block) (hperm : is.Perm (List.range n)) (hapart : Apart dst src n) :
    b.moveBy is dst src n = b.move dst src n := by
  have hmem : ∀ i, i ∈ is ↔ i < n := fun i => hperm.mem_iff.trans List.mem_range
  unfold moveBy move
  refine if_congr Iff.rfl ?_ rfl
  rcases Nat.eq_zero_or_pos n with rfl | hpos
  · rw [List.perm_nil.mp hperm]
    rfl
  · by_cases hdst : dst + n ≤ b.size
    · rw [copyBytes_of_lt b ?_ ?_, store_of_le _ hdst]
      · congr 2
        funext j
        refine if_congr ?_ rfl rfl
        rw [hmem]
        omega
      · intro i hi
        have := (hmem i).mp hi
        omega
      · exact fun i hi k hk => hapart i k ((hmem i).mp hi) ((hmem k).mp hk)
    · have hlast : n - 1 ∈ is := (hmem _).mpr (by omega)
      rw [copyBytes_eq_none b hlast (by omega)]
      exact (each_eq_none dst _ n 0 b (by omega) (by omega)).symm

end Inside

/-! ## Out of a block -/

/-- Copy the bytes with these indices into a buffer, one after the other. -/
def collect (b : Block) (src : Nat) : List Nat → List UInt8 → List UInt8
  | [], buf => buf
  | i :: is, buf => collect b src is (buf.set i (b.byte (src + i)))

/-- Read `n` bytes at `src`, in the order of the indices `is`. -/
def loadBy (b : Block) (is : List Nat) (src n : Nat) : Option (List UInt8) :=
  if src + n ≤ b.size then some (b.collect src is (List.replicate n 0)) else none

section Out

variable {src n : Nat} {is : List Nat}

theorem getElem?_collect (b : Block) (buf : List UInt8) {k : Nat} (hk : k < buf.length) :
    (b.collect src is buf)[k]? = if k ∈ is then some (b.byte (src + k)) else buf[k]? := by
  induction is generalizing buf with
  | nil => rw [if_neg List.not_mem_nil, collect]
  | cons i is ih =>
    rw [collect, ih _ (by rwa [List.length_set]), List.getElem?_set]
    by_cases htail : k ∈ is
    · rw [if_pos htail, if_pos (List.mem_cons_of_mem i htail)]
    · rw [if_neg htail]
      by_cases hi : i = k
      · subst hi
        rw [if_pos rfl, if_pos hk, if_pos List.mem_cons_self]
      · rw [if_neg hi, if_neg fun h => (List.mem_cons.mp h).elim (fun h => hi h.symm) htail]

theorem length_collect (b : Block) (buf : List UInt8) :
    (b.collect src is buf).length = buf.length := by
  induction is generalizing buf with
  | nil => rfl
  | cons i is ih => rw [collect, ih, List.length_set]

/-- **A copy out of a block** is the same in every order. -/
theorem loadBy_eq_load (b : Block) (hperm : is.Perm (List.range n)) :
    b.loadBy is src n = b.load src n := by
  unfold loadBy load
  refine if_congr Iff.rfl (congrArg some ?_) rfl
  refine List.ext_getElem? fun k => ?_
  rcases Nat.lt_or_ge k n with hk | hk
  · have hin : k ∈ is := hperm.mem_iff.mpr (List.mem_range.mpr hk)
    rw [getElem?_collect b _ (by rwa [List.length_replicate]), if_pos hin, List.getElem?_map,
      List.getElem?_range hk]
    rfl
  · rw [List.getElem?_eq_none (by rwa [length_collect, List.length_replicate]),
      List.getElem?_eq_none (by rwa [List.length_map, List.length_range])]

end Out

end Block

end NoGround.Lib
