/-
  Lib/Slices.lean --- ranges of a block as lists of bytes, and little-endian words.

  `slice p n` is what `n` bytes at `p` hold, `write p bs` the block after `bs` was written
  there.  Two laws make a codec of parts out of codecs for the parts: a slice of two ranges
  side by side is an append, and so is a write over them.
-/
import NoGround.Lib.Cells

set_option autoImplicit false

namespace NoGround.Lib

namespace Block

/-- The `n` bytes at `p`. -/
def slice (b : Block) (p n : Nat) : List UInt8 := (List.range n).map fun i => b.byte (p + i)

/-- The block with `bs` at `p`. -/
def write (b : Block) (p : Nat) (bs : List UInt8) : Block :=
  ⟨b.size, fun j => if p ≤ j ∧ j < p + bs.length then bs.getD (j - p) 0 else b.byte j⟩

section Slices

variable {b : Block} {p n m : Nat} {bs cs : List UInt8}

@[simp] theorem length_slice : (b.slice p n).length = n := by
  simp [slice]

@[simp] theorem size_write : (b.write p bs).size = b.size := rfl

/-- Two ranges side by side. -/
theorem slice_add : b.slice p (n + m) = b.slice p n ++ b.slice (p + n) m := by
  unfold slice
  rw [List.range_add, List.map_append, List.map_map]
  congr 1
  refine List.map_congr_left fun i _ => ?_
  show b.byte (p + (n + i)) = b.byte (p + n + i)
  rw [Nat.add_assoc]

theorem getD_slice {i : Nat} (h : i < n) : (b.slice p n).getD i 0 = b.byte (p + i) := by
  simp [slice, List.getD_eq_getElem?_getD, h]

/-- What is written is what is there. -/
theorem slice_write : (b.write p bs).slice p bs.length = bs := by
  refine List.ext_getElem (by simp) fun i _ hi => ?_
  simp [slice, write, List.getD_eq_getElem?_getD, hi]

/-- What is there is written without a change. -/
theorem write_slice : b.write p (b.slice p n) = b := by
  unfold write
  congr 1
  funext j
  split
  · rename_i h
    rw [length_slice] at h
    rw [getD_slice (by omega)]
    congr 1
    omega
  · rfl

theorem write_nil : b.write p [] = b := by
  have hsame : (fun j => if p ≤ j ∧ j < p + ([] : List UInt8).length then
      ([] : List UInt8).getD (j - p) 0 else b.byte j) = b.byte := by
    funext j
    exact if_neg (by simp)
  unfold write
  rw [hsame]

/-- Two writes side by side are one. -/
theorem write_append : (b.write p bs).write (p + bs.length) cs = b.write p (bs ++ cs) := by
  unfold write
  congr 1
  funext j
  dsimp only
  rw [List.length_append]
  rcases Nat.lt_or_ge j p with hj | hj
  · rw [if_neg (by omega), if_neg (by omega), if_neg (by omega)]
  · rcases Nat.lt_or_ge j (p + bs.length) with hfirst | hbehind
    · rw [if_neg (by omega), if_pos (by omega), if_pos (by omega),
        List.getD_eq_getElem?_getD, List.getD_eq_getElem?_getD,
        List.getElem?_append_left (by omega)]
    · rw [if_neg (show ¬ (p ≤ j ∧ j < p + bs.length) by omega)]
      rcases Nat.lt_or_ge j (p + bs.length + cs.length) with hsecond | hout
      · rw [if_pos (by omega), if_pos (by omega), List.getD_eq_getElem?_getD,
          List.getD_eq_getElem?_getD, List.getElem?_append_right (by omega),
          Nat.sub_add_eq]
      · rw [if_neg (by omega), if_neg (by omega)]

end Slices

end Block

/-! ## Little-endian words -/

/-- The number with the digits `bs`, least significant first. -/
def natLE (bs : List UInt8) : Nat := natBE bs.reverse

/-- The `w` low bytes of a number, least significant first. -/
def bytesLE (w n : Nat) : List UInt8 := (bytesBE w n).reverse

@[simp] theorem length_bytesLE (w n : Nat) : (bytesLE w n).length = w := by
  simp [bytesLE]

theorem natLE_bytesLE {w n : Nat} (h : n < 256 ^ w) : natLE (bytesLE w n) = n := by
  unfold natLE bytesLE
  rw [List.reverse_reverse, natBE_bytesBE h]

theorem natLE_lt (bs : List UInt8) : natLE bs < 256 ^ bs.length := by
  have h := natBE_lt bs.reverse
  rwa [List.length_reverse] at h

/-- A word of `w` bytes is made of the bytes it is read from. -/
theorem bytesBE_natBE (bs : List UInt8) : bytesBE bs.length (natBE bs) = bs := by
  induction bs using List.reverseRecOn with
  | nil => rfl
  | append_singleton bs b ih =>
    have hb : b.toNat < 256 := b.toNat_lt
    have hdiv : natBE (bs ++ [b]) / 256 = natBE bs := by
      rw [natBE_concat]
      omega
    have hlow : UInt8.ofNat (natBE (bs ++ [b])) = b := by
      rw [natBE_concat]
      refine UInt8.toNat_inj.mp ?_
      rw [UInt8.toNat_ofNat']
      omega
    rw [List.length_append, List.length_singleton, bytesBE, hdiv, ih, hlow]

theorem bytesLE_natLE (bs : List UInt8) : bytesLE bs.length (natLE bs) = bs := by
  have h := bytesBE_natBE bs.reverse
  rw [List.length_reverse] at h
  unfold bytesLE natLE
  rw [h, List.reverse_reverse]

end NoGround.Lib
