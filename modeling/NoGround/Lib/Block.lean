/-
  Lib/Block.lean --- memory blocks, loops that change them in place, and words
  stored in memory.

  A block is an allocated array: a size, and a byte for each index.  A block
  fresh from an allocator has arbitrary bytes, so nothing is assumed of them.
  Only indices below the size may be changed; a change outside has no meaning,
  and `modify` does not give it one.

  `each` is the loop `for (i = 0; i < n; i++) b[off + i] = f(i, b[off + i])`.
  `each_of_le` says what it leaves if it stays inside the block, and
  `each_eq_none` that it fails if it does not.

  Words are most significant byte first, as on a network.
-/
import Mathlib.Algebra.Order.Ring.Nat
import Mathlib.Data.List.Induction
import Mathlib.Logic.Function.Basic

set_option autoImplicit false

namespace NoGround.Lib

/-! ## Blocks -/

/-- An array of `size` bytes. -/
structure Block where
  size : Nat
  byte : Nat → UInt8

namespace Block

/-- The first `n` bytes. -/
def bytes (b : Block) (n : Nat) : List UInt8 := (List.range n).map b.byte

/-- The block that holds a list. -/
def ofBytes (l : List UInt8) : Block := ⟨l.length, fun i => l.getD i 0⟩

/-- Change byte `i`. -/
def modify (b : Block) (i : Nat) (f : UInt8 → UInt8) : Option Block :=
  if i < b.size then some { b with byte := Function.update b.byte i (f (b.byte i)) }
  else none

/-- Change `n` bytes one after the other, the first of them at `off + i`. -/
def each (off : Nat) (f : Nat → UInt8 → UInt8) : Nat → Nat → Block → Option Block
  | 0, _, b => some b
  | n + 1, i, b =>
      match b.modify (off + i) (f i) with
      | none => none
      | some b => each off f n (i + 1) b

@[simp] theorem length_bytes (b : Block) (n : Nat) : (b.bytes n).length = n := by
  simp [bytes]

theorem getElem?_bytes (b : Block) {n i : Nat} (h : i < n) :
    (b.bytes n)[i]? = some (b.byte i) := by
  simp [bytes, h]

theorem bytes_congr {b b' : Block} {n : Nat} (h : ∀ i, i < n → b.byte i = b'.byte i) :
    b.bytes n = b'.bytes n := by
  unfold bytes
  refine List.map_congr_left ?_
  intro i hi
  exact h i (List.mem_range.mp hi)

/-- Two blocks with the same first bytes agree byte by byte. -/
theorem bytes_inj {b b' : Block} {n : Nat} (h : b.bytes n = b'.bytes n) {i : Nat}
    (hi : i < n) : b.byte i = b'.byte i := by
  have hb := getElem?_bytes b hi
  rw [h, getElem?_bytes b' hi] at hb
  exact (Option.some.inj hb).symm

@[simp] theorem bytes_ofBytes (l : List UInt8) : (ofBytes l).bytes l.length = l := by
  apply List.ext_getElem
  · simp
  · intro i h₁ h₂
    simp [bytes, ofBytes, List.getD_eq_getElem?_getD, h₂]

section Each

variable (off : Nat) (f : Nat → UInt8 → UInt8)

/-- A loop that stays inside the block changes exactly its range. -/
theorem each_of_le (n i : Nat) (b : Block) (h : off + i + n ≤ b.size) :
    each off f n i b = some ⟨b.size, fun j =>
      if off + i ≤ j ∧ j < off + i + n then f (j - off) (b.byte j) else b.byte j⟩ := by
  induction n generalizing i b with
  | zero =>
    have hsame : (fun j => if off + i ≤ j ∧ j < off + i + 0 then f (j - off) (b.byte j)
        else b.byte j) = b.byte := by
      funext j
      exact if_neg (by omega)
    rw [hsame]
    rfl
  | succ n ih =>
    have hlt : off + i < b.size := by omega
    unfold each modify
    rw [if_pos hlt]
    refine (ih _ _ ?_).trans ?_
    · show off + (i + 1) + n ≤ b.size
      omega
    · congr 2
      funext j
      rcases Nat.lt_trichotomy j (off + i) with hj | rfl | hj
      · have h₁ : ¬ (off + (i + 1) ≤ j ∧ j < off + (i + 1) + n) := by omega
        have h₂ : ¬ (off + i ≤ j ∧ j < off + i + (n + 1)) := by omega
        have h₃ : j ≠ off + i := by omega
        simp [h₁, h₂, Function.update_of_ne h₃]
      · have h₁ : ¬ (off + (i + 1) ≤ off + i ∧ off + i < off + (i + 1) + n) := by omega
        have h₂ : off + i ≤ off + i ∧ off + i < off + i + (n + 1) := by omega
        have h₃ : off + i - off = i := by omega
        simp only [if_neg h₁, if_pos h₂, h₃, Function.update_self]
      · have h₁ : (off + (i + 1) ≤ j ∧ j < off + (i + 1) + n) ↔
            (off + i ≤ j ∧ j < off + i + (n + 1)) := by omega
        have h₃ : j ≠ off + i := by omega
        simp only [h₁, Function.update_of_ne h₃]

/-- A loop that leaves the block fails. -/
theorem each_eq_none (n i : Nat) (b : Block) (hn : n ≠ 0) (h : b.size < off + i + n) :
    each off f n i b = none := by
  induction n generalizing i b with
  | zero => exact absurd rfl hn
  | succ n ih =>
    unfold each modify
    by_cases hlt : off + i < b.size
    · rw [if_pos hlt]
      refine ih _ _ ?_ ?_
      · omega
      · show b.size < off + (i + 1) + n
        omega
    · rw [if_neg hlt]

end Each

end Block

/-! ## Words -/

/-- The number with the digits `bs`, most significant first. -/
def natBE (bs : List UInt8) : Nat := bs.foldl (fun n b => 256 * n + b.toNat) 0

/-- The `w` low bytes of a number, most significant first. -/
def bytesBE : Nat → Nat → List UInt8
  | 0, _ => []
  | w + 1, n => bytesBE w (n / 256) ++ [UInt8.ofNat n]

@[simp] theorem length_bytesBE (w n : Nat) : (bytesBE w n).length = w := by
  induction w generalizing n with
  | zero => rfl
  | succ w ih => simp [bytesBE, ih]

theorem natBE_concat (bs : List UInt8) (b : UInt8) :
    natBE (bs ++ [b]) = 256 * natBE bs + b.toNat := by
  simp [natBE]

/-- Reading back a number that fits. -/
theorem natBE_bytesBE {w n : Nat} (h : n < 256 ^ w) : natBE (bytesBE w n) = n := by
  induction w generalizing n with
  | zero =>
    have : n = 0 := by simpa using h
    simp [bytesBE, natBE, this]
  | succ w ih =>
    have hdiv : n / 256 < 256 ^ w := by
      rw [Nat.div_lt_iff_lt_mul (by decide)]
      rwa [Nat.pow_succ] at h
    rw [bytesBE, natBE_concat, ih hdiv, UInt8.toNat_ofNat']
    omega

theorem natBE_append (bs bs' : List UInt8) :
    natBE (bs ++ bs') = 256 ^ bs'.length * natBE bs + natBE bs' := by
  induction bs' using List.reverseRecOn with
  | nil => simp [natBE]
  | append_singleton bs' b ih =>
    rw [← List.append_assoc, natBE_concat, natBE_concat, ih, List.length_append,
      List.length_singleton, Nat.pow_succ, Nat.mul_add, ← Nat.mul_assoc, Nat.mul_comm 256,
      Nat.add_assoc]

/-- Larger digits make a larger number. -/
theorem natBE_map_le {ι : Type} (is : List ι) {f g : ι → UInt8}
    (h : ∀ i ∈ is, (f i).toNat ≤ (g i).toNat) : natBE (is.map f) ≤ natBE (is.map g) := by
  induction is using List.reverseRecOn with
  | nil => exact Nat.le_refl _
  | append_singleton is i ih =>
    have hi := h i (by simp)
    have his := ih fun j hj => h j (by simp [hj])
    rw [List.map_append, List.map_append, List.map_singleton, List.map_singleton, natBE_concat,
      natBE_concat]
    omega

theorem natBE_lt (bs : List UInt8) : natBE bs < 256 ^ bs.length := by
  induction bs using List.reverseRecOn with
  | nil => simp [natBE]
  | append_singleton bs b ih =>
    have hb : b.toNat < 256 := b.toNat_lt
    rw [natBE_concat, List.length_append, List.length_singleton, Nat.pow_succ]
    omega

end NoGround.Lib
