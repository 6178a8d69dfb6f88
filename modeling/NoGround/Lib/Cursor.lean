/-
  Lib/Cursor.lean --- a block that is written from its start on.

  `*pos++ = b` writes one byte and moves on; it is `none` behind the end of the block.  What a
  program of such writes leaves is said by one rule, `putAll_eq`: the bytes, in order, behind
  what was there, as long as they fit.
-/
import NoGround.Lib.Slices

set_option autoImplicit false

namespace NoGround.Lib

/-- A block, and the index of the next byte to be written. -/
structure Cursor where
  out : Block
  pos : Nat

namespace Cursor

/-- `*pos++ = b`. -/
def put (b : UInt8) (c : Cursor) : Option Cursor :=
  (c.out.modify c.pos fun _ => b).map fun out => ⟨out, c.pos + 1⟩

/-- Write some bytes, one after the other. -/
def putAll : List UInt8 → Cursor → Option Cursor
  | [], c => some c
  | b :: bs, c => (c.put b).bind (putAll bs)

theorem put_eq (b : UInt8) (c : Cursor) :
    c.put b = if c.pos < c.out.size then some ⟨c.out.write c.pos [b], c.pos + 1⟩ else none := by
  unfold put Block.modify
  split
  · have hbyte : Function.update c.out.byte c.pos b =
        fun j => if c.pos ≤ j ∧ j < c.pos + [b].length then [b].getD (j - c.pos) 0
          else c.out.byte j := by
      funext j
      by_cases hj : j = c.pos
      · subst hj
        simp
      · rw [Function.update_of_ne hj, if_neg]
        rw [List.length_singleton]
        omega
    rw [Option.map_some, hbyte]
    rfl
  · rfl

/-- **What a sequence of writes leaves.** -/
theorem putAll_eq (bs : List UInt8) (c : Cursor) (hpos : c.pos ≤ c.out.size) :
    c.putAll bs = if c.pos + bs.length ≤ c.out.size then
      some ⟨c.out.write c.pos bs, c.pos + bs.length⟩ else none := by
  induction bs generalizing c with
  | nil =>
    rw [putAll, if_pos (by simpa using hpos), Block.write_nil]
    rfl
  | cons b bs ih =>
    rw [putAll, put_eq]
    by_cases hlt : c.pos < c.out.size
    · have hnext := ih ⟨c.out.write c.pos [b], c.pos + 1⟩ hlt
      rw [if_pos hlt, Option.bind_some, hnext, Block.size_write]
      have hwrite : (c.out.write c.pos [b]).write (c.pos + 1) bs = c.out.write c.pos (b :: bs) :=
        Block.write_append
      have hlen : c.pos + 1 + bs.length = c.pos + (b :: bs).length := by
        rw [List.length_cons]
        omega
      rw [hwrite, hlen]
    · rw [if_neg hlt, if_neg]
      · rfl
      · rw [List.length_cons]
        omega

/-- Two sequences of writes are one. -/
theorem putAll_append (bs cs : List UInt8) (c : Cursor) :
    c.putAll (bs ++ cs) = (c.putAll bs).bind (putAll cs) := by
  induction bs generalizing c with
  | nil => rfl
  | cons b bs ih =>
    rw [List.cons_append, putAll, putAll]
    cases c.put b with
    | none => rfl
    | some c' => exact ih c'

end Cursor

end NoGround.Lib
