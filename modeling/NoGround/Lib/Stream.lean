/-
  Lib/Stream.lean --- reading a stream of self-delimiting records.

  A reader takes one record off the front of a stream and leaves the rest.  If it reads what
  was written for each record, whatever stands behind it, then it reads a concatenation of
  records back, and no two lists of records are written alike.
-/
import Mathlib.Data.List.Basic

set_option autoImplicit false

namespace NoGround.Lib

section Stream

variable {α β : Type} (next : List α → Option (β × List α))

/-- Take records off a stream until nothing is left of it; at most `fuel` of them. -/
def readAll : Nat → List α → Option (List β)
  | _, [] => some []
  | 0, _ :: _ => none
  | fuel + 1, a :: as =>
      match next (a :: as) with
      | none => none
      | some (b, rest) => (readAll fuel rest).map (b :: ·)

/-- The records of a whole stream; each has at least one element. -/
def records (stream : List α) : Option (List β) := readAll next stream.length stream

/-- The reader reads what `wire` writes for `b`. -/
def Delimits (wire : β → List α) (b : β) : Prop :=
  wire b ≠ [] ∧ ∀ rest, next (wire b ++ rest) = some (b, rest)

variable {next} {wire : β → List α}

theorem readAll_flatMap {bs : List β} (h : ∀ b ∈ bs, Delimits next wire b) {fuel : Nat}
    (hfuel : bs.length ≤ fuel) : readAll next fuel (bs.flatMap wire) = some bs := by
  induction bs generalizing fuel with
  | nil => cases fuel <;> rfl
  | cons b bs ih =>
    obtain ⟨hne, hnext⟩ := h b List.mem_cons_self
    have hrest : ∀ b' ∈ bs, Delimits next wire b' := fun b' hb' =>
      h b' (List.mem_cons_of_mem b hb')
    rw [List.length_cons] at hfuel
    obtain ⟨fuel, rfl⟩ : ∃ f, fuel = f + 1 := ⟨fuel - 1, by omega⟩
    obtain ⟨a, as, hcons⟩ := List.exists_cons_of_ne_nil hne
    have hfirst := hnext (bs.flatMap wire)
    rw [hcons, List.cons_append] at hfirst
    rw [List.flatMap_cons, hcons, List.cons_append, readAll, hfirst]
    show (readAll next fuel (bs.flatMap wire)).map (b :: ·) = some (b :: bs)
    rw [ih hrest (by omega), Option.map_some]

theorem length_le_flatMap {bs : List β} (h : ∀ b ∈ bs, Delimits next wire b) :
    bs.length ≤ (bs.flatMap wire).length := by
  induction bs with
  | nil => exact Nat.le_refl 0
  | cons b bs ih =>
    have hfirst := List.length_pos_iff.mpr (h b List.mem_cons_self).1
    have hrest := ih fun b' hb' => h b' (List.mem_cons_of_mem b hb')
    rw [List.flatMap_cons, List.length_append, List.length_cons]
    omega

/-- **Round trip.** -/
theorem records_flatMap {bs : List β} (h : ∀ b ∈ bs, Delimits next wire b) :
    records next (bs.flatMap wire) = some bs :=
  readAll_flatMap h (length_le_flatMap h)

end Stream

end NoGround.Lib
