/-
  Lib/Groups.lean --- a list cut into groups of one length.

  `groups n l` cuts `l` from the left; only the last group may be shorter than `n`.  A code that
  works group by group is a `flatMap` or a `foldl` over it, and the two rules `groups_append` and
  `groups_short` are all that is needed of it: one takes the first group off, the other says what
  is left at the end.

  STREAMS.  What comes in piece by piece is at every moment `whole n l`, the groups that are
  complete, and `rest n l`, fewer than `n` elements.  `whole_concat` and `rest_concat` say what
  one more element does to the two.
-/
import Mathlib.Data.List.Basic

set_option autoImplicit false

namespace NoGround.Lib

section Groups

variable {α β : Type} {n : Nat}

/-! ## Groups -/

/-- The groups of `n` elements of a list. -/
def groups (n : Nat) (l : List α) : List (List α) :=
  if _h : 0 < n ∧ l ≠ [] then l.take n :: groups n (l.drop n) else []
termination_by l.length
decreasing_by
  have hlen := List.length_pos_iff.mpr _h.2
  rw [List.length_drop]
  omega

@[simp] theorem groups_nil (n : Nat) : groups n ([] : List α) = [] := by
  unfold groups
  exact dif_neg fun h => h.2 rfl

/-- A list that is no longer than a group is one. -/
theorem groups_short {l : List α} (hne : l ≠ []) (hlen : l.length ≤ n) : groups n l = [l] := by
  have hpos : 0 < n := Nat.lt_of_lt_of_le (List.length_pos_iff.mpr hne) hlen
  rw [groups, dif_pos ⟨hpos, hne⟩, List.take_of_length_le hlen, List.drop_of_length_le hlen,
    groups_nil]

/-- Take the first group off. -/
theorem groups_append {g : List α} (hpos : 0 < n) (hlen : g.length = n) (l : List α) :
    groups n (g ++ l) = g :: groups n l := by
  have hne : g ++ l ≠ [] := by
    intro h
    have hzero := congrArg List.length h
    rw [List.length_append, List.length_nil] at hzero
    omega
  rw [groups, dif_pos ⟨hpos, hne⟩, List.take_left' hlen, List.drop_left' hlen]

/-- A list of whole groups in front of another. -/
theorem groups_append_of_dvd (hpos : 0 < n) {l : List α} (hdvd : n ∣ l.length) (l' : List α) :
    groups n (l ++ l') = groups n l ++ groups n l' := by
  obtain ⟨k, hk⟩ := hdvd
  induction k generalizing l with
  | zero =>
    have hnil : l = [] := List.length_eq_zero_iff.mp hk
    subst hnil
    rw [groups_nil]
    rfl
  | succ k ih =>
    rw [Nat.mul_succ] at hk
    have hhead : (l.take n).length = n := by
      rw [List.length_take]
      omega
    have htail : (l.drop n).length = n * k := by
      rw [List.length_drop]
      omega
    rw [← List.take_append_drop n l, List.append_assoc, groups_append hpos hhead,
      groups_append hpos hhead, ih htail, List.cons_append]

/-- Lists that are groups are found again. -/
theorem groups_flatten (hpos : 0 < n) {gs : List (List α)} (hgs : ∀ g ∈ gs, g.length = n) :
    groups n gs.flatten = gs := by
  induction gs with
  | nil => exact groups_nil n
  | cons g gs ih =>
    rw [List.flatten_cons, groups_append hpos (hgs g List.mem_cons_self),
      ih fun g' hg' => hgs g' (List.mem_cons_of_mem g hg')]

/-- Nothing is lost. -/
theorem flatten_groups (hpos : 0 < n) (l : List α) : (groups n l).flatten = l := by
  induction l using groups.induct n with
  | case1 l hl ih => rw [groups, dif_pos hl, List.flatten_cons, ih, List.take_append_drop]
  | case2 l hl =>
    have hnil : l = [] := by
      by_contra hne
      exact hl ⟨hpos, hne⟩
    rw [hnil, groups_nil]
    rfl

/-- Every group has an element, and at most `n`. -/
theorem length_of_mem_groups {l g : List α} (h : g ∈ groups n l) :
    0 < g.length ∧ g.length ≤ n := by
  induction l using groups.induct n with
  | case1 l hl ih =>
    rw [groups, dif_pos hl] at h
    rcases List.mem_cons.mp h with rfl | hmem
    · have hlen := List.length_pos_iff.mpr hl.2
      rw [List.length_take]
      omega
    · exact ih hmem
  | case2 l hl =>
    rw [groups, dif_neg hl] at h
    cases h

/-- How many groups there are. -/
theorem length_groups (hpos : 0 < n) (l : List α) :
    (groups n l).length = (l.length + n - 1) / n := by
  induction l using groups.induct n with
  | case1 l hl ih =>
    have hlen := List.length_pos_iff.mpr hl.2
    rw [groups, dif_pos hl, List.length_cons, ih, List.length_drop]
    by_cases hshort : l.length ≤ n
    · have hzero : (l.length - n + n - 1) / n = 0 := Nat.div_eq_of_lt (by omega)
      have hone : (l.length + n - 1) / n = 1 := by
        rw [Nat.div_eq_iff hpos]
        omega
      rw [hzero, hone]
    · have hsum : l.length + n - 1 = (l.length - n + n - 1) + n := by omega
      rw [hsum, Nat.add_div_right _ hpos]
  | case2 l hl =>
    have hnil : l = [] := by
      by_contra hne
      exact hl ⟨hpos, hne⟩
    rw [hnil, groups_nil, List.length_nil, List.length_nil, Nat.zero_add]
    exact (Nat.div_eq_of_lt (by omega)).symm

/-- A code of the groups is put together from those of the parts. -/
theorem flatMap_groups_append (hpos : 0 < n) (f : List α → List β) {g : List α}
    (hlen : g.length = n) (l : List α) :
    (groups n (g ++ l)).flatMap f = f g ++ (groups n l).flatMap f := by
  rw [groups_append hpos hlen, List.flatMap_cons]

/-! ## Streams -/

/-- The groups of `l` that are complete. -/
def whole (n : Nat) (l : List α) : List α := l.take (n * (l.length / n))

/-- What `l` has of the next group. -/
def rest (n : Nat) (l : List α) : List α := l.drop (n * (l.length / n))

theorem whole_append_rest (n : Nat) (l : List α) : whole n l ++ rest n l = l :=
  List.take_append_drop _ l

theorem length_rest (n : Nat) (l : List α) : (rest n l).length = l.length % n := by
  rw [rest, List.length_drop, ← Nat.mod_eq_sub]

theorem dvd_length_whole (n : Nat) (l : List α) : n ∣ (whole n l).length := by
  have hle : n * (l.length / n) ≤ l.length := Nat.mul_div_le l.length n
  rw [whole, List.length_take, Nat.min_eq_left hle]
  exact Nat.dvd_mul_right n _

/-- A list that is split into whole groups and less than one is split so. -/
theorem whole_rest_unique {l l' : List α} (hdvd : n ∣ l.length) (hlt : l'.length < n) :
    whole n (l ++ l') = l ∧ rest n (l ++ l') = l' := by
  obtain ⟨k, hk⟩ := hdvd
  have hcut : n * ((l ++ l').length / n) = l.length := by
    rw [List.length_append, hk, Nat.mul_add_div (by omega), Nat.div_eq_of_lt hlt, Nat.add_zero]
  unfold whole rest
  rw [hcut, List.take_left, List.drop_left]
  exact ⟨rfl, rfl⟩

/-- One more element does not complete the group. -/
theorem concat_of_lt {l : List α} {a : α} (hlt : (rest n l).length + 1 < n) :
    whole n (l ++ [a]) = whole n l ∧ rest n (l ++ [a]) = rest n l ++ [a] := by
  have hsplit : l ++ [a] = whole n l ++ (rest n l ++ [a]) := by
    rw [← List.append_assoc, whole_append_rest]
  rw [hsplit]
  apply whole_rest_unique (dvd_length_whole n l)
  rw [List.length_append, List.length_singleton]
  exact hlt

/-- One more element completes it. -/
theorem concat_of_eq {l : List α} {a : α} (heq : (rest n l).length + 1 = n) :
    whole n (l ++ [a]) = whole n l ++ (rest n l ++ [a]) ∧ rest n (l ++ [a]) = [] := by
  have hlast : (rest n l ++ [a]).length = n := by
    rw [List.length_append, List.length_singleton]
    exact heq
  have hsplit : l ++ [a] = (whole n l ++ (rest n l ++ [a])) ++ [] := by
    rw [List.append_nil, ← List.append_assoc, whole_append_rest]
  rw [hsplit]
  apply whole_rest_unique
  · rw [List.length_append, hlast]
    exact (Nat.dvd_add_right (dvd_length_whole n l)).mpr (Nat.dvd_refl n)
  · rw [List.length_nil]
    omega

end Groups

end NoGround.Lib
