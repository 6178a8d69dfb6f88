/-
  Lib/Table.lean --- bounded tables: append while there is room, and remove by
  overwriting the slot with the last element.

  A table is an array of `cap` slots of which the first `len` are in use.  Only
  the used slots are represented, as a list; that the list fits the capacity is
  a field of the structure, so a table that overran its array cannot be built.

  Swap removal does not keep the order of the elements.  What it keeps is stated
  by `swapRemove_perm`: together with the element that was removed, the
  remaining ones are the old ones.
-/
import Mathlib.Data.List.Induction
import Mathlib.Data.List.Nodup
import Mathlib.Data.List.Perm.Basic

set_option autoImplicit false

namespace NoGround.Lib

/-! ## Swap removal on lists -/

/-- Overwrite slot `i` with the last element and drop the last slot. -/
def swapRemove {α : Type} (l : List α) (i : Nat) : List α :=
  match l.getLast? with
  | none => []
  | some last => (l.set i last).dropLast

section SwapRemove

variable {α β : Type}

theorem swapRemove_concat (l : List α) (last : α) (i : Nat) :
    swapRemove (l ++ [last]) i = ((l ++ [last]).set i last).dropLast := by
  simp [swapRemove]

@[simp] theorem length_swapRemove (l : List α) (i : Nat) :
    (swapRemove l i).length = l.length - 1 := by
  cases l using List.reverseRecOn with
  | nil => rfl
  | append_singleton l last => simp [swapRemove_concat]

theorem map_swapRemove (f : α → β) (l : List α) (i : Nat) :
    (swapRemove l i).map f = swapRemove (l.map f) i := by
  cases l using List.reverseRecOn with
  | nil => rfl
  | append_singleton l last => simp [swapRemove_concat, List.map_dropLast, List.map_set]

/-- Removal in a nonempty tail leaves the head where it is. -/
theorem swapRemove_cons_succ (a : α) {l : List α} (hl : l ≠ []) (i : Nat) :
    swapRemove (a :: l) (i + 1) = a :: swapRemove l i := by
  cases l using List.reverseRecOn with
  | nil => exact absurd rfl hl
  | append_singleton l last =>
    rw [swapRemove_concat, ← List.cons_append, swapRemove_concat, List.cons_append,
      List.set_cons_succ, List.dropLast_cons_of_ne_nil]
    simp

/-- Removal behind the head is removal in the tail. -/
theorem tail_swapRemove {l : List α} {i : Nat} (hi : 1 ≤ i) (hlt : i < l.length) :
    (swapRemove l i).tail = swapRemove l.tail (i - 1) := by
  cases l with
  | nil => cases hlt
  | cons a l =>
    have hne : l ≠ [] := by
      rintro rfl
      simp at hlt
      omega
    obtain ⟨j, rfl⟩ : ∃ j, i = j + 1 := ⟨i - 1, by omega⟩
    rw [swapRemove_cons_succ a hne]
    rfl

/-- Removal leaves the elements before the slot where they are. -/
theorem take_swapRemove {l : List α} {i : Nat} (hlt : i < l.length) :
    (swapRemove l i).take i = l.take i := by
  cases l using List.reverseRecOn with
  | nil => cases hlt
  | append_singleton l last =>
    have hle : i ≤ l.length := by
      rw [List.length_append, List.length_singleton] at hlt
      omega
    rw [swapRemove_concat, List.dropLast_eq_take, List.take_take, List.length_set,
      List.length_append, List.length_singleton, Nat.add_sub_cancel, Nat.min_eq_left hle,
      List.take_set_of_le (Nat.le_refl i)]

/-- The removed element and the remaining ones are the old elements. -/
theorem swapRemove_perm {l : List α} {i : Nat} {a : α} (h : l[i]? = some a) :
    (a :: swapRemove l i).Perm l := by
  cases l using List.reverseRecOn with
  | nil => simp at h
  | append_singleton l last =>
    rw [swapRemove_concat]
    rcases Nat.lt_trichotomy i l.length with hlt | heq | hgt
    · have hi : l[i] = a := by
        rw [List.getElem?_append_left hlt, List.getElem?_eq_getElem hlt] at h
        exact Option.some.inj h
      have hsplit : l = l.take i ++ a :: l.drop (i + 1) := by
        rw [← hi, ← List.drop_eq_getElem_cons hlt, List.take_append_drop]
      have hset : l.set i last = l.take i ++ last :: l.drop (i + 1) :=
        List.set_eq_take_append_cons_drop.trans (if_pos hlt)
      rw [List.set_append_left _ _ hlt, List.dropLast_concat, hset]
      calc (a :: (l.take i ++ last :: l.drop (i + 1))).Perm
            (l.take i ++ a :: last :: l.drop (i + 1)) := List.perm_middle.symm
        _ = l.take i ++ (a :: ([last] ++ l.drop (i + 1))) := rfl
        _ |>.Perm (l.take i ++ (a :: (l.drop (i + 1) ++ [last]))) :=
            (List.perm_append_comm.cons a).append_left _
        _ = l ++ [last] := by
            conv => rhs; rw [hsplit]
            simp
    · subst heq
      have ha : a = last := by simpa using h.symm
      subst ha
      simpa using (List.perm_append_singleton a l).symm
    · have hnone : (l ++ [last])[i]? = none := by simp; omega
      rw [hnone] at h
      cases h

theorem mem_of_mem_swapRemove {l : List α} {i : Nat} {a b : α} (h : l[i]? = some a)
    (hb : b ∈ swapRemove l i) : b ∈ l :=
  (swapRemove_perm h).subset (List.mem_cons_of_mem a hb)

/-- In a list without repetitions the removed element is gone, and the rest has
no repetitions either. -/
theorem nodup_swapRemove {l : List α} {i : Nat} {a : α} (h : l[i]? = some a)
    (hl : l.Nodup) : a ∉ swapRemove l i ∧ (swapRemove l i).Nodup := by
  have hp : (a :: swapRemove l i).Nodup := (swapRemove_perm h).nodup_iff.mpr hl
  exact List.nodup_cons.mp hp

end SwapRemove

/-! ## Tables -/

/-- The used part of an array of `cap` slots. -/
structure Table (α : Type) where
  items : List α
  cap : Nat
  len_le_cap : items.length ≤ cap
  deriving DecidableEq

namespace Table

variable {α β : Type}

/-- The number of used slots. -/
def len (t : Table α) : Nat := t.items.length

/-- An array of `cap` slots, none of them used. -/
def empty (cap : Nat) : Table α := ⟨[], cap, Nat.zero_le _⟩

/-- Append, if there is room. -/
def push (t : Table α) (a : α) : Option (Table α) :=
  if h : t.len < t.cap then
    some ⟨t.items ++ [a], t.cap, by rw [List.length_append]; exact h⟩
  else none

/-- Overwrite slot `i`. -/
def set (t : Table α) (i : Nat) (a : α) : Table α :=
  ⟨t.items.set i a, t.cap, by simpa using t.len_le_cap⟩

/-- Change every used slot, knowing its index. -/
def mapIdx (t : Table α) (f : Nat → α → α) : Table α :=
  ⟨t.items.mapIdx f, t.cap, by simpa using t.len_le_cap⟩

/-- Remove slot `i` by moving the last element into it. -/
def swapRemove (t : Table α) (i : Nat) : Table α :=
  ⟨Lib.swapRemove t.items i, t.cap, by
    have := t.len_le_cap
    rw [length_swapRemove]
    omega⟩

@[simp] theorem items_empty (cap : Nat) : (empty cap : Table α).items = [] := rfl
@[simp] theorem cap_empty (cap : Nat) : (empty cap : Table α).cap = cap := rfl
@[simp] theorem items_set (t : Table α) (i : Nat) (a : α) :
    (t.set i a).items = t.items.set i a := rfl
@[simp] theorem cap_set (t : Table α) (i : Nat) (a : α) : (t.set i a).cap = t.cap := rfl
@[simp] theorem items_mapIdx (t : Table α) (f : Nat → α → α) :
    (t.mapIdx f).items = t.items.mapIdx f := rfl
@[simp] theorem cap_mapIdx (t : Table α) (f : Nat → α → α) : (t.mapIdx f).cap = t.cap := rfl
@[simp] theorem items_swapRemove (t : Table α) (i : Nat) :
    (t.swapRemove i).items = Lib.swapRemove t.items i := rfl
@[simp] theorem cap_swapRemove (t : Table α) (i : Nat) :
    (t.swapRemove i).cap = t.cap := rfl

theorem push_of_lt {t : Table α} {a : α} (h : t.len < t.cap) :
    ∃ t', t.push a = some t' ∧ t'.items = t.items ++ [a] ∧ t'.cap = t.cap := by
  unfold push
  rw [dif_pos h]
  exact ⟨_, rfl, rfl, rfl⟩

theorem push_of_full {t : Table α} {a : α} (h : t.cap ≤ t.len) : t.push a = none :=
  dif_neg (Nat.not_lt.mpr h)

theorem push_eq_some {t t' : Table α} {a : α} (h : t.push a = some t') :
    t.len < t.cap ∧ t'.items = t.items ++ [a] ∧ t'.cap = t.cap := by
  by_cases hlt : t.len < t.cap
  · obtain ⟨t'', ht, hitems, hcap⟩ := push_of_lt (a := a) hlt
    rw [ht] at h
    obtain rfl := Option.some.inj h
    exact ⟨hlt, hitems, hcap⟩
  · rw [push_of_full (Nat.not_lt.mp hlt)] at h
    cases h

end Table

end NoGround.Lib
