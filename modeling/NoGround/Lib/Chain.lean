/-
  Lib/Chain.lean --- the cells of a heap: linked one behind the other, and owned.

  `Chain mk heap l`: the cells at the addresses of `l` hold its values, and the link of each
  is the address of the next; the last has none.  `mk` says what a cell with such a link and
  such a value looks like, so a cell may be any record.  A chain only reads its own cells
  (`Chain.congr`), loses its first cell as it stands, and takes a new last one when the old
  last is linked to it (`Chain.snoc`).

  `Owns heap M`: the cells in memory are those of the multiset `M`, each once.  Splitting `M`
  among the parts of a program says who may free which cell.
-/
import Mathlib.Data.List.Basic
import Mathlib.Data.List.Nodup
import Mathlib.Data.Multiset.UnionInter
import Mathlib.Logic.Function.Basic

set_option autoImplicit false

namespace NoGround.Lib

open Function (update)

section Chain

variable {κ ω ν : Type} (mk : Option κ → ω → ν)

/-- Cells with these addresses and values, each linked to the next. -/
def Chain (heap : κ → Option ν) : List (κ × ω) → Prop
  | [] => True
  | (a, w) :: l => heap a = some (mk (l.head?.map Prod.fst) w) ∧ Chain heap l

variable {mk} {heap heap' : κ → Option ν} {l : List (κ × ω)} {a b : κ} {v w : ω}

theorem chain_nil : Chain mk heap [] := trivial

theorem chain_cons : Chain mk heap ((a, w) :: l) ↔
    heap a = some (mk (l.head?.map Prod.fst) w) ∧ Chain mk heap l := Iff.rfl

/-- Only the cells of a chain matter. -/
theorem Chain.congr (h : ∀ x ∈ l, heap' x.1 = heap x.1) (hl : Chain mk heap l) :
    Chain mk heap' l := by
  induction l with
  | nil => exact chain_nil
  | cons x l ih =>
    obtain ⟨a, w⟩ := x
    obtain ⟨hcell, hrest⟩ := chain_cons.mp hl
    rw [chain_cons, h (a, w) List.mem_cons_self]
    exact ⟨hcell, ih (fun x hx => h x (List.mem_cons_of_mem _ hx)) hrest⟩

/-- The last cell, and what is in it. -/
theorem Chain.last (hl : Chain mk heap (l ++ [(b, v)])) : heap b = some (mk none v) := by
  induction l with
  | nil => exact hl.1
  | cons x l ih => exact ih hl.2

variable [DecidableEq κ]

theorem Chain.update {c : Option ν} (h : a ∉ l.map Prod.fst) (hl : Chain mk heap l) :
    Chain mk (update heap a c) l := by
  apply hl.congr
  intro x hx
  apply Function.update_of_ne
  rintro rfl
  exact h (List.mem_map_of_mem hx)

/-- A new last cell, linked behind the old one. -/
theorem Chain.snoc (hl : Chain mk heap (l ++ [(b, v)])) (ha : heap a = some (mk none w))
    (hnodup : ((l ++ [(b, v), (a, w)]).map Prod.fst).Nodup) :
    Chain mk (Function.update heap b (some (mk (some a) v))) (l ++ [(b, v), (a, w)]) := by
  induction l with
  | nil =>
    have hne : a ≠ b := by
      rintro rfl
      simp at hnodup
    refine ⟨Function.update_self b _ heap, ?_, chain_nil⟩
    rw [Function.update_of_ne hne]
    exact ha
  | cons x l ih =>
    obtain ⟨c, u⟩ := x
    obtain ⟨hcell, hrest⟩ := chain_cons.mp hl
    rw [List.cons_append, List.map_cons, List.nodup_cons] at hnodup
    have hne : c ≠ b := by
      rintro rfl
      exact hnodup.1 (List.mem_map.mpr ⟨(c, v), by simp, rfl⟩)
    have hhead : (l ++ [(b, v)]).head?.map Prod.fst =
        (l ++ [(b, v), (a, w)]).head?.map Prod.fst := by
      cases l <;> rfl
    rw [List.cons_append, chain_cons, Function.update_of_ne hne, ← hhead]
    exact ⟨hcell, ih hrest hnodup.2⟩

end Chain

/-! ## Owned cells -/

section Owns

variable {κ ν : Type}

/-- The cells in memory, each owned once. -/
structure Owns (heap : κ → Option ν) (M : Multiset κ) : Prop where
  nodup : M.Nodup
  mem_iff : ∀ a, a ∈ M ↔ heap a ≠ none

variable {heap heap' : κ → Option ν} {M : Multiset κ} {a : κ}

theorem owns_empty : Owns (fun _ => none : κ → Option ν) 0 where
  nodup := Multiset.nodup_zero
  mem_iff := by simp

theorem Owns.congr (h : Owns heap M) (hsame : ∀ a, heap' a ≠ none ↔ heap a ≠ none) :
    Owns heap' M where
  nodup := h.nodup
  mem_iff := fun a => (h.mem_iff a).trans (hsame a).symm

variable [DecidableEq κ]

theorem Owns.alloc {x : ν} (h : Owns heap M) (ha : heap a = none) :
    Owns (update heap a (some x)) (a ::ₘ M) where
  nodup := Multiset.nodup_cons.mpr ⟨fun hmem => (h.mem_iff a).mp hmem ha, h.nodup⟩
  mem_iff := by
    intro b
    rw [Multiset.mem_cons]
    rcases eq_or_ne b a with rfl | hne
    · simp
    · rw [Function.update_of_ne hne, h.mem_iff b]
      simp [hne]

theorem Owns.free (h : Owns heap (a ::ₘ M)) : Owns (update heap a none) M where
  nodup := (Multiset.nodup_cons.mp h.nodup).2
  mem_iff := by
    intro b
    rcases eq_or_ne b a with rfl | hne
    · simpa using (Multiset.nodup_cons.mp h.nodup).1
    · rw [Function.update_of_ne hne, ← h.mem_iff b, Multiset.mem_cons]
      simp [hne]

end Owns

end NoGround.Lib
