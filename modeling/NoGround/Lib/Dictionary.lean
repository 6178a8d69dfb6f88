/-
  Lib/Dictionary.lean --- dictionaries as lists of entries no two of which have the same key.

  Which entries have the same key is a relation `same`; it need not be reflexive, so an entry
  that nothing is the same as can be put in and not be found.  A dictionary is known up to the
  order of its list: looking an entry up, putting one in and taking one out do not depend on
  it (`lookup_perm`, `remove_perm`) where no two entries are the same (`Distinct`).
-/
import Mathlib.Data.List.Perm.Basic
import Mathlib.Data.List.Pairwise

set_option autoImplicit false

namespace NoGround.Lib

variable {β : Type}

/-- Symmetric and transitive, as a decision. -/
structure Matching (same : β → β → Bool) : Prop where
  symm : ∀ {a b}, same a b = true → same b a = true
  trans : ∀ {a b c}, same a b = true → same b c = true → same a c = true

theorem Matching.left {same : β → β → Bool} (h : Matching same) {a b c : β}
    (hb : same a b = true) (hc : same a c = true) : same b c = true :=
  h.trans (h.symm hb) hc

/-- Where nothing has the key of anything. -/
theorem matching_never : Matching fun _ _ : β => false where
  symm := fun h => h
  trans := fun h _ => h

/-- No two entries have the same key. -/
def Distinct (same : β → β → Bool) (d : List β) : Prop := d.Pairwise fun a b => same a b = false

/-- The entry with the key of `k`. -/
def lookupEntry (same : β → β → Bool) (d : List β) (k : β) : Option β := d.find? (same k)

/-- Without the entry with the key of `k`. -/
def removeEntry (same : β → β → Bool) (d : List β) (k : β) : List β := d.eraseP (same k)

/-- With the entry `x`, in the place of one with its key. -/
def putEntry (same : β → β → Bool) (d : List β) (x : β) : List β := x :: removeEntry same d x

variable {same : β → β → Bool} {d d' : List β} {k x y : β}

/-- What is looked up is what would be taken out. -/
theorem lookup_append_remove (same : β → β → Bool) (d : List β) (k : β) :
    d.Perm ((lookupEntry same d k).toList ++ removeEntry same d k) := by
  cases hfind : d.find? (same k) with
  | none =>
      have hnot : ∀ x ∈ d, ¬ same k x = true := List.find?_eq_none.mp hfind
      rw [lookupEntry, hfind, removeEntry, List.eraseP_of_forall_not hnot]
      exact List.Perm.refl _
  | some y =>
      obtain ⟨hy, l₁, l₂, rfl, hbefore⟩ := List.find?_eq_some_iff_append.mp hfind
      have hnot : ∀ x ∈ l₁, ¬ same k x = true := by
        intro x hx hsame
        have := hbefore x hx
        rw [hsame] at this
        exact absurd this Bool.false_ne_true
      rw [lookupEntry, hfind, removeEntry, List.eraseP_append_right _ hnot,
        List.eraseP_cons_of_pos hy]
      exact List.perm_middle

/-! ## Where nothing has the key -/

theorem lookup_absent (h : ∀ x ∈ d, same k x = false) : lookupEntry same d k = none := by
  apply List.find?_eq_none.mpr
  intro x hx
  rw [h x hx]
  exact Bool.false_ne_true

theorem remove_absent (h : ∀ x ∈ d, same k x = false) : removeEntry same d k = d := by
  apply List.eraseP_of_forall_not
  intro x hx
  rw [h x hx]
  exact Bool.false_ne_true

/-- An entry that is put in is not the same as any other. -/
theorem distinct_cons (h : Distinct same d) (hx : ∀ y ∈ d, same x y = false) :
    Distinct same (x :: d) :=
  List.pairwise_cons.mpr ⟨hx, h⟩

theorem Distinct.remove (h : Distinct same d) (k : β) : Distinct same (removeEntry same d k) :=
  List.Pairwise.sublist List.eraseP_sublist h

/-! ## Where something has the key -/

section Order

variable {rest : List β} (hm : Matching same)

include hm

theorem Distinct.perm (h : Distinct same d) (hp : d.Perm d') : Distinct same d' := by
  apply (hp.pairwise_iff _).mp h
  intro a b hab
  by_contra hba
  rw [Bool.not_eq_false] at hba
  rw [hm.symm hba] at hab
  exact absurd hab Bool.noConfusion

/-- What has the key of an entry has the key of no other. -/
theorem Distinct.others (h : Distinct same (y :: rest)) (hk : same k y = true) :
    ∀ z ∈ rest, same k z = false := by
  intro z hz
  have hyz := (List.pairwise_cons.mp h).1 z hz
  by_contra hkz
  rw [Bool.not_eq_false] at hkz
  rw [hm.left hk hkz] at hyz
  exact absurd hyz Bool.noConfusion

theorem lookup_perm (h : Distinct same d) (hp : d.Perm (y :: rest)) (hk : same k y = true) :
    lookupEntry same d k = some y := by
  have hrest := (h.perm hm hp).others hm hk
  have hy : y ∈ d := hp.mem_iff.mpr List.mem_cons_self
  obtain ⟨x, hfind⟩ := Option.isSome_iff_exists.mp
    (List.find?_isSome.mpr ⟨y, hy, hk⟩)
  have hx : same k x = true := List.find?_some hfind
  have hmem : x ∈ y :: rest := hp.mem_iff.mp (List.mem_of_find?_eq_some hfind)
  rcases List.mem_cons.mp hmem with rfl | hin
  · exact hfind
  · rw [hrest x hin] at hx
    exact absurd hx Bool.noConfusion

theorem remove_perm (h : Distinct same d) (hp : d.Perm (y :: rest)) (hk : same k y = true) :
    (removeEntry same d k).Perm rest := by
  have herase : (removeEntry same d k).Perm ((y :: rest).eraseP (same k)) := by
    apply List.Perm.eraseP _ _ hp
    apply h.imp
    intro a b hab ha hb
    rw [hm.left ha hb] at hab
    exact absurd hab Bool.noConfusion
  rwa [List.eraseP_cons_of_pos hk] at herase

/-- Either nothing has the key, or one entry has it and the rest is known up to order. -/
theorem Distinct.cases (h : Distinct same d) (k : β) :
    ((∀ x ∈ d, same k x = false) ∧ lookupEntry same d k = none ∧ removeEntry same d k = d) ∨
      ∃ y rest, d.Perm (y :: rest) ∧ same k y = true ∧ (∀ z ∈ rest, same k z = false) ∧
        lookupEntry same d k = some y ∧ (removeEntry same d k).Perm rest := by
  cases hfind : d.find? (same k) with
  | none =>
      have hnot : ∀ x ∈ d, same k x = false := by
        intro x hx
        exact Bool.not_eq_true _ ▸ List.find?_eq_none.mp hfind x hx
      exact .inl ⟨hnot, lookup_absent hnot, remove_absent hnot⟩
  | some y =>
      have hk : same k y = true := List.find?_some hfind
      obtain ⟨l₁, l₂, hd⟩ := List.append_of_mem (List.mem_of_find?_eq_some hfind)
      have hp : d.Perm (y :: (l₁ ++ l₂)) := by
        rw [hd]
        exact List.perm_middle
      exact .inr ⟨y, l₁ ++ l₂, hp, hk, (h.perm hm hp).others hm hk,
        lookup_perm hm h hp hk, remove_perm hm h hp hk⟩

theorem Distinct.put (h : Distinct same d) (x : β) : Distinct same (putEntry same d x) := by
  apply distinct_cons (h.remove x)
  rcases h.cases hm x with ⟨hnot, -, hd⟩ | ⟨y, rest, -, -, hnot, -, hd⟩
  · rwa [hd]
  · intro z hz
    exact hnot z (hd.mem_iff.mp hz)

/-- Putting in makes the dictionary larger where nothing is replaced. -/
theorem Distinct.length_put (h : Distinct same d) (x : β) :
    (putEntry same d x).length = d.length + if (lookupEntry same d x).isSome then 0 else 1 := by
  rcases h.cases hm x with ⟨-, hnone, hd⟩ | ⟨y, rest, hp, -, -, hsome, hd⟩
  · rw [hnone, putEntry, hd]
    rfl
  · rw [hsome, putEntry, List.length_cons, hd.length_eq, hp.length_eq]
    rfl

end Order

end NoGround.Lib
