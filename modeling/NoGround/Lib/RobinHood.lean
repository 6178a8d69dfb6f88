/-
  Lib/RobinHood.lean --- open addressing in a ring, with robin hood probing.

  A table of `N` slots keeps, for each slot, the hash of what is in it and its distance from
  the home of that hash, counted from 1; distance 0 is an empty slot.  Two conditions make it a
  robin hood table (`Placed`): everything is that far from its home, and from one slot to the
  next the distance grows by at most one.  The second says at once that no slot between a home
  and its entry is empty (`Placed.reach`) and that no entry is far from its home while one
  before it is near.

  An insertion walks with an entry in hand.  `Carried` is what it keeps about it: it may put it
  down (`Carried.put`), exchange it for a nearer one (`Carried.swap`) or walk on
  (`Carried.next`).  A deletion moves a hole (`Holed`) towards the next slot whose entry is at
  home.

  What the slots hold is a list (`contents`).  A change of one slot is a change of one element
  of it, up to order (`contents_perm`, `others_congr`).  Nothing here depends on how a program
  stores its slots.
-/
import Mathlib.Data.Finset.Card
import Mathlib.Data.List.Perm.Basic
import Mathlib.Data.List.Range
import Mathlib.Data.Nat.ModEq

set_option autoImplicit false

namespace NoGround.Lib

open Function (update)

section Contents

variable {β : Type} {N : Nat}

/-! ## What is in the slots -/

/-- What the slots below `N` hold, in their order. -/
def contents (N : Nat) (slot : Nat → Option β) : List β := (List.range N).filterMap slot

/-- What the slots below `N` hold, without slot `i`. -/
def others (N i : Nat) (slot : Nat → Option β) : List β :=
  ((List.range N).erase i).filterMap slot

theorem contents_perm {i : Nat} (hi : i < N) (slot : Nat → Option β) :
    (contents N slot).Perm ((slot i).toList ++ others N i slot) := by
  have hsplit : (List.range N).Perm (i :: (List.range N).erase i) :=
    List.perm_cons_erase (List.mem_range.mpr hi)
  have hperm := hsplit.filterMap slot
  cases hslot : slot i with
  | none => rwa [List.filterMap_cons_none hslot] at hperm
  | some x => rwa [List.filterMap_cons_some hslot] at hperm

theorem others_congr {i : Nat} {slot slot' : Nat → Option β}
    (h : ∀ p, p ≠ i → slot p = slot' p) : others N i slot = others N i slot' := by
  apply List.filterMap_congr
  intro p hp
  exact h p (List.nodup_range.mem_erase_iff.mp hp).1

@[simp] theorem others_update (i : Nat) (slot : Nat → Option β) (o : Option β) :
    others N i (update slot i o) = others N i slot :=
  others_congr fun _ hne => Function.update_of_ne hne _ _

theorem mem_contents {slot : Nat → Option β} {x : β} :
    x ∈ contents N slot ↔ ∃ p < N, slot p = some x := by
  simp [contents]

theorem exists_free {slot : Nat → Option β} (h : (contents N slot).length < N) :
    ∃ e < N, slot e = none := by
  by_contra hfull
  push Not at hfull
  have hall : (contents N slot).length = (List.range N).length := by
    apply List.filterMap_length_eq_length.mpr
    intro p hp
    exact Option.ne_none_iff_isSome.mp (hfull p (List.mem_range.mp hp))
  rw [List.length_range] at hall
  omega

end Contents

section RobinHood

variable {N : Nat} {dib hash : Nat → Nat}

/-- Every entry at its distance from home, and no distance more than one above the last. -/
structure Placed (N : Nat) (dib hash : Nat → Nat) : Prop where
  homed : ∀ p < N, ∀ k, dib p = k + 1 → (hash p + k) % N = p
  probe : ∀ p < N, dib ((p + 1) % N) ≤ dib p + 1

/-- Two positions with one position behind them are one. -/
theorem next_inj {p q : Nat} (hp : p < N) (hq : q < N) (h : (p + 1) % N = (q + 1) % N) :
    p = q := by
  have hmod : p % N = q % N := Nat.ModEq.add_right_cancel' 1 h
  rwa [Nat.mod_eq_of_lt hp, Nat.mod_eq_of_lt hq] at hmod

/-- Fewer steps than there are slots do not lead back. -/
theorem add_mod_ne {q d : Nat} (hq : q < N) (hpos : 0 < d) (hd : d < N) : (q + d) % N ≠ q := by
  intro heq
  have hmod : (q + d) % N = (q + 0) % N := by rw [heq, Nat.add_zero, Nat.mod_eq_of_lt hq]
  have hzero : d % N = 0 % N := Nat.ModEq.add_left_cancel' q hmod
  rw [Nat.mod_eq_of_lt hd, Nat.zero_mod] at hzero
  omega

theorem next_mod (q : Nat) : (q % N + 1) % N = (q + 1) % N := Nat.mod_add_mod q N 1

/-! ## Looking for an entry -/

/-- Over some steps, the distance grows by at most so many. -/
theorem Placed.walk (h : Placed N dib hash) (hN : 0 < N) (q i : Nat) :
    dib ((q + i) % N) ≤ dib (q % N) + i := by
  induction i with
  | zero => exact le_refl _
  | succ i ih =>
    have hstep := h.probe ((q + i) % N) (Nat.mod_lt _ hN)
    rw [next_mod] at hstep
    rw [← Nat.add_assoc]
    omega

/-- The slots between the home of an entry and the entry are taken. -/
theorem Placed.reach (h : Placed N dib hash) {p k j : Nat} (hp : p < N) (hdib : dib p = k + 1)
    (hj : j ≤ k) : j < dib ((hash p + j) % N) := by
  have hwalk := h.walk (by omega) (hash p + j) (k - j)
  rw [show hash p + j + (k - j) = hash p + k by omega, h.homed p hp k hdib, hdib] at hwalk
  omega

/-- Every slot is some steps behind any other. -/
theorem exists_steps {e : Nat} (he : e < N) (q : Nat) : ∃ j < N, (q + j) % N = e := by
  have hN : 0 < N := by omega
  have hq := Nat.mod_lt q hN
  refine ⟨(e + (N - q % N)) % N, Nat.mod_lt _ hN, ?_⟩
  rw [Nat.add_mod_mod, ← Nat.mod_add_mod, show q % N + (e + (N - q % N)) = e + N by omega,
    Nat.add_mod_right, Nat.mod_eq_of_lt he]

/-- The slots that are taken. -/
def occupied (N : Nat) (dib : Nat → Nat) : Finset Nat := (Finset.range N).filter fun p => dib p ≠ 0

theorem mem_occupied {p : Nat} : p ∈ occupied N dib ↔ p < N ∧ dib p ≠ 0 := by
  simp [occupied]

theorem card_occupied_eq {β : Type} {slot : Nat → Option β} (h : ∀ p, slot p = none ↔ dib p = 0) :
    (occupied N dib).card = (contents N slot).length := by
  rw [occupied, contents, List.length_filterMap_eq_countP, List.countP_eq_length_filter,
    Finset.card_def, Finset.filter_val, Finset.range_val, Multiset.range, Multiset.filter_coe,
    Multiset.coe_card]
  congr 1
  apply List.filter_congr
  intro p _
  rw [Bool.eq_iff_iff, decide_eq_true_iff, Ne, ← h p, Option.isSome_iff_ne_none]

/-- With a free slot somewhere, no entry is farther from home than there are entries. -/
theorem Placed.dib_le (h : Placed N dib hash) {e p : Nat} (he : e < N) (hfree : dib e = 0)
    (hp : p < N) : dib p ≤ (occupied N dib).card := by
  rcases Nat.eq_zero_or_pos (dib p) with hzero | hpos
  · rw [hzero]
    exact Nat.zero_le _
  obtain ⟨k, hk⟩ : ∃ k, dib p = k + 1 := ⟨dib p - 1, by omega⟩
  have hkN : k < N := by
    by_contra hge
    obtain ⟨j, hj, hje⟩ := exists_steps he (hash p)
    have := h.reach hp hk (j := j) (by omega)
    rw [hje, hfree] at this
    exact absurd this (Nat.not_lt_zero _)
  have hcard := Finset.card_le_card_of_injOn (s := Finset.range (k + 1)) (t := occupied N dib)
    (fun j => (hash p + j) % N) ?_ ?_
  · rwa [Finset.card_range, ← hk] at hcard
  · intro j hj
    have hjk : j ≤ k := by
      have := Finset.mem_range.mp hj
      omega
    have hreach := h.reach hp hk hjk
    exact mem_occupied.mpr ⟨Nat.mod_lt _ (by omega), Nat.ne_of_gt (Nat.zero_lt_of_lt hreach)⟩
  · intro i hi j hj hij
    have hi' := Finset.mem_range.mp hi
    have hj' := Finset.mem_range.mp hj
    have hmod : i % N = j % N := Nat.ModEq.add_left_cancel' (hash p) hij
    rwa [Nat.mod_eq_of_lt (by omega), Nat.mod_eq_of_lt (by omega)] at hmod

/-- Within as many steps as there are entries is a free slot. -/
theorem exists_near_free (h : (occupied N dib).card < N) (q : Nat) :
    ∃ s ≤ (occupied N dib).card, dib ((q + s) % N) = 0 := by
  by_contra hall
  push Not at hall
  have hcard := Finset.card_le_card_of_injOn (s := Finset.range ((occupied N dib).card + 1))
    (t := occupied N dib) (fun j => (q + j) % N) ?_ ?_
  · rw [Finset.card_range] at hcard
    omega
  · intro j hj
    have hj' := Finset.mem_range.mp hj
    exact mem_occupied.mpr ⟨Nat.mod_lt _ (by omega), hall j (by omega)⟩
  · intro i hi j hj hij
    have hi' := Finset.mem_range.mp hi
    have hj' := Finset.mem_range.mp hj
    have hmod : i % N = j % N := Nat.ModEq.add_left_cancel' q hij
    rwa [Nat.mod_eq_of_lt (by omega), Nat.mod_eq_of_lt (by omega)] at hmod

/-! ## Putting an entry in -/

/-- An entry of hash `h` in hand before slot `i`, at distance `k + 1` there. -/
structure Carried (N : Nat) (dib : Nat → Nat) (i k h : Nat) : Prop where
  homed : (h + k) % N = i
  probe : ∀ q < N, (q + 1) % N = i → k ≤ dib q

variable {i k h : Nat}

theorem carried_start (N : Nat) (dib : Nat → Nat) (h : Nat) : Carried N dib (h % N) 0 h where
  homed := rfl
  probe := fun _ _ _ => Nat.zero_le _

/-- Walk past an entry that is no nearer to its home. -/
theorem Carried.next (hc : Carried N dib i k h) (hi : i < N) (hfar : k + 1 ≤ dib i) :
    Carried N dib ((i + 1) % N) (k + 1) h where
  homed := by rw [← hc.homed, next_mod, Nat.add_assoc]
  probe := by
    intro q hq hnext
    rwa [next_inj hq hi hnext]

/-- An entry in hand has passed no more slots than are taken. -/
theorem Carried.le (ht : Placed N dib hash) (hc : Carried N dib i k h) (hi : i < N) {e : Nat}
    (he : e < N) (hfree : dib e = 0) : k ≤ (occupied N dib).card := by
  obtain ⟨j, -, hj⟩ := exists_steps hi 1
  have hbefore : j % N < N := Nat.mod_lt _ (by omega)
  have hnext : (j % N + 1) % N = i := by rw [next_mod, Nat.add_comm, hj]
  exact le_trans (hc.probe _ hbefore hnext) (ht.dib_le he hfree hbefore)

/-- Put the entry down, in a free slot or in the place of a nearer one. -/
theorem Carried.put (ht : Placed N dib hash) (hc : Carried N dib i k h) (hi : i < N)
    (hnear : dib i ≤ k + 1) : Placed N (update dib i (k + 1)) (update hash i h) where
  homed := by
    intro p hp k' hk'
    rcases eq_or_ne p i with rfl | hne
    · rw [Function.update_self] at hk' ⊢
      obtain rfl : k = k' := by omega
      exact hc.homed
    · rw [Function.update_of_ne hne] at hk' ⊢
      exact ht.homed p hp k' hk'
  probe := by
    intro p hp
    rcases eq_or_ne ((p + 1) % N) i with hnext | hnext
    · rw [hnext, Function.update_self]
      rcases eq_or_ne p i with rfl | hne
      · rw [Function.update_self]
        omega
      · rw [Function.update_of_ne hne]
        have := hc.probe p hp hnext
        omega
    · rw [Function.update_of_ne hnext]
      have hstep := ht.probe p hp
      rcases eq_or_ne p i with rfl | hne
      · rw [Function.update_self]
        omega
      · rwa [Function.update_of_ne hne]

/-- Take the nearer entry along instead. -/
theorem Carried.swap (ht : Placed N dib hash) {k' : Nat} (hi : i < N) (hdib : dib i = k' + 1)
    (hnear : k' ≤ k) :
    Carried N (update dib i (k + 1)) ((i + 1) % N) (k' + 1) (hash i) where
  homed := by rw [← Nat.add_assoc, ← next_mod, ht.homed i hi k' hdib]
  probe := by
    intro q hq hnext
    rw [next_inj hq hi hnext, Function.update_self]
    omega

/-! ## Taking an entry out -/

/-- A table with a hole: nothing is known about slot `q`, and the next may be one farther. -/
structure Holed (N : Nat) (dib hash : Nat → Nat) (q : Nat) : Prop where
  homed : ∀ p < N, p ≠ q → ∀ k, dib p = k + 1 → (hash p + k) % N = p
  probe : ∀ p < N, p ≠ q → (p + 1) % N ≠ q → dib ((p + 1) % N) ≤ dib p + 1
  across : ∀ p < N, (p + 1) % N = q → dib ((q + 1) % N) ≤ dib p + 2

variable {q : Nat}

/-- Whatever is written at slot `q`, it is a hole. -/
theorem Placed.hole (h : Placed N dib hash) (hN : 1 < N) (hq : q < N) (d : Nat) :
    Holed N (update dib q d) hash q where
  homed := by
    intro p hp hne k' hk'
    rw [Function.update_of_ne hne] at hk'
    exact h.homed p hp k' hk'
  probe := by
    intro p hp hne hne'
    rw [Function.update_of_ne hne, Function.update_of_ne hne']
    exact h.probe p hp
  across := by
    intro p hp hnext
    have hne : p ≠ q := by
      rintro rfl
      exact add_mod_ne hq Nat.one_pos hN hnext
    have hfirst := h.probe p hp
    have hsecond := h.probe q hq
    rw [hnext] at hfirst
    rw [Function.update_of_ne hne, Function.update_of_ne (add_mod_ne hq Nat.one_pos hN)]
    omega

/-- The entry behind the hole moves into it, one nearer to its home. -/
theorem Holed.shift (h : Holed N dib hash q) (hN : 2 < N) (hq : q < N)
    (hdib : dib ((q + 1) % N) = k + 2) :
    Holed N (update dib q (k + 1)) (update hash q (hash ((q + 1) % N))) ((q + 1) % N) := by
  have hnext : (q + 1) % N < N := Nat.mod_lt _ (by omega)
  have hne : (q + 1) % N ≠ q := add_mod_ne hq Nat.one_pos (by omega)
  have hne' : ((q + 1) % N + 1) % N ≠ q := by
    rw [next_mod]
    exact add_mod_ne hq Nat.two_pos hN
  constructor
  · intro p hp hpn k' hk'
    rcases eq_or_ne p q with rfl | hpq
    · rw [Function.update_self] at hk' ⊢
      have hhome := h.homed _ hnext hne _ hdib
      obtain rfl : k = k' := by omega
      have hmod : (hash ((p + 1) % N) + k) % N = p % N := Nat.ModEq.add_right_cancel' 1 hhome
      rw [hmod, Nat.mod_eq_of_lt hq]
    · rw [Function.update_of_ne hpq] at hk' ⊢
      exact h.homed p hp hpq k' hk'
  · intro p hp hpn hpnn
    have hpq : p ≠ q := fun heq => hpnn (by rw [heq])
    rw [Function.update_of_ne hpq]
    rcases eq_or_ne ((p + 1) % N) q with hpre | hpre
    · have := h.across p hp hpre
      rw [hpre, Function.update_self]
      omega
    · rw [Function.update_of_ne hpre]
      exact h.probe p hp hpq hpre
  · intro p hp hpn
    obtain rfl : p = q := next_inj hp hq hpn
    have hstep := h.probe _ hnext hne hne'
    rw [Function.update_self, Function.update_of_ne hne']
    omega

/-- Where the next entry is at home or there is none, the hole becomes a free slot. -/
theorem Holed.close (h : Holed N dib hash q) (hdib : dib ((q + 1) % N) ≤ 1) (x : Nat) :
    Placed N (update dib q 0) (update hash q x) where
  homed := by
    intro p hp k' hk'
    rcases eq_or_ne p q with rfl | hpq
    · rw [Function.update_self] at hk'
      omega
    · rw [Function.update_of_ne hpq] at hk' ⊢
      exact h.homed p hp hpq k' hk'
  probe := by
    intro p hp
    rcases eq_or_ne ((p + 1) % N) q with hpre | hpre
    · rw [hpre, Function.update_self]
      exact Nat.zero_le _
    · rw [Function.update_of_ne hpre]
      rcases eq_or_ne p q with rfl | hpq
      · rw [Function.update_self]
        exact hdib
      · rw [Function.update_of_ne hpq]
        exact h.probe p hp hpq hpre

end RobinHood

end NoGround.Lib
