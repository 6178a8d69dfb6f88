/-
  Core/ArrayList.lean --- a growable array is a list.

  `Represents w array items cap` says that the array holds these items of `w` bytes, with
  room for `cap`.  Any number of operations that are allowed on the list complete on the
  array, and leave one that holds what they leave of the list; what they ask of the allocator
  and of `memcpy` is `opsEvents` (`runOps_triple`).

  The refinement holds for any number of operations, as long as the products and the doubled
  capacities stay in `i32` and no request is refused.
-/
import NoGround.Core.ArraySpec

set_option autoImplicit false

namespace NoGround

open NoGround.Lib

/-! ## Representation -/

/-- The array holds `items`, each of `w` bytes, with room for `cap`. -/
structure Represents (w : Nat) (array : NgArray) (items : List Item) (cap : Nat) : Prop where
  len_eq : array.len = items.length
  cap_eq : array.cap = cap
  size_eq : array.items.size = w * cap
  cells_eq : array.items.cells w items.length = items
  le : items.length ≤ cap
  pos : 1 ≤ cap
  range : InI32 w cap

/-- It is an array with these contents, and with room. -/
theorem represents_iff {w cap : Nat} {array : NgArray} {items : List Item} :
    Represents w array items cap ↔
      Contains w items cap array ∧ items.length ≤ cap ∧ 1 ≤ cap where
  mp h := ⟨⟨⟨h.len_eq, h.cap_eq, h.size_eq, h.range, Or.inl h.le⟩, h.cells_eq⟩, h.le, h.pos⟩
  mpr h := ⟨h.1.len_eq, h.1.cap_eq, h.1.size_eq, h.1.cells_eq, h.2.1, h.2.2, h.1.range⟩

/-! ## Any number of operations -/

section Runs

variable {ω : Type} (alloc : AllocFn ω) {w cap : Nat} {items items' : List Item}
  {results : List OpResult} {u : List MemEvent}

/-- **Any number of operations** on the array are the operations on the list. -/
theorem runOps_triple (ops : List ArrayOp) (hpos : 0 < cap) (hle : items.length ≤ cap)
    (hops : listOps w ops items = some (items', results)) (hstays : StaysInI32 w ops items cap) :
    Proc.Triple (Traced u (Contains w items cap))
      (runOps alloc w ops : ArrayProc ω (List OpResult))
      (fun r t m => r = results ∧ Traced (u ++ opsEvents w ops items.length cap)
        (fun array => ∃ cap', Represents w array items' cap') t m) Refused := by
  induction ops generalizing items results u cap with
  | nil =>
    cases hops
    refine Proc.Triple.pure ?_
    rintro t m ⟨rfl, hm⟩
    exact ⟨rfl, (List.append_nil t).symm, cap, represents_iff.mpr ⟨hm, hle, hpos⟩⟩
  | cons op ops ih =>
    obtain ⟨items₁, result, results₁, hop, hrest, rfl⟩ := listOps_cons hops
    obtain ⟨hrange, hstays⟩ := (staysInI32_cons hop).mp hstays
    obtain ⟨hcompletes, rfl, rfl⟩ := ArrayOp.follows_onList hpos hle hop
    obtain ⟨hpos', hle'⟩ := ArrayOp.room_of_onList hpos hle hop
    have hrun := ih (u := u ++ op.events w items.length cap) hpos' hle' hrest hstays
    rw [ArrayOp.length_newItems hcompletes, List.append_assoc] at hrun
    unfold runOps opsEvents
    refine Proc.Triple.bind_known (op.run_triple alloc hcompletes hrange) ?_
    exact Proc.Triple.bind_known hrun (Proc.Triple.pure fun _ _ h => ⟨rfl, h⟩)

end Runs

/-! ## Every run -/

/-- A new array, and any number of operations on it. -/
def arrayRun {ω : Type} (alloc : AllocFn ω) (item_size cap : Int) (ops : List ArrayOp) :
    ArrayProc ω (List OpResult) := do
  ngArrayAlloc alloc item_size cap
  runOps alloc item_size ops

/-- What a new array, and any number of operations on it, ask of the allocator and of
`memcpy`. -/
def arrayEvents (w cap : Nat) (ops : List ArrayOp) : List MemEvent :=
  requestFor w cap :: opsEvents w ops 0 cap

theorem arrayRun_triple {ω : Type} (alloc : AllocFn ω) {w cap : Nat} (hpos : 1 ≤ cap)
    (hcap : InI32 w cap) {ops : List ArrayOp} {items : List Item} {results : List OpResult}
    (hops : listOps w ops [] = some (items, results)) (hstays : StaysInI32 w ops [] cap) :
    Proc.Triple (Traced [] fun _ => True) (arrayRun alloc w cap ops)
      (fun r t m => r = results ∧ Traced (arrayEvents w cap ops)
        (fun array => ∃ cap', Represents w array items cap') t m) Refused :=
  Proc.Triple.bind (ngArrayAlloc_triple alloc hcap) fun _ =>
    runOps_triple alloc ops hpos (Nat.zero_le cap) hops hstays

/-- A removal takes its item out of the array and drops no other one, and the capacity does
not increase. -/
def RemovalsShrink {ω : Type} (alloc : AllocFn ω) (w : Nat) (items : List Item) (cap : Nat)
    (m : ArrayMachine ω) : Prop :=
  ∀ (op : ArrayOp) (items' : List Item) (result : OpResult), op.Removes →
    op.onList w items = some (items', result) → AllGranted (op.run alloc w m).out →
    ∃ m' out cap', op.run alloc w m = ⟨.ok result, m', out⟩ ∧
      Represents w m'.array items' cap' ∧ cap' ≤ cap

/-- A triple whose failures are refusals, for a run in which nothing is refused. -/
theorem ok_of_allGranted {ω α : Type} {P : List MemEvent → ArrayMachine ω → Prop}
    {m : ArrayProc ω α} {Q : α → List MemEvent → ArrayMachine ω → Prop}
    (h : Proc.Triple P m Q Refused) {s : ArrayMachine ω} (hs : P [] s)
    (hgranted : AllGranted (m s).out) :
    ∃ a s' out, m s = ⟨.ok a, s', out⟩ ∧ Q a out s' := by
  rcases hrun : m s with ⟨r, s', out⟩
  cases r with
  | error e =>
    obtain ⟨-, hrefused⟩ := h.error (t := []) hs hrun
    rw [hrun] at hgranted
    exact absurd hgranted hrefused
  | ok a => exact ⟨a, s', out, rfl, h.ok (t := []) hs hrun⟩

/-- Every array that holds its items is one of these. -/
theorem Represents.removalsShrink {ω : Type} (alloc : AllocFn ω) {w cap : Nat}
    {items : List Item} {m : ArrayMachine ω} (h : Represents w m.array items cap) :
    RemovalsShrink alloc w items cap m := by
  intro op items' result hremoves hop hgranted
  obtain ⟨hcontains, hlen, hpos⟩ := represents_iff.mp h
  have hle := ArrayOp.newCap_le hremoves (ArrayOp.pos_of_removes hremoves hop) hlen
  have hrange : InI32 w (op.newCap items.length cap) :=
    ⟨Nat.lt_of_le_of_lt hle h.range.1, h.range.mul_lt hle⟩
  obtain ⟨hcompletes, rfl, rfl⟩ := ArrayOp.follows_onList hpos hlen hop
  obtain ⟨hpos', hlen'⟩ := ArrayOp.room_of_onList hpos hlen hop
  obtain ⟨r, m', out, hok, rfl, -, hcontains'⟩ := ok_of_allGranted
    (op.run_triple alloc (u := []) hcompletes hrange) ⟨rfl, hcontains⟩ hgranted
  exact ⟨m', out, _, hok, represents_iff.mpr ⟨hcontains', hlen', hpos'⟩, hle⟩

/-- **A growable array is a list.**  After any operations on a new array, if the sizes stay
in `i32` and nothing is refused: the calls returned what they return on the list, the array
holds the list, and its capacity holds the length and is positive.  A removal after that
drops no other item, and does not increase the capacity. -/
theorem arrayRun_refinesList {ω : Type} (alloc : AllocFn ω) {w cap : Nat} (hpos : 1 ≤ cap)
    (hcap : InI32 w cap) {ops : List ArrayOp} {items : List Item} {results : List OpResult}
    (hops : listOps w ops [] = some (items, results)) (hstays : StaysInI32 w ops [] cap)
    (m : ArrayMachine ω) (hgranted : AllGranted (arrayRun alloc w cap ops m).out) :
    ∃ m' out cap', arrayRun alloc w cap ops m = ⟨.ok results, m', out⟩ ∧
      Represents w m'.array items cap' ∧ RemovalsShrink alloc w items cap' m' := by
  obtain ⟨r, m', out, hok, rfl, -, cap', hrep⟩ :=
    ok_of_allGranted (arrayRun_triple alloc hpos hcap hops hstays) ⟨rfl, trivial⟩ hgranted
  exact ⟨m', out, cap', hok, hrep, hrep.removalsShrink alloc⟩

/-- An allocator that refuses nothing, and clears what it adds. -/
def grantAll : AllocFn Unit where
  alloc old n w := (some ⟨n, fun i => if i < old.size then old.byte i else 0⟩, w)
  size_eq h := by
    cases h
    rfl
  keeps h i hi _ := by
    cases h
    exact if_pos hi

/-- A machine before anything is allocated. -/
def noArray : ArrayMachine Unit := ⟨⟨0, 0, ⟨0, fun _ => 0⟩⟩, ()⟩

/-- Items of two bytes: three are pushed, the first and the last are removed. -/
def threeItems : List ArrayOp :=
  [.push fun _ => 1, .push fun _ => 2, .push fun _ => 3, .remove 0 true, .swapAndPop 1 true,
    .fit]

theorem threeItems_onList :
    listOps 2 threeItems [] =
      some ([[2, 2]], [⟨some 1, none⟩, ⟨some 2, none⟩, ⟨some 3, none⟩, ⟨some 2, some [1, 1]⟩,
        ⟨some 1, some [3, 3]⟩, ⟨none, none⟩]) :=
  rfl

theorem arrayRun_refinesList_three_items :
    ∃ m' out cap', arrayRun grantAll 2 1 threeItems ⟨⟨0, 0, ⟨0, fun _ => 0⟩⟩, ()⟩ =
        ⟨.ok [⟨some 1, none⟩, ⟨some 2, none⟩, ⟨some 3, none⟩, ⟨some 2, some [1, 1]⟩,
          ⟨some 1, some [3, 3]⟩, ⟨none, none⟩], m', out⟩ ∧
      Represents 2 m'.array [[2, 2]] cap' ∧ RemovalsShrink grantAll 2 [[2, 2]] cap' m' :=
  arrayRun_refinesList grantAll (by decide) (by decide) threeItems_onList
    ⟨by decide, by decide, by decide, by decide, by decide, by decide, trivial⟩ _
    (by decide +kernel)

end NoGround
