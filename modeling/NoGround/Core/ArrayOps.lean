/-
  Core/ArrayOps.lean --- operations on a growable array, on a list, and in numbers.

  An operation runs on the array of the source (`ArrayOp.run`).  On a list of items it is a
  function that may not be allowed (`ArrayOp.onList`).  In between is what it does to an
  array if no number wraps: the items and the capacity it leaves, what it returns, and what it
  asks of the allocator and of `memcpy`.

  An operation that is allowed on a list completes on every array that holds it, and does to
  the array what it does to the list (`ArrayOp.follows_onList`).
-/
import NoGround.Core.Array

set_option autoImplicit false

namespace NoGround

open NoGround.Lib

/-! ## Operations on a list -/

/-- The bytes of an item. -/
abbrev Item := List UInt8

/-- An operation on an array. -/
inductive ArrayOp where
  | push (item : Nat → UInt8)
  | pop (item : Bool)
  | remove (index : Int) (item : Bool)
  | swapAndPop (index : Int) (item : Bool)
  | fit

/-- What an operation returns, and what it copies to `item`. -/
structure OpResult where
  value : Option Int
  item : Option Item
  deriving DecidableEq

namespace ArrayOp

/-- The operation, on the array of the source. -/
def run {ω : Type} (alloc : AllocFn ω) (item_size : Int) : ArrayOp → ArrayProc ω OpResult
  | push item => do
    let len ← ngArrayPush alloc item_size item
    return ⟨some len, none⟩
  | pop item => do
    let (len, out) ← ngArrayPop alloc item_size item
    return ⟨some len, out⟩
  | remove index item => do
    let (len, out) ← ngArrayRemove alloc item_size index item
    return ⟨some len, out⟩
  | swapAndPop index item => do
    let (len, out) ← ngArraySwapAndPop alloc item_size index item
    return ⟨some len, out⟩
  | fit => do
    arrayFit alloc item_size
    return ⟨none, none⟩

/-- A removal at `index` that leaves `items`. -/
def removal (removed : Option Item) (item : Bool) (items : List Item) :
    Option (List Item × OpResult) :=
  removed.map fun removed =>
    (items, ⟨some items.length, if item then some removed else none⟩)

/-- The operation, on a list of items of `w` bytes; `none` where it is not allowed. -/
def onList (w : Nat) : ArrayOp → List Item → Option (List Item × OpResult)
  | push item, items =>
      some (items ++ [(List.range w).map item], ⟨some (items.length + 1), none⟩)
  | pop item, items => removal items.getLast? item items.dropLast
  | remove index item, items =>
      if 0 ≤ index then removal items[index.toNat]? item (items.eraseIdx index.toNat) else none
  | swapAndPop index item, items =>
      if 0 ≤ index then removal items[index.toNat]? item (swapRemove items index.toNat) else none
  | fit, items => if items = [] then none else some (items, ⟨none, none⟩)

/-- The operation takes an item out. -/
def Removes : ArrayOp → Prop
  | push _ => False
  | pop _ => True
  | remove _ _ => True
  | swapAndPop _ _ => True
  | fit => False

/-- The capacity after a removal that leaves `len` items. -/
def shrunkCap (len cap : Nat) : Nat := if len ≤ cap / 2 then len + 1 else cap

/-- The capacity after the operation on an array with `len` items. -/
def newCap (len cap : Nat) : ArrayOp → Nat
  | push _ => if cap < len + 1 then cap * 2 else cap
  | pop _ => shrunkCap (len - 1) cap
  | remove _ _ => shrunkCap (len - 1) cap
  | swapAndPop _ _ => shrunkCap (len - 1) cap
  | fit => len

end ArrayOp

/-- Any number of operations, on the array of the source. -/
def runOps {ω : Type} (alloc : AllocFn ω) (item_size : Int) :
    List ArrayOp → ArrayProc ω (List OpResult)
  | [] => pure []
  | op :: ops => do
    let result ← op.run alloc item_size
    let results ← runOps alloc item_size ops
    return result :: results

/-- Any number of operations, on a list. -/
def listOps (w : Nat) : List ArrayOp → List Item → Option (List Item × List OpResult)
  | [], items => some (items, [])
  | op :: ops, items =>
      match op.onList w items with
      | none => none
      | some (items, result) =>
          (listOps w ops items).map fun (items, results) => (items, result :: results)

/-- The capacity and the size of so many items are in `i32`. -/
def InI32 (w cap : Nat) : Prop := cap < 2 ^ 31 ∧ w * cap < 2 ^ 31

instance (w cap : Nat) : Decidable (InI32 w cap) :=
  inferInstanceAs (Decidable (_ ∧ _))

/-- Every capacity on the way is in `i32`. -/
def StaysInI32 (w : Nat) : List ArrayOp → List Item → Nat → Prop
  | [], _, _ => True
  | op :: ops, items, cap =>
      match op.onList w items with
      | none => True
      | some (items', _) =>
          InI32 w (op.newCap items.length cap) ∧
            StaysInI32 w ops items' (op.newCap items.length cap)

/-! ## Operations without bounds -/

/-- The request for a block with room for `cap` items. -/
def requestFor (w cap : Nat) : MemEvent := .requested (sizeofArrayMeta + w * cap) cap true

/-- Item `k` is copied out. -/
def itemOut (w k : Nat) (item : Bool) : List MemEvent :=
  if item then [.copied .item (.array ((w * k : Nat) : Int)) w] else []

/-- The array is shrunk after a removal that left `len` items. -/
def shrinkEvents (w len cap : Nat) : List MemEvent :=
  if len ≤ cap / 2 then [requestFor w (len + 1)] else []

namespace ArrayOp

/-- The length after the operation.  A smaller block cuts the length off. -/
def newLen (len cap : Nat) : ArrayOp → Nat
  | push item => min len (newCap len cap (push item)) + 1
  | pop _ => len - 1
  | remove _ _ => len - 1
  | swapAndPop _ _ => len - 1
  | fit => len

/-- The items after the operation.  A smaller block cuts them off. -/
def newItems (w : Nat) (items : List Item) (cap : Nat) : ArrayOp → List Item
  | push item =>
      items.take (newCap items.length cap (push item)) ++ [(List.range w).map item]
  | pop _ => items.dropLast
  | remove index _ => items.eraseIdx index.toNat
  | swapAndPop index _ => swapRemove items index.toNat
  | fit => items

/-- What the operation returns, and what it copies to `item`. -/
def result (items : List Item) (cap : Nat) : ArrayOp → OpResult
  | push item => ⟨some (newLen items.length cap (push item)), none⟩
  | pop item => ⟨some (items.length - 1 : Nat), if item then items.getLast? else none⟩
  | remove index item =>
      ⟨some (items.length - 1 : Nat), if item then items[index.toNat]? else none⟩
  | swapAndPop index item =>
      ⟨some (items.length - 1 : Nat), if item then items[index.toNat]? else none⟩
  | fit => ⟨none, none⟩

/-- The assertions of the source hold, and there is a place for what is pushed. -/
def Completes (w len cap : Nat) : ArrayOp → Prop
  | push _ => w = 0 ∨ 0 < cap
  | pop _ => 0 < len
  | remove index _ => 0 ≤ index ∧ index < len
  | swapAndPop index _ => 0 ≤ index ∧ index < len
  | fit => True

/-- What the operation asks of the allocator and of `memcpy`. -/
def events (w len cap : Nat) : ArrayOp → List MemEvent
  | push _ =>
      (if cap < len + 1 then [requestFor w (cap * 2)] else []) ++
        [.copied (.array ((w * len : Nat) : Int)) .item w]
  | pop item => itemOut w (len - 1) item ++ shrinkEvents w (len - 1) cap
  | remove index item =>
      itemOut w index.toNat item ++
        [.copied (.array ((w * index.toNat : Nat) : Int))
          (.array ((w * (index.toNat + 1) : Nat) : Int)) (w * (len - (index.toNat + 1)))] ++
        shrinkEvents w (len - 1) cap
  | swapAndPop index item =>
      if index.toNat + 1 = len then itemOut w (len - 1) item ++ shrinkEvents w (len - 1) cap
      else
        itemOut w index.toNat item ++
          [.copied (.array ((w * index.toNat : Nat) : Int))
            (.array ((w * (len - 1) : Nat) : Int)) w] ++
          shrinkEvents w (len - 1) cap
  | fit => [requestFor w len]

end ArrayOp

/-- What any number of operations ask of the allocator and of `memcpy`. -/
def opsEvents (w : Nat) : List ArrayOp → Nat → Nat → List MemEvent
  | [], _, _ => []
  | op :: ops, len, cap =>
      op.events w len cap ++ opsEvents w ops (op.newLen len cap) (op.newCap len cap)

/-! ## Allowed operations -/

section Allowed

variable {w c : Nat} {items items' : List Item} {result : OpResult}

theorem removal_eq_some {removed : Option Item} {item : Bool} {items'' : List Item}
    (h : ArrayOp.removal removed item items' = some (items'', result)) :
    removed.isSome ∧ items'' = items' ∧
      result = ⟨some items'.length, if item then removed else none⟩ := by
  cases removed with
  | none => cases h
  | some x =>
    cases h
    exact ⟨rfl, rfl, rfl⟩

/-- A removal at an index: the index is one of an item. -/
theorem removalAt_eq_some {index : Int} {item : Bool} {r : Nat → List Item}
    (h : (if 0 ≤ index then ArrayOp.removal items[index.toNat]? item (r index.toNat) else none) =
      some (items', result)) :
    ∃ k : Nat, index = k ∧ k < items.length ∧ items' = r k ∧
      result = ⟨some (r k).length, if item then items[k]? else none⟩ := by
  split at h
  · rename_i hindex
    obtain ⟨k, rfl⟩ := Int.eq_ofNat_of_zero_le hindex
    rw [Int.toNat_natCast] at h
    obtain ⟨hsome, hitems, hresult⟩ := removal_eq_some h
    exact ⟨k, rfl, by simpa using hsome, hitems, hresult⟩
  · cases h

theorem fit_eq_some (h : ArrayOp.fit.onList w items = some (items', result)) :
    items ≠ [] ∧ items' = items ∧ result = ⟨none, none⟩ := by
  by_cases hne : items = []
  · subst hne
    cases h
  · rw [ArrayOp.onList, if_neg hne] at h
    cases h
    exact ⟨hne, rfl, rfl⟩

namespace ArrayOp

/-- An allowed operation on an array that holds the list. -/
theorem follows_onList {op : ArrayOp} (hpos : 0 < c) (hle : items.length ≤ c)
    (hop : op.onList w items = some (items', result)) :
    op.Completes w items.length c ∧ items' = op.newItems w items c ∧
      result = op.result items c := by
  cases op with
  | push item =>
    have hroom : items.length ≤ newCap items.length c (push item) := by
      simp only [newCap]
      split <;> omega
    cases hop
    refine ⟨Or.inr hpos, ?_, ?_⟩
    · rw [newItems, List.take_of_length_le hroom]
    · rw [ArrayOp.result, newLen, Nat.min_eq_left hroom]
      rfl
  | pop item =>
    obtain ⟨hsome, rfl, rfl⟩ := removal_eq_some hop
    refine ⟨List.length_pos_iff.mpr (List.getLast?_isSome.mp hsome), rfl, ?_⟩
    rw [List.length_dropLast]
    rfl
  | remove index item =>
    obtain ⟨k, rfl, hk, rfl, rfl⟩ := removalAt_eq_some (r := items.eraseIdx) hop
    refine ⟨⟨Int.natCast_nonneg k, Int.ofNat_lt.mpr hk⟩, rfl, ?_⟩
    rw [List.length_eraseIdx, if_pos hk]
    rfl
  | swapAndPop index item =>
    obtain ⟨k, rfl, hk, rfl, rfl⟩ := removalAt_eq_some (r := swapRemove items) hop
    refine ⟨⟨Int.natCast_nonneg k, Int.ofNat_lt.mpr hk⟩, rfl, ?_⟩
    rw [length_swapRemove]
    rfl
  | fit =>
    obtain ⟨-, rfl, rfl⟩ := fit_eq_some hop
    exact ⟨trivial, rfl, rfl⟩

/-- The items that are left are as many as the numbers say. -/
theorem length_newItems {op : ArrayOp} (hcompletes : op.Completes w items.length c) :
    (op.newItems w items c).length = op.newLen items.length c := by
  cases op with
  | push item =>
    rw [newItems, List.length_append, List.length_take, List.length_singleton, Nat.min_comm]
    rfl
  | pop item => exact List.length_dropLast
  | remove index item =>
    have hindex : index.toNat < items.length := (Int.toNat_lt hcompletes.1).mpr hcompletes.2
    rw [newItems, List.length_eraseIdx, if_pos hindex]
    rfl
  | swapAndPop index item => exact length_swapRemove items index.toNat
  | fit => rfl

/-- The new capacity has room for the items that are left. -/
theorem room_of_onList {op : ArrayOp} (hpos : 0 < c) (hle : items.length ≤ c)
    (hop : op.onList w items = some (items', result)) :
    0 < op.newCap items.length c ∧ items'.length ≤ op.newCap items.length c := by
  have hshrunk : 0 < shrunkCap (items.length - 1) c ∧
      items.length - 1 ≤ shrunkCap (items.length - 1) c := by
    unfold shrunkCap
    split <;> omega
  obtain ⟨hcompletes, rfl, -⟩ := follows_onList hpos hle hop
  rw [length_newItems hcompletes]
  cases op with
  | push item =>
    simp only [newLen, newCap]
    split <;> omega
  | pop item => exact hshrunk
  | remove index item => exact hshrunk
  | swapAndPop index item => exact hshrunk
  | fit =>
    obtain ⟨hne, -, -⟩ := fit_eq_some hop
    exact ⟨List.length_pos_iff.mpr hne, Nat.le_refl _⟩

/-- The capacity never grows when a removal shrinks the array. -/
theorem shrunkCap_le {len cap : Nat} (h : len < cap) : shrunkCap len cap ≤ cap := by
  unfold shrunkCap
  split <;> omega

/-- A removal never increases the capacity. -/
theorem newCap_le {op : ArrayOp} (hop : op.Removes) (hlt : 0 < items.length)
    (hle : items.length ≤ c) : op.newCap items.length c ≤ c := by
  cases op with
  | push item => cases hop
  | pop item => exact shrunkCap_le (by omega)
  | remove index item => exact shrunkCap_le (by omega)
  | swapAndPop index item => exact shrunkCap_le (by omega)
  | fit => cases hop

/-- An operation that takes an item out needs one. -/
theorem pos_of_removes {op : ArrayOp} (hop : op.Removes)
    (h : op.onList w items = some (items', result)) : 0 < items.length := by
  cases op with
  | push item => cases hop
  | pop item =>
    obtain ⟨hsome, -, -⟩ := removal_eq_some h
    exact List.length_pos_iff.mpr (List.getLast?_isSome.mp hsome)
  | remove index item =>
    obtain ⟨k, -, hk, -⟩ := removalAt_eq_some (r := items.eraseIdx) h
    omega
  | swapAndPop index item =>
    obtain ⟨k, -, hk, -⟩ := removalAt_eq_some (r := swapRemove items) h
    omega
  | fit => cases hop

end ArrayOp

theorem listOps_cons {op : ArrayOp} {ops : List ArrayOp} {results : List OpResult}
    (h : listOps w (op :: ops) items = some (items', results)) :
    ∃ items₁ result results₁, op.onList w items = some (items₁, result) ∧
      listOps w ops items₁ = some (items', results₁) ∧ results = result :: results₁ := by
  unfold listOps at h
  split at h
  · cases h
  · rename_i items₁ result hop
    obtain ⟨⟨items₂, results₂⟩, hrest, heq⟩ := Option.map_eq_some_iff.mp h
    cases heq
    exact ⟨items₁, result, results₂, hop, hrest, rfl⟩

theorem staysInI32_cons {op : ArrayOp} {ops : List ArrayOp}
    (hop : op.onList w items = some (items', result)) :
    StaysInI32 w (op :: ops) items c ↔
      InI32 w (op.newCap items.length c) ∧ StaysInI32 w ops items' (op.newCap items.length c) := by
  rw [StaysInI32, hop]

end Allowed

end NoGround
