/-
  Core/ArraySpec.lean --- one specification for each function of core.h.

  `Contains w items c` says that an array holds these items of `w` bytes, in a block for `c`.
  Each function is followed on one array value: what it copies and counts is an operation on
  cells, and what is left is the call of `alloc`, which may move the items and may refuse.
  Its specification says what it returns, what the array holds afterwards, and the whole
  trace of requests and copies, with the numbers of Core/ArrayOps.lean (`Leaves`).

  That an array is a list and that its sizes do not wrap are both read off from
  `ArrayOp.run_triple`.
-/
import NoGround.Core.ArrayOps

set_option autoImplicit false

namespace NoGround

open NoGround.Lib

/-! ## The arithmetic -/

section Arithmetic

variable {w n : Nat}

theorem toI32_mul (h : w * n < 2 ^ 31) : toI32 ((w : Int) * n) = ((w * n : Nat) : Int) := by
  rw [← Int.natCast_mul]
  exact toI32_of_lt h

theorem toI32_mul' (h : w * n < 2 ^ 31) : toI32 ((n : Int) * w) = ((w * n : Nat) : Int) := by
  rw [Int.mul_comm]
  exact toI32_mul h

theorem toSize_natCast (h : n < 2 ^ 31) : toSize (n : Int) = n := by
  unfold toSize
  omega

/-- What is computed for a removal at `k` from `n + 1` items, where nothing wraps. -/
structure RemovalNumbers (w n k : Nat) (len : Int) : Prop where
  dst : toI32 ((k : Int) * w) = ((w * k : Nat) : Int)
  src : toI32 (((k : Int) + 1) * w) = ((w * (k + 1) : Nat) : Int)
  last : toI32 ((len - 1) * w) = ((w * n : Nat) : Int)
  behind : toSize (toI32 ((w : Int) * (len - ((k : Int) + 1)))) = w * (n - k)
  item : toSize (w : Int) = w

theorem removalNumbers {k : Nat} {len : Int} (hlen : len = (n + 1 : Nat)) (hk : k ≤ n)
    (h : w * (n + 1) < 2 ^ 31) : RemovalNumbers w n k len := by
  have hlt : ∀ {l : Nat}, l ≤ n + 1 → w * l < 2 ^ 31 := fun hl =>
    Nat.lt_of_le_of_lt (Nat.mul_le_mul_left w hl) h
  have hlast : len - 1 = (n : Int) := by omega
  have hbehind : len - ((k : Int) + 1) = ((n - k : Nat) : Int) := by omega
  refine ⟨toI32_mul' (hlt (by omega)), toI32_mul' (n := k + 1) (hlt (by omega)), ?_, ?_, ?_⟩
  · rw [hlast]
    exact toI32_mul' (hlt (Nat.le_succ n))
  · rw [hbehind, toI32_mul (hlt (by omega)), toSize_natCast (hlt (by omega))]
  · have hitem := hlt (l := 1) (Nat.succ_le_succ (Nat.zero_le n))
    exact toSize_natCast (by omega)

/-- The items behind `k`, and the places they are moved to. -/
theorem span_behind (w : Nat) {k : Nat} (hk : k ≤ n) :
    w * k + w * (n - k) = w * n ∧ w * (k + 1) + w * (n - k) = w * (n + 1) := by
  have hnext : k + 1 + (n - k) = n + 1 := by omega
  rw [← Nat.mul_add, ← Nat.mul_add, Nat.add_sub_cancel' hk, hnext]
  exact ⟨rfl, rfl⟩

theorem allocSize_eq (h : w * n < 2 ^ 31) : allocSize w n = sizeofArrayMeta + w * n := by
  unfold allocSize
  rw [toI32_mul h, ← Int.natCast_add]
  unfold toSize sizeofArrayMeta
  omega

theorem InI32.mul_lt {cap : Nat} (h : InI32 w cap) (hle : n ≤ cap) : w * n < 2 ^ 31 :=
  Nat.lt_of_le_of_lt (Nat.mul_le_mul_left w hle) h.2

end Arithmetic

/-! ## What an array holds -/

/-- The array holds `n` items of `w` bytes, and has a block for `c`.  Only items of no bytes
can be more than that. -/
structure Sized (w n c : Nat) (array : NgArray) : Prop where
  len_eq : array.len = n
  cap_eq : array.cap = c
  size_eq : array.items.size = w * c
  range : InI32 w c
  fits : n ≤ c ∨ (w = 0 ∧ c = 0 ∧ n = 1)

/-- The array holds these items, in a block for `c`. -/
structure Contains (w : Nat) (items : List Item) (c : Nat) (array : NgArray) : Prop
    extends Sized w items.length c array where
  cells_eq : array.items.cells w items.length = items

/-- A granted block has the size that was asked for, and the bytes of the old one. -/
structure Granted (w c : Nat) (old new : Block) : Prop where
  size : new.size = w * c
  keeps : ∀ i, i < old.size → i < w * c → new.byte i = old.byte i

namespace Sized

variable {w n c : Nat} {array : NgArray}

/-- An item lies inside the block. -/
theorem item_le (h : Sized w n c array) {k : Nat} (hk : k ≤ n) : w * k ≤ array.items.size := by
  rw [h.size_eq]
  rcases h.fits with hle | ⟨hw, -, -⟩
  · exact Nat.mul_le_mul_left w (Nat.le_trans hk hle)
  · rw [hw, Nat.zero_mul, Nat.zero_mul]

theorem mul_lt (h : Sized w n c array) {k : Nat} (hk : k ≤ n) : w * k < 2 ^ 31 := by
  have hlt := h.range.2
  rw [← h.size_eq] at hlt
  exact Nat.lt_of_le_of_lt (h.item_le hk) hlt

/-- What fits into the array fits into one that is resized to it. -/
theorem inI32 (h : Sized w n c array) {k : Nat} (hk : k ≤ n) : InI32 w k := by
  have hlt := h.range.1
  refine ⟨?_, h.mul_lt hk⟩
  rcases h.fits with hle | ⟨-, -, hn⟩
  · omega
  · omega

/-- An array of this size holds what is in it. -/
theorem contains (h : Sized w n c array) : Contains w (array.items.cells w n) c array where
  toSized := by
    rw [Block.length_cells]
    exact h
  cells_eq := by rw [Block.length_cells]

/-- A push that finds the block full doubles the capacity. -/
theorem newCap_push (h : Sized w n c array) (item : Nat → UInt8) (hroom : w = 0 ∨ 0 < c) :
    let c' := ArrayOp.newCap n c (.push item)
    w * min n c' = w * n ∧ (min n c' + 1 ≤ c' ∨ (w = 0 ∧ c' = 0 ∧ min n c' + 1 = 1)) := by
  have hfits := h.fits
  simp only [ArrayOp.newCap]
  rcases hroom with rfl | hpos
  · rw [Nat.zero_mul, Nat.zero_mul]
    refine ⟨rfl, ?_⟩
    split <;> omega
  · have hn : n + 1 ≤ if c < n + 1 then c * 2 else c := by
      split <;> omega
    rw [Nat.min_eq_left (Nat.le_of_succ_le hn)]
    exact ⟨rfl, Or.inl hn⟩

end Sized

namespace Contains

variable {w c : Nat} {array : NgArray} {items : List Item}

/-- Every item is where its index says. -/
theorem getElem? (h : Contains w items c array) {k : Nat} (hk : k < items.length) :
    items[k]? = some (array.items.cell w k) := by
  rw [← Block.getElem?_cells hk, h.cells_eq]

/-- A resize cuts the items off at the capacity. -/
theorem resized (h : Contains w items c array) {c' : Nat} {new : Block} (hrange : InI32 w c')
    (hnew : Granted w c' array.items new) :
    Contains w (items.take c') c' ⟨c', if array.len ≤ c' then array.len else c', new⟩ where
  len_eq := by
    have hlen := h.len_eq
    show (if array.len ≤ (c' : Int) then array.len else (c' : Int)) = (items.take c').length
    rw [List.length_take]
    split <;> omega
  cap_eq := rfl
  size_eq := hnew.size
  range := hrange
  fits := by
    rw [List.length_take]
    exact Or.inl (Nat.min_le_left c' items.length)
  cells_eq := by
    have hold := h.item_le (Nat.min_le_right c' items.length)
    have hkept : w * min c' items.length ≤ w * c' :=
      Nat.mul_le_mul_left w (Nat.min_le_left c' items.length)
    rw [List.length_take]
    calc new.cells w (min c' items.length)
        = array.items.cells w (min c' items.length) := Block.cells_congr fun i hi =>
          hnew.keeps i (Nat.lt_of_lt_of_le hi hold) (Nat.lt_of_lt_of_le hi hkept)
      _ = (array.items.cells w items.length).take c' := (Block.take_cells c').symm
      _ = items.take c' := by rw [h.cells_eq]

/-- The array after a removal, before it is shrunk. -/
theorem removed (h : Contains w items c array) (items' : List Item) {bytes : Nat → UInt8}
    (hlen : items'.length + 1 = items.length)
    (hcells : Block.cells ⟨array.items.size, bytes⟩ w items'.length = items') :
    Contains w items' c ⟨array.cap, array.len - 1, ⟨array.items.size, bytes⟩⟩ where
  len_eq := by
    have := h.len_eq
    show array.len - 1 = items'.length
    omega
  cap_eq := h.cap_eq
  size_eq := h.size_eq
  range := h.range
  fits := by
    have := h.fits
    omega
  cells_eq := hcells

/-- The array after a push into a free slot. -/
theorem pushed (h : Contains w items c array) (item : Nat → UInt8)
    (hfits : items.length + 1 ≤ c ∨ (w = 0 ∧ c = 0 ∧ items.length + 1 = 1)) :
    Contains w (items ++ [(List.range w).map item]) c
      ⟨array.cap, (items.length + 1 : Nat), ⟨array.items.size, fun j =>
        if w * items.length ≤ j ∧ j < w * items.length + w then item (j - w * items.length)
        else array.items.byte j⟩⟩ where
  len_eq := by rw [List.length_append, List.length_singleton]
  cap_eq := h.cap_eq
  size_eq := h.size_eq
  range := h.range
  fits := by
    rw [List.length_append, List.length_singleton]
    exact hfits
  cells_eq := by
    rw [List.length_append, List.length_singleton, Block.cells_stored_last, h.cells_eq]

end Contains

/-! ## The primitives -/

/-- This is the whole trace, and the array is one of these. -/
def Traced {ω : Type} (u : List MemEvent) (P : NgArray → Prop) :
    List MemEvent → ArrayMachine ω → Prop :=
  fun t m => t = u ∧ P m.array

/-- This is the whole trace, and the array is this one. -/
def At {ω : Type} (u : List MemEvent) (array : NgArray) :
    List MemEvent → ArrayMachine ω → Prop :=
  Traced u fun a => a = array

/-- A function returned this, did this, and left an array that holds these items. -/
def Leaves {ω α : Type} (value : α) (u : List MemEvent) (w : Nat) (items : List Item) (c : Nat) :
    α → List MemEvent → ArrayMachine ω → Prop :=
  fun r t m => r = value ∧ Traced u (Contains w items c) t m

/-- If the event is a request, it was granted. -/
def MemEvent.IsGranted : MemEvent → Prop
  | .requested _ _ granted => granted = true
  | .copied _ _ _ => True

instance : (e : MemEvent) → Decidable e.IsGranted
  | .requested _ _ granted => inferInstanceAs (Decidable (granted = true))
  | .copied _ _ _ => inferInstanceAs (Decidable True)

/-- Allocation succeeds. -/
def AllGranted (t : List MemEvent) : Prop := ∀ e ∈ t, e.IsGranted

instance (t : List MemEvent) : Decidable (AllGranted t) :=
  inferInstanceAs (Decidable (∀ e ∈ t, e.IsGranted))

/-- A request was refused, and the process stopped. -/
def Refused {ω : Type} : Halt → List MemEvent → ArrayMachine ω → Prop :=
  fun e t _ => e = .abort ∧ ¬ AllGranted t

section Primitives

variable {ω α : Type} {w c : Nat} {u : List MemEvent} {P : NgArray → Prop} {array : NgArray}
  {items : List Item} {Q : α → List MemEvent → ArrayMachine ω → Prop}
  {E : Halt → List MemEvent → ArrayMachine ω → Prop}

/-- To follow a program on every array of a kind. -/
theorem traced_triple {m : ArrayProc ω α}
    (h : ∀ array, P array → Proc.Triple (At u array) m Q E) :
    Proc.Triple (Traced u P) m Q E := by
  rintro t m ⟨rfl, hm⟩
  exact h m.array hm t m ⟨rfl, rfl⟩

/-- To follow a program on every array of a size, follow it whatever the array holds. -/
theorem sized_triple {n : Nat} {m : ArrayProc ω α}
    (h : ∀ items, items.length = n → Proc.Triple (Traced u (Contains w items c)) m Q E) :
    Proc.Triple (Traced u (Sized w n c)) m Q E := by
  rintro t m ⟨ht, hm⟩
  exact h _ Block.length_cells t m ⟨ht, hm.contains⟩

theorem traced_of_at (h : P array) {t : List MemEvent} {m : ArrayMachine ω}
    (hm : At u array t m) : Traced u P t m := by
  obtain ⟨rfl, rfl⟩ := hm
  exact ⟨rfl, h⟩

/-- A program that starts by reading the array. -/
theorem read_at {f : NgArray → ArrayProc ω α} (h : Proc.Triple (At u array) (f array) Q E) :
    Proc.Triple (At u array) (ArrayProc.array >>= f) Q E := by
  refine Proc.Triple.bind_known (Proc.Triple.step ?_) h
  rintro t m ⟨rfl, hm⟩
  exact ⟨hm, rfl, hm⟩

theorem emit_traced (e : MemEvent) :
    Proc.Triple (Traced u P) (Proc.emit e : ArrayProc ω Unit)
      (fun _ => Traced (u ++ [e]) P) E := by
  refine Proc.Triple.emit ?_
  rintro t m ⟨rfl, hm⟩
  exact ⟨rfl, hm⟩

theorem setLen_triple (len : Int) :
    Proc.Triple (At u array) (ArrayProc.setLen len : ArrayProc ω Unit)
      (fun _ => At u { array with len := len }) E := by
  refine Proc.Triple.modify ?_
  rintro t m ⟨rfl, rfl⟩
  exact ⟨rfl, rfl⟩

theorem offset_eq (n : Nat) :
    (ArrayProc.offset (n : Int) : ArrayProc ω Nat) = pure n := by
  unfold ArrayProc.offset
  rw [if_neg (by omega), Int.toNat_natCast]

theorem onItems_triple {f : Block → Option (α × Block)} {a : α} {b : Block}
    (h : f array.items = some (a, b)) :
    Proc.Triple (At u array) (ArrayProc.onItems f : ArrayProc ω α)
      (fun a' t m => a' = a ∧ At u { array with items := b } t m) E := by
  rintro t m ⟨rfl, rfl⟩
  unfold ArrayProc.onItems
  rw [h]
  exact ⟨rfl, List.append_nil t, rfl⟩

theorem copyIn_triple {dst n : Nat} (item : Nat → UInt8) (h : dst + n ≤ array.items.size) :
    Proc.Triple (At u array) (ArrayProc.copyIn dst item n : ArrayProc ω Unit)
      (fun _ => At (u ++ [.copied (.array dst) .item n])
        { array with items := ⟨array.items.size, fun j =>
          if dst ≤ j ∧ j < dst + n then item (j - dst) else array.items.byte j⟩ }) E := by
  unfold ArrayProc.copyIn
  rw [offset_eq]
  refine Proc.Triple.bind (emit_traced _) fun _ => ?_
  refine Proc.Triple.bind_known (Proc.Triple.pure fun _ _ h => ⟨rfl, h⟩) ?_
  refine (onItems_triple (a := ()) ?_).weaken fun _ _ _ h => h.2
  rw [Block.store_of_le item h]
  rfl

theorem copyWithin_triple {dst src n : Nat} (hdst : dst + n ≤ array.items.size)
    (hsrc : src + n ≤ array.items.size) :
    Proc.Triple (At u array) (ArrayProc.copyWithin dst src n : ArrayProc ω Unit)
      (fun _ => At (u ++ [.copied (.array dst) (.array src) n])
        { array with items := ⟨array.items.size, fun j =>
          if dst ≤ j ∧ j < dst + n then array.items.byte (src + (j - dst))
          else array.items.byte j⟩ }) E := by
  unfold ArrayProc.copyWithin
  rw [offset_eq, offset_eq]
  refine Proc.Triple.bind (emit_traced _) fun _ => ?_
  refine Proc.Triple.bind_known (Proc.Triple.pure fun _ _ h => ⟨rfl, h⟩) ?_
  refine Proc.Triple.bind_known (Proc.Triple.pure fun _ _ h => ⟨rfl, h⟩) ?_
  refine (onItems_triple (a := ()) ?_).weaken fun _ _ _ h => h.2
  rw [Block.move_of_le hdst hsrc]
  rfl

/-- Item `k` is copied out as it is. -/
theorem copyOut_triple {k : Nat} (item : Bool) (h : w * k + w ≤ array.items.size) :
    Proc.Triple (At u array)
      (ArrayProc.copyOut item ((w * k : Nat) : Int) w : ArrayProc ω (Option Item))
      (fun out t m => out = (if item then some (array.items.cell w k) else none) ∧
        At (u ++ itemOut w k item) array t m) E := by
  unfold ArrayProc.copyOut itemOut
  cases item with
  | false =>
    refine Proc.Triple.pure fun t m hm => ⟨rfl, ?_⟩
    rw [if_neg Bool.false_ne_true, List.append_nil]
    exact hm
  | true =>
    rw [if_pos rfl, if_pos rfl, if_pos rfl, offset_eq]
    refine Proc.Triple.bind (emit_traced _) fun _ => ?_
    refine Proc.Triple.bind_known (Proc.Triple.pure fun _ _ h => ⟨rfl, h⟩) ?_
    refine Proc.Triple.bind_known (onItems_triple (a := array.items.cell w k)
      (b := array.items) ?_) (Proc.Triple.pure fun _ _ h => ⟨rfl, h⟩)
    rw [Block.load_cell h]
    rfl

end Primitives

/-! ## Allocation -/

section Allocation

variable {ω : Type} (alloc : AllocFn ω) {w c : Nat} {u : List MemEvent} {P : NgArray → Prop}
  {array : NgArray} {items : List Item}

theorem allocate_triple (old : Block) {c' : Nat} (hrange : InI32 w c') :
    Proc.Triple (Traced u P) (allocate alloc w old c')
      (fun new t m => Granted w c' old new ∧ Traced (u ++ [requestFor w c']) P t m) Refused := by
  unfold allocate requestFor
  rw [allocSize_eq hrange.2, Nat.add_sub_cancel_left]
  refine Proc.Triple.bind (Q := fun new t m =>
    (∀ block, new = some block → Granted w c' old block) ∧ Traced u P t m)
    (Proc.Triple.step fun t m hm => ⟨fun block hblock => ?_, hm⟩) fun new => ?_
  · exact ⟨alloc.size_eq hblock, alloc.keeps hblock⟩
  refine Proc.Triple.bind (Q := fun _ t m =>
    (∀ block, new = some block → Granted w c' old block) ∧
      Traced (u ++ [.requested (sizeofArrayMeta + w * c') c' new.isSome]) P t m) ?_ fun _ => ?_
  · refine Proc.Triple.emit ?_
    rintro t m ⟨hnew, rfl, hm⟩
    exact ⟨hnew, rfl, hm⟩
  · cases new with
    | none =>
      refine Proc.Triple.halt ?_
      rintro t m ⟨-, rfl, -⟩
      refine ⟨rfl, fun hall => ?_⟩
      have hgranted : false = true := hall _ (List.mem_append_right _ (List.mem_singleton.mpr rfl))
      cases hgranted
    | some new =>
      simp only
      rw [if_neg (by omega)]
      exact Proc.Triple.pure fun t m h => ⟨h.1 new rfl, h.2⟩

theorem ngArrayAlloc_triple {c' : Nat} (hrange : InI32 w c') :
    Proc.Triple (Traced u P) (ngArrayAlloc alloc w c' : ArrayProc ω Unit)
      (fun _ => Traced (u ++ [requestFor w c']) (Contains w [] c')) Refused := by
  unfold ngArrayAlloc
  refine Proc.Triple.bind (allocate_triple alloc _ hrange) fun new => ?_
  refine Proc.Triple.modify ?_
  rintro t m ⟨hnew, ht, -⟩
  exact ⟨ht, ⟨rfl, rfl, hnew.size, hrange, Or.inl (Nat.zero_le c')⟩, rfl⟩

theorem ngArrayResize_triple (h : Contains w items c array) {c' : Nat} (hrange : InI32 w c') :
    Proc.Triple (At u array) (ngArrayResize alloc w c' : ArrayProc ω Unit)
      (fun _ => Traced (u ++ [requestFor w c']) (Contains w (items.take c') c')) Refused := by
  unfold ngArrayResize
  refine read_at ?_
  refine Proc.Triple.bind (allocate_triple alloc _ hrange) fun new => ?_
  refine Proc.Triple.modify ?_
  rintro t m ⟨hnew, ht, rfl⟩
  exact ⟨ht, h.resized hrange hnew⟩

/-- No item is dropped when a removal shrinks the array. -/
theorem shrinkArray_triple (h : Contains w items c array) (hrange : InI32 w (items.length + 1)) :
    Proc.Triple (At u array) (shrinkArray alloc w : ArrayProc ω Unit)
      (fun _ => Traced (u ++ shrinkEvents w items.length c)
        (Contains w items (ArrayOp.shrunkCap items.length c))) Refused := by
  have hhalf : array.len ≤ array.cap.tdiv 2 ↔ items.length ≤ c / 2 := by
    rw [h.len_eq, h.cap_eq, Int.tdiv_eq_ediv_of_nonneg (Int.natCast_nonneg c)]
    omega
  unfold shrinkArray
  refine read_at ?_
  unfold shrinkEvents ArrayOp.shrunkCap
  refine Proc.Triple.when (fun hle => ?_) fun hnle => ?_
  · rw [if_pos (hhalf.mp hle), if_pos (hhalf.mp hle), h.len_eq]
    have hresize := ngArrayResize_triple alloc (u := u) h hrange
    rwa [List.take_of_length_le (Nat.le_succ items.length)] at hresize
  · rw [if_neg (mt hhalf.mpr hnle), if_neg (mt hhalf.mpr hnle), List.append_nil]
    exact fun t m => traced_of_at h

/-- The end of every removal. -/
theorem removalEnd_triple (h : Contains w items c array) (hrange : InI32 w (items.length + 1))
    (out : Option Item) :
    Proc.Triple (At u array) (shrinkArray alloc w >>= fun _ => arrayLen >>= fun len =>
        pure (len, out) : ArrayProc ω (Int × Option Item))
      (Leaves ((items.length : Int), out) (u ++ shrinkEvents w items.length c) w items
        (ArrayOp.shrunkCap items.length c)) Refused := by
  refine Proc.Triple.bind (shrinkArray_triple alloc h hrange) fun _ => ?_
  refine traced_triple fun array' h' => ?_
  unfold arrayLen
  refine Proc.Triple.bind_known (a := (items.length : Int))
    (I := At (u ++ shrinkEvents w items.length c) array') ?_ ?_
  · exact read_at (Proc.Triple.pure fun _ _ hm => ⟨h'.len_eq, hm⟩)
  · exact Proc.Triple.pure fun _ _ hm => ⟨rfl, traced_of_at h' hm⟩

end Allocation

/-! ## The operations -/

section Operations

variable {ω : Type} (alloc : AllocFn ω) {w c : Nat} {u : List MemEvent} {array : NgArray}
  {items : List Item}

/-- A push first doubles the capacity of a full array. -/
theorem grow_triple (h : Contains w items c array) (item : Nat → UInt8)
    (hsmall : items.length + 1 < 2 ^ 31)
    (hrange : InI32 w (ArrayOp.newCap items.length c (.push item))) :
    Proc.Triple (At u array)
      (Proc.when (array.cap < toI32 (array.len + 1))
        (ngArrayResize alloc w (toI32 (array.cap * 2))) : ArrayProc ω Unit)
      (fun _ => Traced (u ++ if c < items.length + 1 then [requestFor w (c * 2)] else [])
        (Contains w (items.take (ArrayOp.newCap items.length c (.push item)))
          (ArrayOp.newCap items.length c (.push item)))) Refused := by
  have hlen : toI32 (array.len + 1) = ((items.length + 1 : Nat) : Int) := by
    rw [h.len_eq]
    exact toI32_of_lt hsmall
  have hfull : array.cap < toI32 (array.len + 1) ↔ c < items.length + 1 := by
    rw [hlen, h.cap_eq]
    omega
  refine Proc.Triple.when (fun hlt => ?_) fun hge => ?_
  · have hnew : ArrayOp.newCap items.length c (.push item) = c * 2 := if_pos (hfull.mp hlt)
    rw [hnew] at hrange ⊢
    have hdouble : toI32 (array.cap * 2) = ((c * 2 : Nat) : Int) := by
      rw [h.cap_eq]
      exact toI32_of_lt hrange.1
    rw [if_pos (hfull.mp hlt), hdouble]
    exact ngArrayResize_triple alloc h hrange
  · have hroom := mt hfull.mpr hge
    have hnew : ArrayOp.newCap items.length c (.push item) = c := if_neg hroom
    rw [hnew, if_neg hroom, List.append_nil, List.take_of_length_le (by omega)]
    exact fun t m => traced_of_at h

/-- Then it copies the item behind the last one, where there is a place for it. -/
theorem append_triple (h : Contains w items c array) (item : Nat → UInt8)
    (hfits : items.length + 1 ≤ c ∨ (w = 0 ∧ c = 0 ∧ items.length + 1 = 1))
    (hsmall : items.length + 1 < 2 ^ 31) {E : Halt → List MemEvent → ArrayMachine ω → Prop} :
    Proc.Triple (At u array)
      (ArrayProc.copyIn (toI32 ((w : Int) * array.len)) item (toSize w) >>= fun _ =>
        ArrayProc.setLen (toI32 (array.len + 1)) >>= fun _ =>
        pure (toI32 (array.len + 1)) : ArrayProc ω Int)
      (Leaves ((items.length + 1 : Nat) : Int)
        (u ++ [.copied (.array ((w * items.length : Nat) : Int)) .item w]) w
        (items ++ [(List.range w).map item]) c) E := by
  have hend : w * items.length + w ≤ w * c := by
    rcases hfits with hle | ⟨hw, -, -⟩
    · exact Block.cell_end_le w hle
    · rw [hw, Nat.zero_mul, Nat.zero_mul]
  have hlen : toI32 (array.len + 1) = ((items.length + 1 : Nat) : Int) := by
    rw [h.len_eq]
    exact toI32_of_lt hsmall
  have hat : toI32 ((w : Int) * array.len) = ((w * items.length : Nat) : Int) := by
    rw [h.len_eq]
    exact toI32_mul (h.mul_lt (Nat.le_refl _))
  have hw : w < 2 ^ 31 := by
    have hlt := h.range.2
    omega
  rw [hlen, hat, toSize_natCast hw]
  refine Proc.Triple.bind (copyIn_triple item (h.size_eq ▸ hend)) fun _ => ?_
  refine Proc.Triple.bind (setLen_triple _) fun _ => ?_
  exact Proc.Triple.pure fun _ _ hm => ⟨rfl, traced_of_at (h.pushed item hfits) hm⟩

theorem ngArrayPush_triple (h : Contains w items c array) (item : Nat → UInt8)
    (hroom : w = 0 ∨ 0 < c) (hrange : InI32 w (ArrayOp.newCap items.length c (.push item))) :
    Proc.Triple (At u array) (ngArrayPush alloc w item : ArrayProc ω Int)
      (Leaves (ArrayOp.newLen items.length c (.push item) : Int)
        (u ++ ArrayOp.events w items.length c (.push item)) w
        (ArrayOp.newItems w items c (.push item)) (ArrayOp.newCap items.length c (.push item)))
      Refused := by
  obtain ⟨hoffset, hfits⟩ := h.newCap_push item hroom
  have hfits' := h.fits
  have hsmall : items.length + 1 < 2 ^ 31 := by
    have hlt := hrange.1
    simp only [ArrayOp.newCap] at hlt
    split at hlt <;> omega
  have hgrow := grow_triple alloc (u := u) h item hsmall hrange
  simp only [ArrayOp.events, ArrayOp.newLen, ArrayOp.newItems] at hoffset hfits ⊢
  rw [← List.append_assoc, ← hoffset]
  unfold ngArrayPush
  refine read_at (Proc.Triple.bind hgrow fun _ => ?_)
  -- The item has a place now, wherever the block is.
  generalize ArrayOp.newCap items.length c (.push item) = c' at hfits
  have hkept : min items.length c' = (items.take c').length := by
    rw [List.length_take, Nat.min_comm]
  have hkept' : (items.take c').length ≤ items.length := List.length_take_le' c' items
  rw [hkept] at hfits ⊢
  refine traced_triple fun array' h' => read_at ?_
  exact append_triple h' item hfits (Nat.lt_of_le_of_lt (Nat.succ_le_succ hkept') hsmall)

/-- The numbers of a removal at `k` from `n + 1` items. -/
theorem Contains.numbers {n k : Nat} (h : Contains w items c array) (hn : items.length = n + 1)
    (hk : k ≤ n) : RemovalNumbers w n k array.len ∧ InI32 w (n + 1) := by
  have hlen := h.len_eq
  rw [hn] at hlen
  exact ⟨removalNumbers hlen hk (h.mul_lt hn.ge), h.inI32 hn.ge⟩

/-- The item at `k` is copied out. -/
theorem itemOut_triple {k : Nat} (h : Contains w items c array) (hk : k < items.length)
    (item : Bool) {E : Halt → List MemEvent → ArrayMachine ω → Prop} :
    Proc.Triple (At u array)
      (ArrayProc.copyOut item ((w * k : Nat) : Int) w : ArrayProc ω (Option Item))
      (fun out t m => out = (if item then items[k]? else none) ∧
        At (u ++ itemOut w k item) array t m) E := by
  rw [h.getElem? hk]
  exact copyOut_triple item (h.item_le hk)

theorem ngArrayPop_triple {last : Item} (h : Contains w (items ++ [last]) c array)
    (item : Bool) :
    Proc.Triple (At u array) (ngArrayPop alloc w item : ArrayProc ω (Int × Option Item))
      (Leaves ((items.length : Int), if item then some last else none)
        (u ++ (itemOut w items.length item ++ shrinkEvents w items.length c)) w items
        (ArrayOp.shrunkCap items.length c)) Refused := by
  have hn : (items ++ [last]).length = items.length + 1 := List.length_append
  obtain ⟨hnumbers, hrange⟩ := h.numbers hn (Nat.le_refl _)
  have hlen := h.len_eq
  rw [hn] at hlen
  unfold ngArrayPop
  refine read_at ?_
  rw [if_neg (by omega), hnumbers.last, hnumbers.item, ← List.append_assoc]
  refine Proc.Triple.bind_known (itemOut_triple h (by omega) item) ?_
  rw [List.getElem?_concat_length]
  refine Proc.Triple.bind (setLen_triple _) fun _ => ?_
  refine removalEnd_triple alloc (h.removed items hn.symm ?_) hrange _
  have hcells := h.cells_eq
  rw [hn, Block.cells_succ] at hcells
  exact List.append_inj_left' hcells rfl

theorem ngArrayRemove_triple {k : Nat} (h : Contains w items c array) (hk : k < items.length)
    (item : Bool) :
    Proc.Triple (At u array) (ngArrayRemove alloc w k item : ArrayProc ω (Int × Option Item))
      (Leaves (((items.length - 1 : Nat) : Int), if item then items[k]? else none)
        (u ++ ArrayOp.events w items.length c (.remove k item)) w (items.eraseIdx k)
        (ArrayOp.shrunkCap (items.length - 1) c)) Refused := by
  obtain ⟨n, hn⟩ : ∃ n, items.length = n + 1 := ⟨items.length - 1, by omega⟩
  have hkn : k ≤ n := by omega
  have herase : (items.eraseIdx k).length = n := by
    rw [List.length_eraseIdx, if_pos hk, hn]
    rfl
  obtain ⟨hnumbers, hrange⟩ := h.numbers hn hkn
  obtain ⟨hspan, hnext⟩ := span_behind w hkn
  have hlen := h.len_eq
  rw [hn] at hlen
  have hevents : ArrayOp.events w items.length c (.remove k item) = itemOut w k item ++
      [.copied (.array ((w * k : Nat) : Int)) (.array ((w * (k + 1) : Nat) : Int))
        (w * (n - k))] ++ shrinkEvents w n c := by
    rw [hn]
    simp only [ArrayOp.events, Int.toNat_natCast, Nat.add_sub_add_right, Nat.add_sub_cancel]
  unfold ngArrayRemove
  refine read_at ?_
  rw [if_neg (by omega), hnumbers.dst, hnumbers.item, hevents, ← List.append_assoc,
    ← List.append_assoc]
  refine Proc.Triple.bind_known (itemOut_triple h hk item) ?_
  simp only [hnumbers.src, hnumbers.behind]
  refine Proc.Triple.bind (setLen_triple _) fun _ => ?_
  refine Proc.Triple.bind (copyWithin_triple ?_ ?_) fun _ => ?_
  · exact hspan ▸ h.item_le (by omega)
  · exact hnext ▸ h.item_le hn.ge
  · have hremoved := h.removed (items.eraseIdx k) (by rw [herase, hn]) (by
      rw [herase, Block.cells_moved_down (b := array.items) (z := array.items.size) hkn, ← hn,
        h.cells_eq])
    have hdone := removalEnd_triple alloc (u := u ++ itemOut w k item ++ [.copied
      (.array ((w * k : Nat) : Int)) (.array ((w * (k + 1) : Nat) : Int)) (w * (n - k))])
      hremoved (by rwa [herase]) (if item then items[k]? else none)
    rw [herase] at hdone
    rw [hn, Nat.add_sub_cancel]
    exact hdone

theorem ngArraySwapAndPop_triple {k : Nat} (h : Contains w items c array)
    (hk : k < items.length) (item : Bool) :
    Proc.Triple (At u array) (ngArraySwapAndPop alloc w k item : ArrayProc ω (Int × Option Item))
      (Leaves (((items.length - 1 : Nat) : Int), if item then items[k]? else none)
        (u ++ ArrayOp.events w items.length c (.swapAndPop k item)) w (swapRemove items k)
        (ArrayOp.shrunkCap (items.length - 1) c)) Refused := by
  obtain ⟨n, hn⟩ : ∃ n, items.length = n + 1 := ⟨items.length - 1, by omega⟩
  have hlen := h.len_eq
  rw [hn] at hlen
  unfold ngArraySwapAndPop
  simp only [ArrayOp.events, Int.toNat_natCast]
  refine read_at ?_
  rw [if_neg (by omega)]
  refine Proc.Triple.ite (fun hlast => ?_) fun hinner => ?_
  · -- The last item is popped.
    have hkn : k = n := by omega
    obtain rfl | ⟨init, last, rfl⟩ := List.eq_nil_or_concat' items
    · cases hn
    have hinit : init.length = n := by simpa using hn
    have hpop := ngArrayPop_triple alloc (u := u) h item
    rw [hn, Nat.add_sub_cancel, hkn, if_pos rfl, ← hinit, swapRemove_concat,
      List.set_append_right _ _ (Nat.le_refl _), Nat.sub_self, List.set_cons_zero,
      List.dropLast_concat, List.getElem?_concat_length]
    exact hpop
  · -- An inner item is overwritten with the last one.
    have hkn : k < n := by omega
    have hlength : (swapRemove items k).length = n := by
      rw [length_swapRemove, hn]
      rfl
    obtain ⟨hnumbers, hrange⟩ := h.numbers hn (Nat.le_of_lt hkn)
    rw [if_neg (show ¬ k + 1 = items.length by omega), hn, Nat.add_sub_cancel, hnumbers.dst,
      hnumbers.item, ← List.append_assoc, ← List.append_assoc]
    refine Proc.Triple.bind_known (itemOut_triple h hk item) ?_
    rw [hnumbers.last]
    refine Proc.Triple.bind (setLen_triple _) fun _ => ?_
    refine Proc.Triple.bind (copyWithin_triple ?_ ?_) fun _ => ?_
    · exact h.item_le hk
    · exact h.item_le hn.ge
    · have hremoved := h.removed (swapRemove items k) (by rw [hlength, hn]) (by
        rw [hlength, Block.cells_stored_over (b := array.items) (z := array.items.size) hkn,
          ← hn, h.cells_eq])
      have hdone := removalEnd_triple alloc (u := u ++ itemOut w k item ++ [.copied
        (.array ((w * k : Nat) : Int)) (.array ((w * n : Nat) : Int)) w])
        hremoved (by rwa [hlength]) (if item then items[k]? else none)
      rw [hlength] at hdone
      exact hdone

/-- The result of a function that returns the new length. -/
theorem result_triple {m : ArrayProc ω (Int × Option Item)} {len : Int} {out : Option Item}
    {v : List MemEvent} {items' : List Item} {c' : Nat}
    (h : Proc.Triple (At u array) m (Leaves (len, out) v w items' c') Refused) :
    Proc.Triple (At u array) (m >>= fun r => pure ⟨some r.1, r.2⟩)
      (Leaves (⟨some len, out⟩ : OpResult) v w items' c') Refused :=
  Proc.Triple.bind_known h (Proc.Triple.pure fun _ _ h => ⟨rfl, h⟩)

/-- **One operation** that completes does to an array what it does without bounds, if the new
capacity is in `i32`. -/
theorem ArrayOp.run_triple (op : ArrayOp) (hcompletes : op.Completes w items.length c)
    (hrange : InI32 w (op.newCap items.length c)) :
    Proc.Triple (Traced u (Contains w items c)) (op.run alloc w : ArrayProc ω OpResult)
      (Leaves (op.result items c) (u ++ op.events w items.length c) w (op.newItems w items c)
        (op.newCap items.length c)) Refused := by
  refine traced_triple fun array h => ?_
  cases op with
  | push item =>
    refine Proc.Triple.bind_known (ngArrayPush_triple alloc h item hcompletes hrange) ?_
    exact Proc.Triple.pure fun _ _ h => ⟨rfl, h⟩
  | pop item =>
    obtain rfl | ⟨init, last, rfl⟩ := List.eq_nil_or_concat' items
    · cases hcompletes
    · have hpop := result_triple (ngArrayPop_triple alloc (u := u) h item)
      simp only [result, events, newItems, newCap, List.length_append, List.length_singleton,
        Nat.add_sub_cancel, List.getLast?_concat, List.dropLast_concat]
      exact hpop
  | remove index item =>
    obtain ⟨k, rfl⟩ := Int.eq_ofNat_of_zero_le hcompletes.1
    exact result_triple (ngArrayRemove_triple alloc h (Int.ofNat_lt.mp hcompletes.2) item)
  | swapAndPop index item =>
    obtain ⟨k, rfl⟩ := Int.eq_ofNat_of_zero_le hcompletes.1
    exact result_triple (ngArraySwapAndPop_triple alloc h (Int.ofNat_lt.mp hcompletes.2) item)
  | fit =>
    have hresize := ngArrayResize_triple alloc (u := u) h hrange
    rw [newCap, List.take_length] at hresize
    refine Proc.Triple.bind ?_ fun _ => Proc.Triple.pure fun _ _ h => ⟨rfl, h⟩
    unfold arrayFit
    refine read_at ?_
    rw [h.len_eq]
    exact hresize

end Operations

end NoGround
