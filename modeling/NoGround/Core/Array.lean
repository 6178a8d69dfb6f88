/-
  Core/Array.lean --- the growable arrays of include/core.h.

  MEMORY.  A pointer to an array is the address behind its `ArrayMeta`.  The model holds the
  fields of the meta data and, as a block, the bytes behind it.  `alloc` is called with the
  address of the meta data, so a block that is allocated again keeps both, as far as it
  reaches.  An `AllocFn` is any allocator that does this; what it answers is taken from a
  world `ω`, and it may refuse.  The function pointers in the meta data never change, so they
  are a parameter.

  ITEMS.  `item`, if it is read, is what is stored at that address.  If it is written, it is a
  flag that says that the pointer is not null, and the bytes written are returned.

  ARITHMETIC.  All of it is in `i32`.  Where it can wrap, the conversion is written out; a
  length that is known to be positive is decremented without one.
-/
import NoGround.Core.Types
import NoGround.Lib.Cells
import NoGround.Lib.Proc

set_option autoImplicit false

namespace NoGround

open NoGround.Lib

/-! ## Memory -/

/-- `sizeof(ArrayMeta)`. -/
def sizeofArrayMeta : Nat := 24

/-- An array: `cap` and `len` of its `ArrayMeta`, and the bytes behind it. -/
structure NgArray where
  cap : Int
  len : Int
  items : Block

/-- `AllocFn`: `alloc old n` returns a block of `n` bytes behind the meta data, or null; it
keeps the bytes of the old block.  A null argument is an empty block. -/
structure AllocFn (ω : Type) where
  alloc : Block → Nat → ω → Option Block × ω
  size_eq : ∀ {old n w new}, (alloc old n w).1 = some new → new.size = n
  keeps : ∀ {old n w new}, (alloc old n w).1 = some new →
    ∀ i, i < old.size → i < n → new.byte i = old.byte i

/-- Where `memcpy` copies from or to. -/
inductive Place where
  /-- the item that is handed in or out -/
  | item
  /-- an offset in the array -/
  | array (offset : Int)
  deriving DecidableEq

/-- What the functions do to the memory. -/
inductive MemEvent where
  /-- so many bytes were asked for, for a block with this capacity -/
  | requested (bytes : Nat) (cap : Int) (granted : Bool)
  /-- a call of `memcpy` -/
  | copied (dst src : Place) (n : Nat)
  deriving DecidableEq

/-- The array a pointer leads to, and the world of the allocator. -/
structure ArrayMachine (ω : Type) where
  array : NgArray
  world : ω

/-- A program on an array. -/
abbrev ArrayProc (ω α : Type) : Type := Proc Halt (ArrayMachine ω) MemEvent α

namespace ArrayProc

variable {ω α : Type}

/-- Read the meta data and the items. -/
def array : ArrayProc ω NgArray := Proc.step fun m => (m.array, m)

/-- Write the length. -/
def setLen (len : Int) : ArrayProc ω Unit :=
  Proc.modify fun m => { m with array := { m.array with len := len } }

/-- The bytes of the items, read or changed; outside the block there is no meaning. -/
def onItems (f : Block → Option (α × Block)) : ArrayProc ω α := fun m =>
  match f m.array.items with
  | some (a, items) => ⟨.ok a, { m with array := { m.array with items := items } }, []⟩
  | none => ⟨.error .outOfBounds, m, []⟩

/-- An address in the array. -/
def offset (n : Int) : ArrayProc ω Nat :=
  if n < 0 then Proc.halt .outOfBounds else pure n.toNat

/-- `memcpy` from `item` into the array. -/
def copyIn (dst : Int) (item : Nat → UInt8) (n : Nat) : ArrayProc ω Unit := do
  Proc.emit (.copied (.array dst) .item n)
  let at_dst ← offset dst
  onItems fun items => (items.store at_dst item n).map fun items => ((), items)

/-- `if (item != NULL) memcpy` from the array to `item`: what was copied. -/
def copyOut (item : Bool) (src : Int) (n : Nat) : ArrayProc ω (Option (List UInt8)) :=
  if item then do
    Proc.emit (.copied .item (.array src) n)
    let at_src ← offset src
    let bytes ← onItems fun items => (items.load at_src n).map fun bytes => (bytes, items)
    return some bytes
  else return none

/-- `memcpy` inside the array, taken to copy as `memmove` does. -/
def copyWithin (dst src : Int) (n : Nat) : ArrayProc ω Unit := do
  Proc.emit (.copied (.array dst) (.array src) n)
  let at_dst ← offset dst
  let at_src ← offset src
  onItems fun items => (items.move at_dst at_src n).map fun items => ((), items)

end ArrayProc

/-! ## Allocation (core.h:82-95) -/

section Functions

variable {ω : Type} (alloc : AllocFn ω) (item_size : Int)

/-- `sizeof(ArrayMeta) + item_size * cap`, as a `size_t`. -/
def allocSize (cap : Int) : Nat := toSize (sizeofArrayMeta + toI32 (item_size * cap))

/-- Call `alloc`, and check what it returns.  The meta data is written at once, so the block
has to have room for it. -/
def allocate (old : Block) (cap : Int) : ArrayProc ω Block := do
  let new ← Proc.step fun m : ArrayMachine ω =>
    match alloc.alloc old (allocSize item_size cap - sizeofArrayMeta) m.world with
    | (new, w) => (new, { m with world := w })
  Proc.emit (.requested (allocSize item_size cap) cap new.isSome)
  match new with
  | none => Proc.halt .abort
  | some items =>
      if allocSize item_size cap < sizeofArrayMeta then Proc.halt .outOfBounds
      else return items

/-- `ngArrayAlloc`; the array is what the returned pointer leads to. -/
def ngArrayAlloc (cap : Int) : ArrayProc ω Unit := do
  let items ← allocate alloc item_size ⟨0, fun _ => 0⟩ cap
  Proc.modify fun m => { m with array := ⟨cap, 0, items⟩ }

/-- `ngArrayResize`. -/
def ngArrayResize (cap : Int) : ArrayProc ω Unit := do
  let old ← ArrayProc.array
  let items ← allocate alloc item_size old.items cap
  Proc.modify fun m =>
    { m with array := ⟨cap, if m.array.len ≤ cap then m.array.len else cap, items⟩ }

/-- `ArrayFit`. -/
def arrayFit : ArrayProc ω Unit := do
  let array ← ArrayProc.array
  ngArrayResize alloc item_size array.len

/-! ## Push (core.h:104-114) -/

/-- `ngArrayPush`. -/
def ngArrayPush (item : Nat → UInt8) : ArrayProc ω Int := do
  let array ← ArrayProc.array
  Proc.when (array.cap < toI32 (array.len + 1))
    (ngArrayResize alloc item_size (toI32 (array.cap * 2)))
  let array ← ArrayProc.array
  ArrayProc.copyIn (toI32 (item_size * array.len)) item (toSize item_size)
  ArrayProc.setLen (toI32 (array.len + 1))
  return toI32 (array.len + 1)

/-! ## Removal (core.h:116-171) -/

/-- The array is shrunk to one free slot when half of it or more is free. -/
def shrinkArray : ArrayProc ω Unit := do
  let array ← ArrayProc.array
  Proc.when (array.len ≤ array.cap.tdiv 2) (ngArrayResize alloc item_size (array.len + 1))

/-- `ArrayLen`. -/
def arrayLen : ArrayProc ω Int := do
  let array ← ArrayProc.array
  return array.len

/-- `ngArrayPop`: the returned value, and what was copied to `item`. -/
def ngArrayPop (item : Bool) : ArrayProc ω (Int × Option (List UInt8)) := do
  let array ← ArrayProc.array
  if array.len ≤ 0 then Proc.halt .abort
  else do
    let out ← ArrayProc.copyOut item (toI32 ((array.len - 1) * item_size)) (toSize item_size)
    ArrayProc.setLen (array.len - 1)
    shrinkArray alloc item_size
    let len ← arrayLen
    return (len, out)

/-- `ngArrayRemove`. -/
def ngArrayRemove (index : Int) (item : Bool) : ArrayProc ω (Int × Option (List UInt8)) := do
  let array ← ArrayProc.array
  if ¬ (index < array.len ∧ 0 ≤ index) then Proc.halt .abort
  else do
    let out ← ArrayProc.copyOut item (toI32 (index * item_size)) (toSize item_size)
    let rhsb := array.len - (index + 1)
    ArrayProc.setLen (array.len - 1)
    ArrayProc.copyWithin (toI32 (index * item_size)) (toI32 ((index + 1) * item_size))
      (toSize (toI32 (item_size * rhsb)))
    shrinkArray alloc item_size
    let len ← arrayLen
    return (len, out)

/-- `ngArraySwapAndPop`. -/
def ngArraySwapAndPop (index : Int) (item : Bool) :
    ArrayProc ω (Int × Option (List UInt8)) := do
  let array ← ArrayProc.array
  if ¬ (index < array.len ∧ 0 ≤ index) then Proc.halt .abort
  else if index + 1 = array.len then ngArrayPop alloc item_size item
  else do
    let out ← ArrayProc.copyOut item (toI32 (index * item_size)) (toSize item_size)
    ArrayProc.setLen (array.len - 1)
    ArrayProc.copyWithin (toI32 (index * item_size)) (toI32 ((array.len - 1) * item_size))
      (toSize item_size)
    shrinkArray alloc item_size
    let len ← arrayLen
    return (len, out)

end Functions

end NoGround
