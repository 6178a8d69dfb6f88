/-
  Hash/Hashmap.lean --- the functions of hashmap.c.

  A map is a block of buckets, a power of two of them, and an item is looked for from the
  bucket of its hash on.  The block is a function of the index with its size in bytes; a bucket
  that is not all inside has no value (`bucket_at`), and a function that reads one has no
  result.  Neither has one whose `while(1)` goes round the whole block.

  What the caller gave to `hashmap_new` is an `ItemType`: the hash at the map's seeds, the
  comparison with its `udata`, and whether items have to be freed.  What `malloc` answers is
  an argument of the functions that call it.  The hash of a bucket has 48 bits and `dib` has
  16.  A factor between 0 and 1 is a percentage; below `2 ^ 50` buckets the `double` that the
  source multiplies with comes to the same bounds.

  Sizes are `size_t`, and where the source multiplies or adds them unchecked the result wraps:
  the doubling of `ncap` may then never end, and a block may be smaller than its buckets.
-/
import Mathlib.Algebra.Ring.Nat
import Mathlib.Logic.Function.Basic
import NoGround.Core.Types

set_option autoImplicit false

namespace NoGround

open Function (update)

/-! ## The map (hashmap.c:31-61, 93-99) -/

/-- What is known about the items of a map. -/
structure ItemType (α : Type) where
  hash : α → Nat
  compare : Option (α → α → Int)
  /-- whether `elfree` was given -/
  elfree : Bool
  /-- the item of zero bytes -/
  zero : α

structure Bucket (α : Type) where
  hash : Nat
  dib : Nat
  item : α

structure Hashmap (α : Type) where
  elsize : Nat
  cap : Nat
  bucketsz : Nat
  nbuckets : Nat
  count : Nat
  mask : Nat
  growat : Nat
  shrinkat : Nat
  loadfactor : Nat
  growpower : Nat
  oom : Bool
  buckets : Nat → Bucket α
  /-- the bytes of the block of buckets -/
  size : Nat

variable {α : Type}

/-- How many buckets are inside the block. -/
def Hashmap.room (map : Hashmap α) : Nat := map.size / map.bucketsz

theorem Hashmap.room_withOom (map : Hashmap α) (oom : Bool) :
    Hashmap.room { map with oom := oom } = map.room := rfl

/-- `sizeof(struct hashmap)` -/
def hashmapSize : Nat := 168

/-- `sizeof(struct bucket)` -/
def bucketHeaderSize : Nat := 8

def dibSize : Nat := 2 ^ 16

/-- The hash and the item of a bucket. -/
def Bucket.entry (bucket : Bucket α) : Nat × α := (bucket.hash, bucket.item)

/-- Equal hashes, and equal items if there is a way to compare them. -/
def ItemType.same (T : ItemType α) (a b : Nat × α) : Bool :=
  a.1 == b.1 && match T.compare with
    | none => true
    | some compare => compare a.2 b.2 == 0

def clip_hash (hash : Nat) : Nat := hash &&& 0xFFFFFFFFFFFF

def get_hash (T : ItemType α) (key : α) : Nat := clip_hash (T.hash key)

/-- The bucket at an index of a block of `room` buckets. -/
def bucket_at (room : Nat) (buckets : Nat → Bucket α) (index : Nat) : Option (Bucket α) :=
  if index < room then some (buckets index) else none

/-! ## Making a map (hashmap.c:63-78, 104-163) -/

/-- `while (ncap < cap)`, begun at 16.  After 60 rounds `ncap` is 0 and stays so: with 64 rounds
to go, a loop that does not end in them never does. -/
def doubleUpTo (cap : Nat) : Nat → Nat → Option Nat
  | 0, _ => none
  | fuel + 1, ncap =>
      if ncap < cap then doubleUpTo cap fuel (toSize (ncap * 2 : Nat)) else some ncap

/-- The number of buckets that a new map begins with. -/
def newCap (cap : Nat) : Option Nat := if cap < 16 then some 16 else doubleUpTo cap 64 16

/-- `while (bucketsz & (sizeof(uintptr_t)-1))`; seven rounds are enough. -/
def roundUp : Nat → Nat → Nat
  | 0, bucketsz => bucketsz
  | fuel + 1, bucketsz =>
      if bucketsz &&& 7 = 0 then bucketsz else roundUp fuel (toSize (bucketsz + 1 : Nat))

/-- `bucketsz` for items of `elsize` bytes. -/
def bucketSize (elsize : Nat) : Nat := roundUp 7 (toSize (bucketHeaderSize + elsize : Nat))

def hashmap_set_grow_by_power (map : Hashmap α) (power : Nat) : Hashmap α :=
  { map with growpower := if power < 1 then 1 else if 16 < power then 16 else power }

def clamp_load_factor (percent : Nat) : Nat :=
  if percent < 50 then 50 else if 95 < percent then 95 else percent

def hashmap_set_load_factor (map : Hashmap α) (percent : Nat) : Hashmap α :=
  { map with loadfactor := clamp_load_factor percent,
             growat := map.nbuckets * clamp_load_factor percent / 100 }

/-- A map, or none for `NULL`.  `malloc` answers with the block of the map for `granted.1` and
with the buckets for `granted.2`.  Where the size of the first block wraps, `spare` and `edata`
are outside it, and no result stands for what follows. -/
def hashmap_new_with_allocator (T : ItemType α) (elsize cap : Nat) (granted : Bool × Bool) :
    Option (Option (Hashmap α)) := do
  let cap ← newCap cap
  let bucketsz := bucketSize elsize
  let size := toSize (hashmapSize + bucketsz * 2 : Nat)
  if !granted.1 then
    return none
  else if size < hashmapSize + bucketsz * 2 then
    none
  else if !granted.2 then
    return none
  else
    return some {
      elsize := elsize
      cap := cap
      bucketsz := bucketsz
      nbuckets := cap
      count := 0
      mask := cap - 1
      growat := cap * clamp_load_factor 60 / 100
      shrinkat := cap * 10 / 100
      loadfactor := clamp_load_factor 60
      growpower := 1
      oom := false
      buckets := fun _ => ⟨0, 0, T.zero⟩
      size := toSize (bucketsz * cap : Nat) }

/-! ## Putting an item in (hashmap.c:226-322) -/

/-- The loop of `hashmap_set_with_hash` from bucket `i` on, with `entry` in hand: the buckets
afterwards and the item that was replaced.  The loop of `resize0` is the same one where
nothing is the `same`. -/
def insertLoop (same : Nat × α → Nat × α → Bool) (room mask : Nat) :
    Nat → (Nat → Bucket α) → Bucket α → Nat → Option ((Nat → Bucket α) × Option α)
  | 0, _, _, _ => none
  | fuel + 1, buckets, entry, i => do
      let bucket ← bucket_at room buckets i
      if bucket.dib = 0 then
        return (update buckets i entry, none)
      else if same entry.entry bucket.entry then
        return (update buckets i { bucket with item := entry.item }, some bucket.item)
      else
        let i' := (i + 1) &&& mask
        if bucket.dib < entry.dib then
          insertLoop same room mask fuel (update buckets i entry)
            { bucket with dib := (bucket.dib + 1) % dibSize } i'
        else
          insertLoop same room mask fuel buckets
            { entry with dib := (entry.dib + 1) % dibSize } i'

/-- One round of `resize0`: bucket `i` of the old map goes to the buckets of the new one. -/
def moveBucket (map map2 : Hashmap α) (buckets : Nat → Bucket α) (i : Nat) :
    Option (Nat → Bucket α) := do
  let entry ← bucket_at map.room map.buckets i
  if entry.dib = 0 then
    return buckets
  else
    let (buckets, _) ← insertLoop (fun _ _ => false) map2.room map2.mask map2.nbuckets buckets
      { entry with dib := 1 } (entry.hash &&& map2.mask)
    return buckets

/-- The map after `resize0`, and what it returned. -/
def resize0 (T : ItemType α) (map : Hashmap α) (new_cap : Nat) (granted : Bool × Bool) :
    Option (Hashmap α × Bool) := do
  match ← hashmap_new_with_allocator T map.elsize new_cap granted with
  | none => return (map, false)
  | some map2 =>
      let buckets ← (List.range map.nbuckets).foldlM (moveBucket map map2) map2.buckets
      -- the load factor and the grow power stay, but `growat` is that of a new map
      return ({ map with buckets := buckets, size := map2.size, nbuckets := map2.nbuckets,
                         mask := map2.mask, growat := map2.growat,
                         shrinkat := map2.shrinkat }, true)

/-- `resize` where the map is full enough: the map, and whether the insertion goes on. -/
def growIfFull (T : ItemType α) (map : Hashmap α) (granted : Bool × Bool) :
    Option (Hashmap α × Bool) :=
  if map.growat ≤ map.count then
    resize0 T map (toSize (map.nbuckets * 2 ^ map.growpower : Nat)) granted
  else some (map, true)

/-- The map after `hashmap_set_with_hash`, and the item it replaced. -/
def hashmap_set_with_hash (T : ItemType α) (map : Hashmap α) (item : α) (hash : Nat)
    (granted : Bool × Bool) : Option (Hashmap α × Option α) := do
  let (map, grown) ← growIfFull T { map with oom := false } granted
  if grown then
    let entry := { hash := clip_hash hash, dib := 1, item := item }
    let (buckets, replaced) ← insertLoop T.same map.room map.mask map.nbuckets map.buckets
      entry (entry.hash &&& map.mask)
    match replaced with
    | none => return ({ map with buckets := buckets, count := map.count + 1 }, none)
    | some old => return ({ map with buckets := buckets }, some old)
  else
    return ({ map with oom := true }, none)

def hashmap_set (T : ItemType α) (map : Hashmap α) (item : α) (granted : Bool × Bool) :
    Option (Hashmap α × Option α) :=
  hashmap_set_with_hash T map item (get_hash T item) granted

/-! ## Looking for an item (hashmap.c:327-361) -/

/-- The loop of `hashmap_get_with_hash` and of `hashmap_delete_with_hash` from bucket `i` on:
the index of the bucket that has the key. -/
def findLoop (T : ItemType α) (room mask : Nat) (buckets : Nat → Bucket α) (key : Nat × α) :
    Nat → Nat → Option (Option Nat)
  | 0, _ => none
  | fuel + 1, i => do
      let bucket ← bucket_at room buckets i
      if bucket.dib = 0 then return none
      else if T.same key bucket.entry then return some i
      else findLoop T room mask buckets key fuel ((i + 1) &&& mask)

def hashmap_get_with_hash (T : ItemType α) (map : Hashmap α) (key : α) (hash : Nat) :
    Option (Option α) := do
  let hash := clip_hash hash
  match ← findLoop T map.room map.mask map.buckets (hash, key) map.nbuckets
      (hash &&& map.mask) with
  | none => return none
  | some i => return some (map.buckets i).item

def hashmap_get (T : ItemType α) (map : Hashmap α) (key : α) : Option (Option α) :=
  hashmap_get_with_hash T map key (get_hash T key)

def hashmap_probe (map : Hashmap α) (position : Nat) : Option (Option α) := do
  let bucket ← bucket_at map.room map.buckets (position &&& map.mask)
  return if bucket.dib = 0 then none else some bucket.item

/-! ## Taking an item out (hashmap.c:366-411) -/

/-- The inner loop of `hashmap_delete_with_hash`, with `prev` the bucket to be filled. -/
def shiftLoop (room mask : Nat) : Nat → (Nat → Bucket α) → Nat → Option (Nat → Bucket α)
  | 0, _, _ => none
  | fuel + 1, buckets, prev => do
      let i := (prev + 1) &&& mask
      let bucket ← bucket_at room buckets i
      if bucket.dib ≤ 1 then
        return update buckets prev { buckets prev with dib := 0 }
      else
        shiftLoop room mask fuel (update buckets prev { bucket with dib := bucket.dib - 1 }) i

/-- `resize` where the map is empty enough; whether it was granted is ignored. -/
def shrinkIfSparse (T : ItemType α) (map : Hashmap α) (granted : Bool × Bool) :
    Option (Hashmap α) :=
  if map.cap < map.nbuckets ∧ map.count ≤ map.shrinkat then do
    let (map, _) ← resize0 T map (map.nbuckets / 2) granted
    return map
  else some map

/-- The map after `hashmap_delete_with_hash`, and the item that was in it. -/
def hashmap_delete_with_hash (T : ItemType α) (map : Hashmap α) (key : α) (hash : Nat)
    (granted : Bool × Bool) : Option (Hashmap α × Option α) := do
  let hash := clip_hash hash
  let map := { map with oom := false }
  match ← findLoop T map.room map.mask map.buckets (hash, key) map.nbuckets
      (hash &&& map.mask) with
  | none => return (map, none)
  | some i =>
      let bucket := map.buckets i
      let buckets ← shiftLoop map.room map.mask map.nbuckets
        (update map.buckets i { bucket with dib := 0 }) i
      let map ← shrinkIfSparse T { map with buckets := buckets, count := map.count - 1 } granted
      return (map, some bucket.item)

def hashmap_delete (T : ItemType α) (map : Hashmap α) (key : α) (granted : Bool × Bool) :
    Option (Hashmap α × Option α) :=
  hashmap_delete_with_hash T map key (get_hash T key) granted

/-! ## All items (hashmap.c:192-222, 414-477) -/

/-- The items that are given to `elfree`, in this order. -/
def free_elements (T : ItemType α) (map : Hashmap α) : Option (List α) :=
  if T.elfree then
    (List.range map.nbuckets).foldlM (fun freed i => do
      let bucket ← bucket_at map.room map.buckets i
      return if bucket.dib = 0 then freed else freed ++ [bucket.item]) []
  else some []

/-- The block and the sizes that `hashmap_clear` goes on with.  What a new block holds does not
matter, since it is zeroed before it is read. -/
def clearTo (map : Hashmap α) (update_cap granted : Bool) : Hashmap α :=
  if update_cap then { map with cap := map.nbuckets }
  else if map.nbuckets ≠ map.cap then
    if granted then
      { map with size := toSize (map.bucketsz * map.cap : Nat), nbuckets := map.cap }
    else { map with nbuckets := map.cap }
  else map

/-- The map after `hashmap_clear`, and the items that were freed.  `malloc` answers for
`granted`. -/
def hashmap_clear (T : ItemType α) (map : Hashmap α) (update_cap granted : Bool) :
    Option (Hashmap α × List α) := do
  let freed ← free_elements T map
  let map := clearTo { map with count := 0 } update_cap granted
  let zeroed := toSize (map.bucketsz * map.nbuckets : Nat)
  if zeroed ≤ map.size then
    return ({ map with
      buckets := fun p => if map.bucketsz * p < zeroed then ⟨0, 0, T.zero⟩ else map.buckets p
      mask := map.nbuckets - 1
      growat := map.nbuckets * map.loadfactor / 100
      shrinkat := map.nbuckets * 10 / 100 }, freed)
  else none

/-- The items that `hashmap_free` gives to `elfree`. -/
def hashmap_free (T : ItemType α) (map : Hashmap α) : Option (List α) := free_elements T map

def hashmap_count (map : Hashmap α) : Nat := map.count

def hashmap_oom (map : Hashmap α) : Bool := map.oom

/-- `hashmap_scan` from bucket `i` on, with so many buckets left; `iter` has a state. -/
def scanFrom {σ : Type} (map : Hashmap α) (iter : α → σ → Bool × σ) :
    Nat → Nat → σ → Option (Bool × σ)
  | 0, _, udata => some (true, udata)
  | left + 1, i, udata => do
      let bucket ← bucket_at map.room map.buckets i
      if bucket.dib = 0 then scanFrom map iter left (i + 1) udata
      else
        let (goesOn, udata) := iter bucket.item udata
        if goesOn then scanFrom map iter left (i + 1) udata else return (false, udata)

def hashmap_scan {σ : Type} (map : Hashmap α) (iter : α → σ → Bool × σ) (udata : σ) :
    Option (Bool × σ) :=
  scanFrom map iter map.nbuckets 0 udata

/-- The loop of `hashmap_iter`; `left` of more than the buckets that are left is enough. -/
def iterLoop (map : Hashmap α) : Nat → Nat → Option (Option (α × Nat))
  | 0, _ => none
  | left + 1, i =>
      if map.nbuckets ≤ i then some none
      else do
        let bucket ← bucket_at map.room map.buckets i
        if bucket.dib = 0 then iterLoop map left (i + 1) else return some (bucket.item, i + 1)

/-- The item that `hashmap_iter` retrieves with the cursor `i`, and the cursor behind it. -/
def hashmap_iter (map : Hashmap α) (i : Nat) : Option (Option (α × Nat)) :=
  iterLoop map (map.nbuckets + 1) i

/-- `while (hashmap_iter(map, &i, &item))`: the items it is gone through with. -/
def iterAll (map : Hashmap α) : Nat → Nat → Option (List α)
  | 0, _ => none
  | fuel + 1, i => do
      match ← hashmap_iter map i with
      | none => return []
      | some (item, i) => return item :: (← iterAll map fuel i)

end NoGround
