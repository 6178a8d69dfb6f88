/-
  Js/Layout.lean --- where a definition has its parts.

  A definition over all exported types of cwat.js is a tree; an array or a string is a leaf of
  it, since it is read and written as a whole.  `slots` lists the leaves and where they are,
  `leaves` adds what each of them is given of some data.

  `set` is one call of `set` for each leaf, in order, at these places (`TypeDef.set_eq`), and
  `get` one call of `get` for each (`TypeDef.get_eq`).  The places are laid side by side
  (`Tiles`) and fill the definition.
-/
import NoGround.Js.Arrays

set_option autoImplicit false

namespace NoGround

open NoGround.Lib

/-! ## Definitions -/

mutual

/-- A definition over the exported types. -/
inductive TypeDef where
  | scalar (t : Scalar)
  | str (length : Nat) (decoder : ItemMap)
  | array (type : TypeDef) (length : Nat) (item_map : Option ItemMap)
  | struct (fields : FieldDefs)

/-- The fields of a struct, in the order of `Object.entries`. -/
inductive FieldDefs where
  | nil
  | cons (name : String) (type : TypeDef) (fields : FieldDefs)

end

/-- The object of a definition whose methods are `type`. -/
def TypeDef.object (d : TypeDef) (type : CTypeBase) : TypeObject :=
  match d with
  | .scalar t => .ctypes t
  | _ => .other type

mutual

/-- The object that the constructors make of a definition. -/
def TypeDef.type (host : Host) : TypeDef → CTypeBase
  | .scalar t => t.type host
  | .str length decoder => CTypes.str host length decoder
  | .array d length item_map => CArray host (d.object (d.type host)) length item_map
  | .struct fields => CStruct (fields.types host)

def FieldDefs.types (host : Host) : FieldDefs → List (String × CTypeBase)
  | .nil => []
  | .cons name d fields => (name, d.type host) :: fields.types host

end

mutual

/-- The definition is one over the integer types. -/
def TypeDef.OverIntegers : TypeDef → Prop
  | .scalar t => t ≠ .f32 ∧ t ≠ .f64
  | .str _ _ => False
  | .array _ _ _ => False
  | .struct fields => fields.OverIntegers

def FieldDefs.OverIntegers : FieldDefs → Prop
  | .nil => True
  | .cons _ d fields => d.OverIntegers ∧ fields.OverIntegers

end

/-! ## Leaves -/

/-- A leaf of a definition: its object, and the offset that it is read and written at. -/
structure Slot where
  type : CTypeBase
  offset : Nat

/-- The byte of the buffer is one of the slot, in a view from `ptr` on. -/
def Slot.Covers (s : Slot) (ptr j : Nat) : Prop :=
  ptr + s.offset ≤ j ∧ j < ptr + s.offset + s.type.size

/-- A leaf, and the value it is given. -/
structure Leaf where
  slot : Slot
  value : JsValue

mutual

/-- The leaves of a definition at an offset. -/
def TypeDef.slots (host : Host) : TypeDef → Nat → List Slot
  | .scalar t, off => [⟨t.type host, off⟩]
  | .str length decoder, off => [⟨(TypeDef.str length decoder).type host, off⟩]
  | .array d length item_map, off => [⟨(TypeDef.array d length item_map).type host, off⟩]
  | .struct fields, off => fields.slots host off 0

/-- The leaves of the fields from `bs` bytes into the struct on. -/
def FieldDefs.slots (host : Host) : FieldDefs → Nat → Nat → List Slot
  | .nil, _, _ => []
  | .cons _ d fields, off, bs =>
      d.slots host (bs + off) ++ fields.slots host off (bs + (d.type host).size)

end

mutual

/-- The leaves of a definition at an offset, with their values. -/
def TypeDef.leaves (host : Host) : TypeDef → JsValue → Nat → List Leaf
  | .scalar t, v, off => [⟨⟨t.type host, off⟩, v⟩]
  | .str length decoder, v, off => [⟨⟨(TypeDef.str length decoder).type host, off⟩, v⟩]
  | .array d length item_map, v, off =>
      [⟨⟨(TypeDef.array d length item_map).type host, off⟩, v⟩]
  | .struct fields, v, off => fields.leaves host v off 0

def FieldDefs.leaves (host : Host) : FieldDefs → JsValue → Nat → Nat → List Leaf
  | .nil, _, _, _ => []
  | .cons name d fields, v, off, bs =>
      d.leaves host (v.field name) (bs + off) ++
        fields.leaves host v off (bs + (d.type host).size)

end

mutual

/-- The data supplies a value for each field; one that is not there counts as `undefined`. -/
def TypeDef.Supplied : TypeDef → JsValue → Prop
  | .scalar _, _ => True
  | .str _ _, _ => True
  | .array _ _ _, _ => True
  | .struct fields, v => fields.Supplied v

def FieldDefs.Supplied : FieldDefs → JsValue → Prop
  | .nil, _ => True
  | .cons name d fields, v =>
      (∃ u, v.property name = .ok u) ∧ d.Supplied (v.field name) ∧ fields.Supplied v

end

mutual

/-- The data of the values that the leaves gave, and the values that are left. -/
def TypeDef.assemble : TypeDef → List JsValue → JsValue × List JsValue
  | .scalar _, vs => (vs.headD .undefined, vs.tail)
  | .str _ _, vs => (vs.headD .undefined, vs.tail)
  | .array _ _ _, vs => (vs.headD .undefined, vs.tail)
  | .struct fields, vs =>
      (.object (fields.assemble [] vs).1, (fields.assemble [] vs).2)

def FieldDefs.assemble : FieldDefs → List (String × JsValue) → List JsValue →
    List (String × JsValue) × List JsValue
  | .nil, data, vs => (data, vs)
  | .cons name d fields, data, vs =>
      fields.assemble (JsValue.assign data name (d.assemble vs).1) (d.assemble vs).2

end

/-! ## Reading and writing leaf by leaf -/

/-- Write the leaves, in order. -/
def setLeaves (view : DataView) : List Leaf → Js Unit
  | [] => pure ()
  | leaf :: leaves => do
    leaf.slot.type.set view leaf.value leaf.slot.offset
    setLeaves view leaves

/-- Read the leaves, in order. -/
def getSlots (view : DataView) : List Slot → Js (List JsValue)
  | [] => pure []
  | s :: slots => do
    let v ← s.type.get view s.offset
    let vs ← getSlots view slots
    return v :: vs

theorem setLeaves_append (view : DataView) (leaves leaves' : List Leaf) :
    setLeaves view (leaves ++ leaves') =
      setLeaves view leaves >>= fun _ => setLeaves view leaves' := by
  induction leaves with
  | nil => exact (Proc.pure_bind_eq () fun _ => setLeaves view leaves').symm
  | cons leaf leaves ih =>
    rw [List.cons_append, setLeaves, setLeaves, Proc.bind_assoc_eq, ih]

theorem setLeaves_singleton (view : DataView) (leaf : Leaf) :
    setLeaves view [leaf] = leaf.slot.type.set view leaf.value leaf.slot.offset :=
  Proc.bind_pure_eq _

variable (host : Host)

mutual

/-- `set` writes the leaves at their places. -/
theorem TypeDef.set_eq : ∀ (d : TypeDef) (view : DataView) (v : JsValue) (off : Nat),
    d.Supplied v → (d.type host).set view v off = setLeaves view (d.leaves host v off)
  | .scalar t, view, v, off, _ => by
    rw [TypeDef.leaves, setLeaves_singleton, TypeDef.type]
  | .str length decoder, view, v, off, _ => by
    rw [TypeDef.leaves, setLeaves_singleton]
  | .array d length item_map, view, v, off, _ => by
    rw [TypeDef.leaves, setLeaves_singleton]
  | .struct fields, view, v, off, hv => by
    rw [TypeDef.type, TypeDef.leaves]
    exact fields.setFields_eq view v off 0 hv

theorem FieldDefs.setFields_eq : ∀ (fields : FieldDefs) (view : DataView) (v : JsValue)
    (off bs : Nat), fields.Supplied v →
    setFields view v off (fields.types host) bs = setLeaves view (fields.leaves host v off bs)
  | .nil, _, _, _, _, _ => rfl
  | .cons name d fields, view, v, off, bs, ⟨⟨u, hu⟩, hd, hfields⟩ => by
    have hfield : v.field name = u.orZero := by rw [JsValue.field, hu]
    have hfirst := d.set_eq view (v.field name) (bs + off) hd
    have hrest := fields.setFields_eq view v off (bs + (d.type host).size) hfields
    rw [FieldDefs.types, setFields, hu, Proc.ofExcept_ok, Proc.pure_bind_eq, ← hfield, hfirst,
      hrest, FieldDefs.leaves, setLeaves_append]

end

/-- A leaf is read, and then other leaves. -/
theorem getSlots_cons (view : DataView) (s : Slot) (slots : List Slot) {α : Type}
    (f : List JsValue → α) :
    (getSlots view (s :: slots) >>= fun vs => pure (f vs) : Js α) =
      s.type.get view s.offset >>= fun v =>
        getSlots view slots >>= fun vs => pure (f (v :: vs)) := by
  rw [getSlots, Proc.bind_assoc_eq]
  refine congrArg _ (funext fun v => ?_)
  rw [Proc.bind_assoc_eq]
  exact congrArg _ (funext fun vs => Proc.pure_bind_eq _ _)

mutual

/-- `get` reads the leaves at their places, and takes the values of its own from the front. -/
theorem TypeDef.get_slots : ∀ (d : TypeDef) (view : DataView) (off : Nat) (slots : List Slot),
    ((d.type host).get view off >>= fun v => getSlots view slots >>= fun vs => pure (v, vs)) =
      getSlots view (d.slots host off ++ slots) >>= fun vs => pure (d.assemble vs)
  | .scalar t, view, off, slots => by
    rw [TypeDef.slots, List.singleton_append, getSlots_cons]
    rfl
  | .str length decoder, view, off, slots => by
    rw [TypeDef.slots, List.singleton_append, getSlots_cons]
    rfl
  | .array d length item_map, view, off, slots => by
    rw [TypeDef.slots, List.singleton_append, getSlots_cons]
    rfl
  | .struct fields, view, off, slots => by
    have hfields := congrArg (· >>= fun p => (pure (JsValue.object p.1, p.2) : Js _))
      (fields.getFields_slots view off 0 [] slots)
    simp only [Proc.bind_assoc_eq, Proc.pure_bind_eq] at hfields
    rw [TypeDef.type, TypeDef.slots]
    simp only [CStruct, Proc.bind_assoc_eq, Proc.pure_bind_eq]
    exact hfields

theorem FieldDefs.getFields_slots : ∀ (fields : FieldDefs) (view : DataView) (off bs : Nat)
    (data : List (String × JsValue)) (slots : List Slot),
    (getFields view off (fields.types host) bs data >>= fun data =>
        getSlots view slots >>= fun vs => pure (data, vs)) =
      getSlots view (fields.slots host off bs ++ slots) >>= fun vs =>
        pure (fields.assemble data vs)
  | .nil, view, off, bs, data, slots => by
    rw [FieldDefs.types, getFields, Proc.pure_bind_eq]
    rfl
  | .cons name d fields, view, off, bs, data, slots => by
    have hfirst := congrArg
      (· >>= fun p => (pure (fields.assemble (JsValue.assign data name p.1) p.2) : Js _))
      (d.get_slots view (bs + off) (fields.slots host off (bs + (d.type host).size) ++ slots))
    have hrest := fun value => fields.getFields_slots view off (bs + (d.type host).size)
      (JsValue.assign data name value) slots
    simp only [Proc.bind_assoc_eq, Proc.pure_bind_eq] at hfirst
    rw [FieldDefs.types, getFields, FieldDefs.slots, List.append_assoc]
    simp only [Proc.bind_assoc_eq, hrest]
    exact hfirst

end

/-- `get` reads the leaves at their places, and makes the data of what they give. -/
theorem TypeDef.get_eq (d : TypeDef) (view : DataView) (off : Nat) :
    (d.type host).get view off =
      getSlots view (d.slots host off) >>= fun vs => pure (d.assemble vs).1 := by
  have hget := congrArg (· >>= fun p => (pure p.1 : Js JsValue)) (d.get_slots host view off [])
  simp only [getSlots, Proc.bind_assoc_eq, Proc.pure_bind_eq, List.append_nil] at hget
  rw [← hget]
  exact (Proc.bind_pure_eq _).symm

mutual

/-- The leaves that are written are those of the definition. -/
theorem TypeDef.slot_leaves : ∀ (d : TypeDef) (v : JsValue) (off : Nat),
    (d.leaves host v off).map Leaf.slot = d.slots host off
  | .scalar _, _, _ => rfl
  | .str _ _, _, _ => rfl
  | .array _ _ _, _, _ => rfl
  | .struct fields, v, off => fields.slot_leaves v off 0

theorem FieldDefs.slot_leaves : ∀ (fields : FieldDefs) (v : JsValue) (off bs : Nat),
    (fields.leaves host v off bs).map Leaf.slot = fields.slots host off bs
  | .nil, _, _, _ => rfl
  | .cons name d fields, v, off, bs => by
    rw [FieldDefs.leaves, List.map_append, d.slot_leaves, fields.slot_leaves, FieldDefs.slots]

end

/-! ## Side by side -/

/-- The slots are laid side by side from `lo` to `hi`. -/
def Tiles : Nat → Nat → List Slot → Prop
  | lo, hi, [] => lo = hi
  | lo, hi, s :: slots => s.offset = lo ∧ Tiles (lo + s.type.size) hi slots

section Tiles

variable {lo mid hi : Nat} {slots slots' : List Slot}

theorem Tiles.append (h : Tiles lo mid slots) (h' : Tiles mid hi slots') :
    Tiles lo hi (slots ++ slots') := by
  induction slots generalizing lo with
  | nil =>
    obtain rfl : lo = mid := h
    exact h'
  | cons s slots ih => exact ⟨h.1, ih h.2⟩

theorem Tiles.le (h : Tiles lo hi slots) : lo ≤ hi := by
  induction slots generalizing lo with
  | nil => exact Nat.le_of_eq h
  | cons s slots ih => exact Nat.le_trans (Nat.le_add_right lo _) (ih h.2)

/-- Every slot lies in the range. -/
theorem Tiles.within (h : Tiles lo hi slots) {s : Slot} (hs : s ∈ slots) :
    lo ≤ s.offset ∧ s.offset + s.type.size ≤ hi := by
  induction slots generalizing lo with
  | nil => cases hs
  | cons s' slots ih =>
    rcases List.mem_cons.mp hs with rfl | hs
    · have hle := h.2.le
      rw [h.1]
      exact ⟨Nat.le_refl lo, hle⟩
    · obtain ⟨hlo, hhi⟩ := ih h.2 hs
      exact ⟨Nat.le_trans (Nat.le_add_right lo _) hlo, hhi⟩

/-- No slot begins before those in front of it end. -/
theorem Tiles.pairwise (h : Tiles lo hi slots) :
    slots.Pairwise fun s s' => s.offset + s.type.size ≤ s'.offset := by
  induction slots generalizing lo with
  | nil => exact List.Pairwise.nil
  | cons s slots ih =>
    refine List.Pairwise.cons (fun s' hs' => ?_) (ih h.2)
    rw [h.1]
    exact (h.2.within hs').1

/-- Every byte of the range is one of a slot. -/
theorem Tiles.covers (h : Tiles lo hi slots) (ptr j : Nat) :
    (∃ s ∈ slots, s.Covers ptr j) ↔ ptr + lo ≤ j ∧ j < ptr + hi := by
  induction slots generalizing lo with
  | nil =>
    obtain rfl : lo = hi := h
    constructor
    · rintro ⟨s, hs, -⟩
      cases hs
    · omega
  | cons s slots ih =>
    obtain ⟨hoffset, htail⟩ := h
    have hle := htail.le
    rw [List.exists_mem_cons_iff, ih htail, Slot.Covers, hoffset]
    omega

end Tiles

mutual

/-- The slots of a definition fill it. -/
theorem TypeDef.tiles : ∀ (d : TypeDef) (off : Nat),
    Tiles off (off + (d.type host).size) (d.slots host off)
  | .scalar _, _ => ⟨rfl, rfl⟩
  | .str _ _, _ => ⟨rfl, rfl⟩
  | .array _ _ _, _ => ⟨rfl, rfl⟩
  | .struct fields, off => by
    have hfields := fields.tiles off 0
    rw [Nat.zero_add] at hfields
    exact hfields

theorem FieldDefs.tiles : ∀ (fields : FieldDefs) (off bs : Nat),
    Tiles (bs + off) (bs + off + structd_size (fields.types host)) (fields.slots host off bs)
  | .nil, _, _ => rfl
  | .cons name d fields, off, bs => by
    have hrest := fields.tiles off (bs + (d.type host).size)
    rw [FieldDefs.types, structd_size_cons, FieldDefs.slots]
    refine (d.tiles (bs + off)).append ?_
    rw [show bs + (d.type host).size + off = bs + off + (d.type host).size by omega] at hrest
    rw [← Nat.add_assoc]
    exact hrest

end

end NoGround
