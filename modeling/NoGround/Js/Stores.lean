/-
  Js/Stores.lean --- where a definition is written and read, and what `set` leaves alone.

  A leaf is one write at its own place or a throw, and one read of its own place; which of
  them, and which bytes, does not depend on the rest of the buffer.  So `set` is a program that
  only writes (`Stores`) in the range of its definition, whatever the data is and however it
  ends, and the logic of such programs says what it leaves alone.
-/
import NoGround.Js.Layout
import NoGround.Js.RoundTrip
import NoGround.Lib.Writes

set_option autoImplicit false

namespace NoGround

open NoGround.Lib

/-! ## Scalars -/

section Scalars

variable (host : Host) (view : DataView) (off : Nat)

theorem setViewValue_puts (type : ElementType) (v : JsValue) (littleEndian : Bool) :
    Puts (view.byteOffset + off) type.size (setViewValue type view off v littleEndian) := by
  unfold setViewValue
  refine Puts.ofExcept_bind fun n => Puts.ite (Puts.halt _) (Puts.write ?_)
  cases littleEndian with
  | true => exact length_bytesLE _ _
  | false => exact length_bytesBE _ _

theorem setFloat_puts (size : Nat) (v : JsValue) (littleEndian : Bool) :
    Puts (view.byteOffset + off) size (host.setFloat size view off v littleEndian) := by
  unfold Host.setFloat
  exact Puts.ofExcept_bind fun n =>
    Puts.ite (Puts.halt _) (Puts.write (host.length_floatBytes _ _))

theorem getViewValue_takes (type : ElementType) (littleEndian : Bool) :
    Takes (view.byteOffset + off) type.size (getViewValue type view off littleEndian) :=
  Takes.ite (Takes.halt _) (Takes.slice fun bytes =>
    JsValue.number (type.value (if littleEndian then natLE bytes else natBE bytes)))

theorem getFloat_takes (size : Nat) (littleEndian : Bool) :
    Takes (view.byteOffset + off) size (host.getFloat size view off littleEndian) :=
  Takes.ite (Takes.halt _) (Takes.slice fun bytes =>
    host.floatValue (if littleEndian then bytes else bytes.reverse))

/-- A scalar is written at its own place, or it throws and nothing is written. -/
theorem Scalar.set_puts (t : Scalar) (v : JsValue) :
    Puts (view.byteOffset + off) (t.type host).size ((t.type host).set view v off) := by
  cases t with
  | int t =>
    rw [Scalar.type, IntType.type_eq]
    show Puts _ t.element.size (setViewValue t.element view (0 + off) v true)
    rw [Nat.zero_add]
    exact setViewValue_puts view off t.element v true
  | i64 => exact Puts.halt _
  | u64 => exact Puts.halt _
  | f32 =>
    show Puts _ 4 (host.setFloat 4 view (0 + off) v true)
    rw [Nat.zero_add]
    exact setFloat_puts host view off 4 v true
  | f64 =>
    show Puts _ 8 (host.setFloat 8 view (0 + off) v true)
    rw [Nat.zero_add]
    exact setFloat_puts host view off 8 v true

/-- A scalar is read from its own place. -/
theorem Scalar.get_takes (t : Scalar) :
    Takes (view.byteOffset + off) (t.type host).size ((t.type host).get view off) := by
  cases t with
  | int t =>
    rw [Scalar.type, IntType.type_eq]
    show Takes _ t.element.size (getViewValue t.element view (0 + off) true)
    rw [Nat.zero_add]
    exact getViewValue_takes view off t.element true
  | i64 => exact Takes.halt _
  | u64 => exact Takes.halt _
  | f32 =>
    show Takes _ 4 (host.getFloat 4 view (0 + off) true)
    rw [Nat.zero_add]
    exact getFloat_takes host view off 4 true
  | f64 =>
    show Takes _ 8 (host.getFloat 8 view (0 + off) true)
    rw [Nat.zero_add]
    exact getFloat_takes host view off 8 true

end Scalars

/-! ## Definitions -/

/-- The leaf is written at its own place, or it throws and nothing is written. -/
def Leaf.OwnsWrite (view : DataView) (leaf : Leaf) : Prop :=
  Puts (view.byteOffset + leaf.slot.offset) leaf.slot.type.size
    (leaf.slot.type.set view leaf.value leaf.slot.offset)

section Definitions

variable (host : Host) (view : DataView)

mutual

theorem TypeDef.leaves_ownWrite : ∀ (d : TypeDef) (v : JsValue) (off : Nat),
    ∀ leaf ∈ d.leaves host v off, leaf.OwnsWrite view
  | .scalar t, v, off, leaf, hleaf => by
    rw [List.mem_singleton.mp hleaf]
    exact t.set_puts host view off v
  | .str _ _, _, _, leaf, hleaf => by
    rw [List.mem_singleton.mp hleaf]
    exact Puts.halt _
  | .array _ _ _, _, _, leaf, hleaf => by
    rw [List.mem_singleton.mp hleaf]
    exact Puts.halt _
  | .struct fields, v, off, leaf, hleaf => fields.leaves_ownWrite v off 0 leaf hleaf

theorem FieldDefs.leaves_ownWrite : ∀ (fields : FieldDefs) (v : JsValue) (off bs : Nat),
    ∀ leaf ∈ fields.leaves host v off bs, leaf.OwnsWrite view
  | .nil, _, _, _, _, hleaf => nomatch hleaf
  | .cons _ d fields, v, off, bs, leaf, hleaf => by
    rcases List.mem_append.mp hleaf with h | h
    · exact d.leaves_ownWrite _ _ leaf h
    · exact fields.leaves_ownWrite v off _ leaf h

end

mutual

/-- `set` only writes in the range of the definition. -/
theorem TypeDef.set_stores : ∀ (d : TypeDef) (v : JsValue) (off : Nat),
    Stores (view.byteOffset + off) (view.byteOffset + off + (d.type host).size)
      ((d.type host).set view v off)
  | .scalar t, v, off => (t.set_puts host view off v).stores
  | .str _ _, _, _ => Stores.halt _
  | .array _ _ _, _, _ => Stores.halt _
  | .struct fields, v, off => by
    have hfields := fields.setFields_stores v off 0
    rw [Nat.zero_add] at hfields
    exact hfields

theorem FieldDefs.setFields_stores : ∀ (fields : FieldDefs) (v : JsValue) (off bs : Nat),
    Stores (view.byteOffset + (bs + off))
      (view.byteOffset + (bs + off) + structd_size (fields.types host))
      (setFields view v off (fields.types host) bs)
  | .nil, _, _, _ => Stores.pure
  | .cons name d fields, v, off, bs => by
    rw [FieldDefs.types, setFields, structd_size_cons]
    refine Stores.ofExcept_bind fun u => ?_
    have hfirst := d.set_stores u.orZero (bs + off)
    have hrest := fields.setFields_stores v off (bs + (d.type host).size)
    exact (hfirst.mono (Nat.le_refl _) (by omega)).bind (hrest.mono (by omega) (by omega))

end

end Definitions

/-! ## `CMemView` -/

section MemView

variable {ptr size : Nat} {b : Block}

/-- There is no view of a range that ends outside the buffer. -/
theorem view_run_outside (h : b.size < ptr + size) :
    CMemView.view ptr (some size) b = ⟨.error .rangeError, b, []⟩ := by
  unfold CMemView.view newDataView
  rw [Proc.step_bind_run]
  split
  · rfl
  · dsimp only
    rw [if_pos h]
    rfl

/-- `CMemView.set` inside the buffer. -/
theorem CMemView.set_run_inside {type : CTypeBase} (v : JsValue) (h : ptr + type.size ≤ b.size) :
    CMemView.set ptr type v b = type.set ⟨ptr, type.size⟩ v 0 b :=
  Proc.bind_run_ok (view_run h) _

theorem CMemView.set_run_outside {type : CTypeBase} (v : JsValue)
    (h : b.size < ptr + type.size) :
    CMemView.set ptr type v b = ⟨.error .rangeError, b, []⟩ :=
  Proc.bind_run_error (view_run_outside h) _

theorem CMemView.get_run_inside {type : CTypeBase} (h : ptr + type.size ≤ b.size) :
    CMemView.get ptr type b = type.get ⟨ptr, type.size⟩ 0 b :=
  Proc.bind_run_ok (view_run h) _

variable (host : Host) (d : TypeDef) (v : JsValue)

theorem CMemView.set_stores :
    Stores ptr (ptr + (d.type host).size)
      ((d.type host).set ⟨ptr, (d.type host).size⟩ v 0) :=
  d.set_stores host ⟨ptr, (d.type host).size⟩ v 0

/-- The buffer keeps its size, and the bytes outside the range. -/
theorem CMemView.set_frame (ptr : Nat) (b : Block) :
    (CMemView.set ptr (d.type host) v b).state.size = b.size ∧
      ∀ j, ¬ (ptr ≤ j ∧ j < ptr + (d.type host).size) →
        (CMemView.set ptr (d.type host) v b).state.byte j = b.byte j := by
  by_cases hroom : ptr + (d.type host).size ≤ b.size
  · have hstores : Stores ptr _ _ := CMemView.set_stores host d v
    rw [CMemView.set_run_inside v hroom]
    exact ⟨hstores.size b, fun j hj => hstores.frame b (by omega)⟩
  · rw [CMemView.set_run_outside v (by omega)]
    exact ⟨rfl, fun _ _ => rfl⟩

/-- Definitions in ranges without a common byte are written in any order. -/
theorem CMemView.set_comm (d' : TypeDef) (u : JsValue) {p q : Nat}
    (hp : p + (d.type host).size ≤ b.size) (hq : q + (d'.type host).size ≤ b.size)
    (hapart : ∀ j, ¬ ((p ≤ j ∧ j < p + (d.type host).size) ∧
      q ≤ j ∧ j < q + (d'.type host).size)) :
    (CMemView.set q (d'.type host) u (CMemView.set p (d.type host) v b).state).state =
      (CMemView.set p (d.type host) v (CMemView.set q (d'.type host) u b).state).state := by
  have hsize := (CMemView.set_frame host d v p b).1
  have hsize' := (CMemView.set_frame host d' u q b).1
  rw [CMemView.set_run_inside u (by rwa [hsize]), CMemView.set_run_inside v hp,
    CMemView.set_run_inside v (by rwa [hsize']), CMemView.set_run_inside u hq]
  exact (CMemView.set_stores host d v).comm (CMemView.set_stores host d' u) hapart b

end MemView

/-! ## Structs of integers -/

section Integers

variable (host : Host)

mutual

/-- The leaves of a definition over the integer types are of these types. -/
theorem TypeDef.slots_integer : ∀ (d : TypeDef) (off : Nat), d.OverIntegers →
    ∀ s ∈ d.slots host off, ∃ t : Scalar, (t ≠ .f32 ∧ t ≠ .f64) ∧ s.type = t.type host
  | .scalar t, off, ht, s, hs => by
    rw [List.mem_singleton.mp hs]
    exact ⟨t, ht, rfl⟩
  | .struct fields, off, hfields, s, hs => fields.slots_integer off 0 hfields s hs

theorem FieldDefs.slots_integer : ∀ (fields : FieldDefs) (off bs : Nat), fields.OverIntegers →
    ∀ s ∈ fields.slots host off bs, ∃ t : Scalar, (t ≠ .f32 ∧ t ≠ .f64) ∧ s.type = t.type host
  | .nil, _, _, _, _, hs => nomatch hs
  | .cons _ d fields, off, bs, ⟨hd, hfields⟩, s, hs => by
    rcases List.mem_append.mp hs with h | h
    · exact d.slots_integer _ hd s h
    · exact fields.slots_integer off _ hfields s h

end

/-- What a struct over the integer types is at `ptr`. -/
structure LaidOut (S : FieldDefs) (ptr : Nat) : Prop where
  /-- its leaves are scalars of integer types -/
  integers : ∀ s ∈ S.slots host 0 0, ∃ t : Scalar, (t ≠ .f32 ∧ t ≠ .f64) ∧ s.type = t.type host
  /-- `set` writes each of them at its slot, in order -/
  sets : ∀ (v : JsValue) (b : Block), S.Supplied v → ptr + structd_size (S.types host) ≤ b.size →
    (S.leaves host v 0 0).map Leaf.slot = S.slots host 0 0 ∧
      CMemView.set ptr (CStruct (S.types host)) v b =
        setLeaves ⟨ptr, structd_size (S.types host)⟩ (S.leaves host v 0 0) b
  /-- `get` reads each of them at its slot, in order -/
  gets : ∀ b : Block, ptr + structd_size (S.types host) ≤ b.size →
    CMemView.get ptr (CStruct (S.types host)) b =
      (getSlots ⟨ptr, structd_size (S.types host)⟩ (S.slots host 0 0) >>= fun vs =>
        pure (.object (S.assemble [] vs).1)) b
  /-- a leaf is one write of its slot, if it does not throw -/
  writes : ∀ s ∈ S.slots host 0 0, ∀ v, Puts (ptr + s.offset) s.type.size
    (s.type.set ⟨ptr, structd_size (S.types host)⟩ v s.offset)
  /-- it is read from its slot -/
  reads : ∀ s ∈ S.slots host 0 0, Takes (ptr + s.offset) s.type.size
    (s.type.get ⟨ptr, structd_size (S.types host)⟩ s.offset)
  /-- a number that a leaf of at most four bytes is given fills the slot, and is read from it -/
  fills : ∀ s ∈ S.slots host 0 0, ∀ t : IntType, s.type = t.type → ∀ (n : Int) (b : Block),
    s.type.set ⟨ptr, structd_size (S.types host)⟩ (.number n) s.offset b =
        ⟨.ok (), b.write (ptr + s.offset) (t.encode n), []⟩ ∧
      s.type.get ⟨ptr, structd_size (S.types host)⟩ s.offset b =
        ⟨.ok (.number (t.decode (b.slice (ptr + s.offset) s.type.size))), b, []⟩
  /-- no byte is one of two slots -/
  disjoint : (S.slots host 0 0).Pairwise fun s s' => ∀ j, ¬ (s.Covers ptr j ∧ s'.Covers ptr j)
  /-- the bytes of the slots are those of the struct -/
  covers : ∀ j, (∃ s ∈ S.slots host 0 0, s.Covers ptr j) ↔
    ptr ≤ j ∧ j < ptr + structd_size (S.types host)

variable {S T : FieldDefs} {p q : Nat} {b : Block}

theorem struct_laidOut (hS : S.OverIntegers) (ptr : Nat) : LaidOut host S ptr := by
  have hintegers := S.slots_integer host 0 0 hS
  have htiles : Tiles 0 (structd_size (S.types host)) (S.slots host 0 0) := by
    simpa using S.tiles host 0 0
  refine ⟨hintegers, fun v b hv hroom => ⟨S.slot_leaves host v 0 0, ?_⟩, fun b hroom => ?_,
    fun s hs v => ?_, fun s hs => ?_, ?_, ?_, fun j => ?_⟩
  · exact (CMemView.set_run_inside v hroom).trans
      (congrFun (S.setFields_eq host _ v 0 0 hv) b)
  · exact (CMemView.get_run_inside hroom).trans
      (congrFun ((TypeDef.struct S).get_eq host _ 0) b)
  · obtain ⟨t, -, ht⟩ := hintegers s hs
    rw [ht]
    exact t.set_puts host _ s.offset v
  · obtain ⟨t, -, ht⟩ := hintegers s hs
    rw [ht]
    exact t.get_takes host _ s.offset
  · intro s hs t ht n b
    have hend := (htiles.within hs).2
    rw [ht] at hend ⊢
    exact ⟨IntType.set_run hend, IntType.get_run hend⟩
  · refine htiles.pairwise.imp fun hle j => ?_
    unfold Slot.Covers
    omega
  · exact htiles.covers ptr j

/-- **Structs stay in their range**, and structs whose ranges have no byte in common may be
written in either order. -/
theorem struct_sets_local (hS : S.OverIntegers) (v u : JsValue) :
    LaidOut host S p ∧
      ((CMemView.set p (CStruct (S.types host)) v b).state.size = b.size ∧
        ∀ j, ¬ (p ≤ j ∧ j < p + structd_size (S.types host)) →
          (CMemView.set p (CStruct (S.types host)) v b).state.byte j = b.byte j) ∧
      (p + structd_size (S.types host) ≤ b.size → q + structd_size (T.types host) ≤ b.size →
        (∀ j, ¬ ((p ≤ j ∧ j < p + structd_size (S.types host)) ∧
          q ≤ j ∧ j < q + structd_size (T.types host))) →
        (CMemView.set q (CStruct (T.types host)) u
            (CMemView.set p (CStruct (S.types host)) v b).state).state =
          (CMemView.set p (CStruct (S.types host)) v
            (CMemView.set q (CStruct (T.types host)) u b).state).state) :=
  ⟨struct_laidOut host hS p, CMemView.set_frame host (.struct S) v p b,
    CMemView.set_comm host (.struct S) v (.struct T) u⟩

end Integers

/-- `{ tag: u8, at: { x: i16, y: u32 } }` -/
def taggedPoint : FieldDefs :=
  .cons "tag" (.scalar (.int .u8))
    (.cons "at" (.struct (.cons "x" (.scalar (.int .i16)) (.cons "y" (.scalar (.int .u32)) .nil)))
      .nil)

/-- `{ tag: 7, at: { x: -2, y: n } }` -/
def taggedPointAt (n : Int) : JsValue :=
  .object [("tag", .number 7), ("at", .object [("x", .number (-2)), ("y", .number n)])]

/-- Two of these structs, side by side. -/
theorem taggedPoints_set_local :
    LaidOut smallFirst taggedPoint 1 ∧
      (CMemView.set 8 (CStruct (taggedPoint.types smallFirst)) (taggedPointAt 2)
          (CMemView.set 1 (CStruct (taggedPoint.types smallFirst)) (taggedPointAt 1)
            ⟨16, fun _ => 0⟩).state).state =
        (CMemView.set 1 (CStruct (taggedPoint.types smallFirst)) (taggedPointAt 1)
          (CMemView.set 8 (CStruct (taggedPoint.types smallFirst)) (taggedPointAt 2)
            ⟨16, fun _ => 0⟩).state).state := by
  have hlocal := struct_sets_local (b := ⟨16, fun _ => 0⟩) (S := taggedPoint) (T := taggedPoint)
    (p := 1) (q := 8) smallFirst (by simp [taggedPoint, FieldDefs.OverIntegers,
      TypeDef.OverIntegers]) (taggedPointAt 1) (taggedPointAt 2)
  have hsize : structd_size (taggedPoint.types smallFirst) = 7 := rfl
  rw [hsize] at hlocal
  exact ⟨hlocal.1, hlocal.2.2 (by decide) (by decide) fun j => by omega⟩

end NoGround
