/-
  Js/RoundTrip.lean --- structs of integers in memory.

  On a view that has room for a definition, `set` is one write of the encoded data and `get`
  reads the definition back from one slice, whatever the nesting: the offsets that `set`,
  `get` and the size of a struct each compute for themselves are the same.  So `CMemView` is
  the codec of Js/Codec at an address, and has the laws of the codec.
-/
import NoGround.Js.Codec

set_option autoImplicit false

namespace NoGround

open NoGround.Lib

/-! ## Views -/

/-- A view of a range inside the buffer. -/
theorem view_run {ptr size : Nat} {b : Block} (h : ptr + size ≤ b.size) :
    CMemView.view ptr (some size) b = ⟨.ok ⟨ptr, size⟩, b, []⟩ := by
  unfold CMemView.view newDataView
  rw [Proc.step_bind_run, if_neg (by omega)]
  dsimp only
  rw [if_neg (by omega)]
  rfl

/-! ## Elements -/

section Elements

variable {type : ElementType} {view : DataView} {index : Nat} {b : Block}

theorem getViewValue_run (h : index + type.size ≤ view.byteLength) :
    getViewValue type view index true b =
      ⟨.ok (.number (type.value (natLE (b.slice (view.byteOffset + index) type.size)))), b,
        []⟩ := by
  unfold getViewValue
  rw [if_neg (by omega), Proc.step_bind_run, if_pos rfl]
  rfl

theorem setViewValue_run {n : Int} (h : index + type.size ≤ view.byteLength) :
    setViewValue type view index (.number n) true b =
      ⟨.ok (), b.write (view.byteOffset + index) (bytesLE type.size (type.word n)), []⟩ := by
  unfold setViewValue
  rw [JsValue.toNumber, Proc.ofExcept_ok, Proc.pure_bind_run, if_neg (by omega), if_pos rfl,
    Proc.modify_run]

end Elements

namespace IntType

/-- Every integer type is read by the getter and written by the setter of its element. -/
theorem type_eq (t : IntType) :
    t.type = CType t.element.size (some (getViewValue t.element))
      (some (setViewValue t.element)) true 0 := by
  cases t <;> rfl

variable {t : IntType} {view : DataView} {off : Nat} {b : Block}

theorem get_run (h : off + t.type.size ≤ view.byteLength) :
    t.type.get view off b =
      ⟨.ok (.number (t.decode (b.slice (view.byteOffset + off) t.type.size))), b, []⟩ := by
  rw [size_type] at h ⊢
  rw [type_eq]
  show getViewValue t.element view (0 + off) true b = _
  rw [Nat.zero_add, getViewValue_run h, decode]

theorem set_run {n : Int} (h : off + t.type.size ≤ view.byteLength) :
    t.type.set view (.number n) off b =
      ⟨.ok (), b.write (view.byteOffset + off) (t.encode n), []⟩ := by
  rw [size_type] at h
  rw [type_eq]
  show setViewValue t.element view (0 + off) (.number n) true b = _
  rw [Nat.zero_add, setViewValue_run h, encode]

end IntType

/-! ## Writing a struct -/

theorem JsValue.field_eq {v u : JsValue} {name : String} (h : v.property name = .ok u) :
    v.field name = u.orZero := by
  rw [field, h]

mutual

/-- `set` writes the encoded data. -/
theorem IntDef.set_run : ∀ (d : IntDef) (view : DataView) (v : JsValue) (off : Nat) (b : Block),
    d.Gives v → off + d.type.size ≤ view.byteLength →
    d.type.set view v off b = ⟨.ok (), b.write (view.byteOffset + off) (d.encode v), []⟩
  | .leaf t, view, v, off, b, ⟨n, hv⟩, hroom => by
    rw [IntDef.type] at hroom ⊢
    rw [IntDef.encode, hv, IntType.set_run hroom]
    rfl
  | .struct fields, view, v, off, b, hv, hroom => by
    rw [IntDef.type] at hroom ⊢
    have hroom' : 0 + off + structd_size fields.types ≤ view.byteLength := by
      rw [Nat.zero_add]
      exact hroom
    have hfields := fields.setFields_run view v off 0 b hv hroom'
    rw [Nat.zero_add] at hfields
    rw [IntDef.encode]
    exact hfields

/-- The fold of `set`, from the field `bs` bytes into the struct on. -/
theorem IntFields.setFields_run : ∀ (fields : IntFields) (view : DataView) (v : JsValue)
    (off bs : Nat) (b : Block), fields.Gives v →
    bs + off + structd_size fields.types ≤ view.byteLength →
    setFields view v off fields.types bs b =
      ⟨.ok (), b.write (view.byteOffset + (bs + off)) (fields.encode v), []⟩
  | .nil, view, v, off, bs, b, _, _ => by
    rw [IntFields.encode, Block.write_nil]
    rfl
  | .cons name d fields, view, v, off, bs, b, ⟨⟨u, hu⟩, hd, hfields⟩, hroom => by
    rw [IntFields.types, structd_size_cons] at hroom
    have hfield := JsValue.field_eq hu
    rw [hfield] at hd
    have hfirst := d.set_run view u.orZero (bs + off) b hd (by omega)
    have hrest := fields.setFields_run view v off (bs + d.type.size)
      (b.write (view.byteOffset + (bs + off)) (d.encode u.orZero)) hfields (by omega)
    have hplace : view.byteOffset + (bs + d.type.size + off) =
        view.byteOffset + (bs + off) + (d.encode u.orZero).length := by
      rw [d.length_encode]
      omega
    rw [IntFields.types, setFields, hu, Proc.ofExcept_ok, Proc.pure_bind_run,
      Proc.bind_run_ok hfirst, hrest, hplace, Block.write_append, IntFields.encode, hfield]
    rfl

end

/-! ## Reading a struct -/

/-- A property of a new name comes last. -/
theorem JsValue.assign_of_fresh {ps : List (String × JsValue)} {name : String} {x : JsValue}
    (hproto : name ≠ "__proto__") (hfresh : name ∉ ps.map Prod.fst) :
    assign ps name x = ps ++ [(name, x)] := by
  have hany : ¬ ps.any (·.1 = name) = true := by
    intro h
    obtain ⟨p, hp, hname⟩ := List.any_eq_true.mp h
    exact hfresh (List.mem_map.mpr ⟨p, hp, of_decide_eq_true hname⟩)
  rw [assign, if_neg hproto, if_neg hany]

mutual

/-- `get` decodes what is there. -/
theorem IntDef.get_run : ∀ (d : IntDef) (view : DataView) (off : Nat) (b : Block),
    d.WellNamed → off + d.type.size ≤ view.byteLength →
    d.type.get view off b =
      ⟨.ok (d.decode (b.slice (view.byteOffset + off) d.type.size)), b, []⟩
  | .leaf t, view, off, b, _, hroom => by
    rw [IntDef.type] at hroom ⊢
    rw [IntDef.decode, IntType.get_run hroom]
  | .struct fields, view, off, b, hnamed, hroom => by
    rw [IntDef.type] at hroom ⊢
    have hroom' : 0 + off + structd_size fields.types ≤ view.byteLength := by
      rw [Nat.zero_add]
      exact hroom
    have hfields := fields.getFields_run view off 0 [] b hnamed (fun _ _ => List.not_mem_nil)
      hroom'
    rw [Nat.zero_add, List.nil_append] at hfields
    rw [IntDef.decode]
    show ((getFields view off fields.types 0 []) >>= fun data => pure (JsValue.object data)) b = _
    rw [Proc.bind_run_ok hfields]
    rfl

/-- The fold of `get`, from the field `bs` bytes into the struct on. -/
theorem IntFields.getFields_run : ∀ (fields : IntFields) (view : DataView) (off bs : Nat)
    (data : List (String × JsValue)) (b : Block), fields.WellNamed →
    (∀ f ∈ fields.names, f ∉ data.map Prod.fst) →
    bs + off + structd_size fields.types ≤ view.byteLength →
    getFields view off fields.types bs data b =
      ⟨.ok (data ++ fields.decode (b.slice (view.byteOffset + (bs + off))
        (structd_size fields.types))), b, []⟩
  | .nil, view, off, bs, data, b, _, _, _ => by
    rw [IntFields.decode, List.append_nil]
    rfl
  | .cons name d fields, view, off, bs, data, b, ⟨hproto, hfresh, hd, hfields⟩, hnew, hroom => by
    rw [IntFields.types, structd_size_cons] at hroom ⊢
    have hfirst := d.get_run view (bs + off) b hd (by omega)
    let x := d.decode (b.slice (view.byteOffset + (bs + off)) d.type.size)
    have hassign : JsValue.assign data name x = data ++ [(name, x)] :=
      JsValue.assign_of_fresh hproto (hnew name (List.mem_cons_self ..))
    have hnew' : ∀ f ∈ fields.names, f ∉ (data ++ [(name, x)]).map Prod.fst := by
      intro f hf hmem
      rw [List.map_append, List.mem_append] at hmem
      rcases hmem with hold | hlast
      · exact hnew f (List.mem_cons_of_mem _ hf) hold
      · have hname : f = name := List.mem_singleton.mp hlast
        exact hfresh (hname ▸ hf)
    have hrest := fields.getFields_run view off (bs + d.type.size) (data ++ [(name, x)]) b hfields
      hnew' (by omega)
    have hplace : view.byteOffset + (bs + d.type.size + off) =
        view.byteOffset + (bs + off) + d.type.size := by omega
    rw [hplace] at hrest
    rw [getFields, Proc.bind_run_ok hfirst]
    show Result.mk (getFields view off fields.types (bs + d.type.size)
      (JsValue.assign data name x) b).outcome _ _ = _
    rw [hassign, hrest, Block.slice_add, IntFields.decode,
      List.take_left' Block.length_slice, List.drop_left' Block.length_slice,
      List.append_assoc]
    rfl

end

/-! ## CMemView -/

section Memory

variable {d : IntDef} {ptr : Nat} {b : Block} {v : JsValue}

theorem CMemView.set_run (hdata : d.Gives v) (hroom : ptr + d.type.size ≤ b.size) :
    CMemView.set ptr d.type v b = ⟨.ok (), b.write ptr (d.encode v), []⟩ := by
  unfold CMemView.set
  have hview : 0 + d.type.size ≤ d.type.size := by omega
  rw [Proc.bind_run_ok (view_run hroom), d.set_run ⟨ptr, d.type.size⟩ v 0 b hdata hview]
  rfl

theorem CMemView.get_run (hnamed : d.WellNamed) (hroom : ptr + d.type.size ≤ b.size) :
    CMemView.get ptr d.type b = ⟨.ok (d.decode (b.slice ptr d.type.size)), b, []⟩ := by
  unfold CMemView.get
  have hview : 0 + d.type.size ≤ d.type.size := by omega
  rw [Proc.bind_run_ok (view_run hroom), d.get_run ⟨ptr, d.type.size⟩ 0 b hnamed hview]
  rfl

/-- Writing data and reading it back. -/
theorem get_after_set (hnamed : d.WellNamed) (hdata : d.Gives v)
    (hroom : ptr + d.type.size ≤ b.size) :
    (CMemView.set ptr d.type v >>= fun _ => CMemView.get ptr d.type) b =
      ⟨.ok (d.reduced v), b.write ptr (d.encode v), []⟩ := by
  have hroom' : ptr + d.type.size ≤ (b.write ptr (d.encode v)).size := hroom
  rw [Proc.bind_run_ok (CMemView.set_run hdata hroom), CMemView.get_run hnamed hroom',
    ← d.length_encode v, Block.slice_write, d.decode_encode]
  rfl

/-- Reading data and writing it back. -/
theorem set_after_get (hnamed : d.WellNamed) (hroom : ptr + d.type.size ≤ b.size) :
    (CMemView.get ptr d.type >>= fun v => CMemView.set ptr d.type v) b = ⟨.ok (), b, []⟩ := by
  have hgives := d.gives_decode (b.slice ptr d.type.size) hnamed
  rw [Proc.bind_run_ok (CMemView.get_run hnamed hroom), CMemView.set_run hgives hroom,
    d.encode_decode hnamed Block.length_slice, Block.write_slice]
  rfl

end Memory

/-! ## Round trip -/

/-- A struct over the integer types. -/
structure IntStruct where
  fields : IntFields
  wellNamed : fields.WellNamed

namespace IntStruct

/-- Its definition. -/
def toDef (S : IntStruct) : IntDef := .struct S.fields

/-- What `new CStruct` makes of it. -/
def type (S : IntStruct) : CTypeBase := S.toDef.type

end IntStruct

/-- Data that is written to memory is read back with every leaf reduced into the range of its
type, so data in range is read back as it is; and writing what was read changes no byte. -/
theorem memView_roundTrip (S : IntStruct) (ptr : Nat) (b : Block)
    (hroom : ptr + S.type.size ≤ b.size) :
    (∀ data, S.toDef.Gives data → ∃ b',
      (CMemView.set ptr S.type data >>= fun _ => CMemView.get ptr S.type) b =
        ⟨.ok (S.toDef.reduced data), b', []⟩) ∧
    (∀ data, S.toDef.InRange data → S.toDef.reduced data = S.toDef.fieldsOf data) ∧
    (CMemView.get ptr S.type >>= fun data => CMemView.set ptr S.type data) b =
      ⟨.ok (), b, []⟩ :=
  ⟨fun _ hdata => ⟨_, get_after_set S.wellNamed hdata hroom⟩,
    fun data hdata => S.toDef.reduced_of_inRange data hdata,
    set_after_get S.wellNamed hroom⟩

/-- `{ id: i16, at: { tag: u8, next: ptr } }`. -/
def nestedStruct : IntStruct where
  fields := .cons "id" (.leaf .i16) (.cons "at"
    (.struct (.cons "tag" (.leaf .u8) (.cons "next" (.leaf .ptr) .nil))) .nil)
  wellNamed := by simp [IntFields.WellNamed, IntDef.WellNamed, IntFields.names]

/-- The data `{ at: { next: 5, tag: 300 }, id: -2 }` at an odd address: `tag` is reduced. -/
theorem memView_roundTrip_nested : ∃ b',
    (CMemView.set 1 nestedStruct.type
        (.object [("at", .object [("next", .number 5), ("tag", .number 300)]),
          ("id", .number (-2))]) >>= fun _ => CMemView.get 1 nestedStruct.type)
      ⟨8, fun _ => 0⟩ =
    ⟨.ok (.object [("id", .number (-2)),
      ("at", .object [("tag", .number 44), ("next", .number 5)])]), b', []⟩ :=
  (memView_roundTrip nestedStruct 1 ⟨8, fun _ => 0⟩ (by decide)).1 _
    ⟨⟨_, rfl⟩, ⟨-2, rfl⟩, ⟨_, rfl⟩, ⟨⟨_, rfl⟩, ⟨300, rfl⟩, ⟨_, rfl⟩, ⟨5, rfl⟩, trivial⟩, trivial⟩

end NoGround
