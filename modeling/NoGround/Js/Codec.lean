/-
  Js/Codec.lean --- what a struct of integers is as bytes.

  A definition over the integer types of `CTypes` is a tree, and `IntDef.type` is the object
  that the constructors make of it.  Such a definition is a codec: `encode` says which bytes
  its data is, `decode` which data bytes are, and the codec of a struct is that of its fields
  one behind the other.  `reduced` is the data that remains of an object: the fields of the
  definition, with each leaf reduced into the range of its type.

  Nothing here refers to a buffer.
-/
import NoGround.Js.CTypes
import Mathlib.Algebra.Order.Ring.Int
import Mathlib.Tactic.Positivity

set_option autoImplicit false

namespace NoGround

open NoGround.Lib

/-! ## Integer types -/

/-- The integer types of `CTypes` of at most four bytes. -/
inductive IntType where
  | i8
  | u8
  | i16
  | u16
  | i32
  | u32
  | ptr
  deriving DecidableEq, Repr

namespace IntType

/-- The object in `CTypes`. -/
def type : IntType → CTypeBase
  | i8 => CTypes.i8
  | u8 => CTypes.u8
  | i16 => CTypes.i16
  | u16 => CTypes.u16
  | i32 => CTypes.i32
  | u32 => CTypes.u32
  | ptr => CTypes.ptr

/-- The elements it stands for. -/
def element : IntType → ElementType
  | i8 => Int8
  | u8 => Uint8
  | i16 => Int16
  | u16 => Uint16
  | i32 => Int32
  | u32 => Uint32
  | ptr => Uint32

/-- The integers in the range of a type. -/
def Contains (t : IntType) (n : Int) : Prop :=
  if t.element.signed then -2 ^ (8 * t.element.size - 1) ≤ n ∧ n < 2 ^ (8 * t.element.size - 1)
  else 0 ≤ n ∧ n < 2 ^ (8 * t.element.size)

/-- An integer reduced into the range of a type, modulo `2 ^ (8 * size)`. -/
def wrap (t : IntType) (n : Int) : Int :=
  if t.element.signed then n.bmod (2 ^ (8 * t.element.size)) else n % 2 ^ (8 * t.element.size)

/-- The bytes of an integer. -/
def encode (t : IntType) (n : Int) : List UInt8 := bytesLE t.element.size (t.element.word n)

/-- The integer of some bytes. -/
def decode (t : IntType) (bs : List UInt8) : Int := t.element.value (natLE bs)

variable {t : IntType} {n : Int}

@[simp] theorem length_encode : (t.encode n).length = t.element.size :=
  length_bytesLE _ _

theorem size_type : t.type.size = t.element.size := by
  cases t <;> rfl

theorem size_pos (t : IntType) : 0 < t.element.size := by
  cases t <;> decide

/-- The range of a signed type is one half of the words on each side of zero. -/
theorem two_pow_half (t : IntType) :
    (2 ^ (8 * t.element.size) : Int) = 2 * 2 ^ (8 * t.element.size - 1) := by
  have hpos := t.size_pos
  calc (2 ^ (8 * t.element.size) : Int) = 2 ^ (8 * t.element.size - 1 + 1) := by
        congr 1
        omega
    _ = 2 * 2 ^ (8 * t.element.size - 1) := by rw [pow_succ, mul_comm]

/-- Reducing gives an integer in range. -/
theorem wrap_contains : t.Contains (t.wrap n) := by
  have hpos : (0 : Int) < 2 ^ (8 * t.element.size) := pow_pos two_pos _
  have hhalf := t.two_pow_half
  unfold Contains wrap
  split
  · have hle := @Int.le_bmod n (2 ^ (8 * t.element.size)) (by positivity)
    have hlt := @Int.bmod_lt n (2 ^ (8 * t.element.size)) (by positivity)
    rw [Nat.cast_pow, Nat.cast_ofNat] at hle hlt
    omega
  · exact ⟨Int.emod_nonneg _ hpos.ne', Int.emod_lt_of_pos _ hpos⟩

/-- Reducing keeps the integer modulo `2 ^ (8 * size)`. -/
theorem wrap_emod : t.wrap n % 2 ^ (8 * t.element.size) = n % 2 ^ (8 * t.element.size) := by
  unfold wrap
  split
  · have h := @Int.bmod_emod n (2 ^ (8 * t.element.size))
    rwa [Nat.cast_pow, Nat.cast_ofNat] at h
  · exact Int.emod_emod _ _

/-- Reducing does nothing to an integer in range. -/
theorem wrap_of_contains (h : t.Contains n) : t.wrap n = n := by
  have hhalf := t.two_pow_half
  unfold Contains at h
  unfold wrap
  split at h
  · rename_i hsigned
    rw [if_pos hsigned]
    refine Int.bmod_eq_of_le ?_ ?_
    · rw [Nat.cast_pow, Nat.cast_ofNat]
      omega
    · rw [Nat.cast_pow, Nat.cast_ofNat]
      omega
  · rename_i hsigned
    rw [if_neg hsigned]
    exact Int.emod_eq_of_lt h.1 h.2

theorem two_pow_bytes (w : Nat) : (2 ^ (8 * w) : Int) = ((256 ^ w : Nat) : Int) := by
  rw [Nat.cast_pow, pow_mul]
  rfl

/-- The word of an integer, as an integer. -/
theorem word_cast : (t.element.word n : Int) = n % 2 ^ (8 * t.element.size) := by
  have hpos : (0 : Int) < ((256 ^ t.element.size : Nat) : Int) := by positivity
  unfold ElementType.word
  rw [two_pow_bytes, Int.toNat_of_nonneg (Int.emod_nonneg _ hpos.ne')]

theorem word_lt : t.element.word n < 256 ^ t.element.size := by
  have hpos : (0 : Int) < ((256 ^ t.element.size : Nat) : Int) := by positivity
  have hlt := Int.emod_lt_of_pos n hpos
  rw [← two_pow_bytes, ← word_cast, two_pow_bytes] at hlt
  exact_mod_cast hlt

/-- Reading what was written. -/
theorem decode_encode : t.decode (t.encode n) = t.wrap n := by
  unfold decode encode wrap ElementType.value
  rw [natLE_bytesLE word_lt]
  split
  · rw [word_cast, two_pow_bytes, Int.emod_bmod]
    congr 1
    rw [pow_mul]
    rfl
  · exact word_cast

/-- Writing what was read. -/
theorem encode_decode {bs : List UInt8} (h : bs.length = t.element.size) :
    t.encode (t.decode bs) = bs := by
  have hlt := natLE_lt bs
  rw [h] at hlt
  have hword : t.element.word (t.decode bs) = natLE bs := by
    have hsmall : (natLE bs : Int) < ((256 ^ t.element.size : Nat) : Int) := by exact_mod_cast hlt
    have hself : (natLE bs : Int) % ((256 ^ t.element.size : Nat) : Int) = natLE bs :=
      Int.emod_eq_of_lt (Int.natCast_nonneg _) hsmall
    unfold ElementType.word decode ElementType.value
    split
    · rw [Int.bmod_emod, hself, Int.toNat_natCast]
    · rw [hself, Int.toNat_natCast]
  unfold encode
  rw [hword, ← h, bytesLE_natLE]

end IntType

/-! ## Definitions -/

mutual

/-- A definition over the integer types. -/
inductive IntDef where
  | leaf (type : IntType)
  | struct (fields : IntFields)

/-- The fields of a struct, in the order of `Object.entries`. -/
inductive IntFields where
  | nil
  | cons (name : String) (type : IntDef) (fields : IntFields)

end

/-- The names of the fields. -/
def IntFields.names : IntFields → List String
  | .nil => []
  | .cons name _ fields => name :: fields.names

mutual

/-- The object that the constructors make of a definition. -/
def IntDef.type : IntDef → CTypeBase
  | .leaf t => t.type
  | .struct fields => CStruct fields.types

def IntFields.types : IntFields → List (String × CTypeBase)
  | .nil => []
  | .cons name d fields => (name, d.type) :: fields.types

end

mutual

/-- The names of an object are distinct, and none of them is `__proto__`. -/
def IntDef.WellNamed : IntDef → Prop
  | .leaf _ => True
  | .struct fields => fields.WellNamed

def IntFields.WellNamed : IntFields → Prop
  | .nil => True
  | .cons name d fields =>
      name ≠ "__proto__" ∧ name ∉ fields.names ∧ d.WellNamed ∧ fields.WellNamed

end

/-! ## Data -/

/-- The integer a value is; zero if it is none. -/
def JsValue.integer : JsValue → Int
  | number n => n
  | _ => 0

/-- What a struct reads of its data for one field. -/
def JsValue.field (value : JsValue) (name : String) : JsValue :=
  match value.property name with
  | .ok u => u.orZero
  | .error _ => undefined

mutual

/-- The data gives an integer for every leaf; a missing field counts as zero. -/
def IntDef.Gives : IntDef → JsValue → Prop
  | .leaf _, v => ∃ n, v = .number n
  | .struct fields, v => fields.Gives v

def IntFields.Gives : IntFields → JsValue → Prop
  | .nil, _ => True
  | .cons name d fields, v =>
      (∃ u, v.property name = .ok u) ∧ d.Gives (v.field name) ∧ fields.Gives v

end

mutual

/-- The fields of the definition, each leaf reduced into the range of its type. -/
def IntDef.reduced : IntDef → JsValue → JsValue
  | .leaf t, v => .number (t.wrap v.integer)
  | .struct fields, v => .object (fields.reduced v)

def IntFields.reduced : IntFields → JsValue → List (String × JsValue)
  | .nil, _ => []
  | .cons name d fields, v => (name, d.reduced (v.field name)) :: fields.reduced v

end

mutual

/-- Every leaf is in the range of its type. -/
def IntDef.InRange : IntDef → JsValue → Prop
  | .leaf t, v => t.Contains v.integer
  | .struct fields, v => fields.InRange v

def IntFields.InRange : IntFields → JsValue → Prop
  | .nil, _ => True
  | .cons name d fields, v => d.InRange (v.field name) ∧ fields.InRange v

end

mutual

/-- The fields of the definition, as they are in the data. -/
def IntDef.fieldsOf : IntDef → JsValue → JsValue
  | .leaf _, v => .number v.integer
  | .struct fields, v => .object (fields.fieldsOf v)

def IntFields.fieldsOf : IntFields → JsValue → List (String × JsValue)
  | .nil, _ => []
  | .cons name d fields, v => (name, d.fieldsOf (v.field name)) :: fields.fieldsOf v

end

/-! ## Encoding and decoding -/

mutual

/-- The bytes of data. -/
def IntDef.encode : IntDef → JsValue → List UInt8
  | .leaf t, v => t.encode v.integer
  | .struct fields, v => fields.encode v

def IntFields.encode : IntFields → JsValue → List UInt8
  | .nil, _ => []
  | .cons name d fields, v => d.encode (v.field name) ++ fields.encode v

end

mutual

/-- The data of some bytes. -/
def IntDef.decode : IntDef → List UInt8 → JsValue
  | .leaf t, bs => .number (t.decode bs)
  | .struct fields, bs => .object (fields.decode bs)

def IntFields.decode : IntFields → List UInt8 → List (String × JsValue)
  | .nil, _ => []
  | .cons name d fields, bs =>
      (name, d.decode (bs.take d.type.size)) :: fields.decode (bs.drop d.type.size)

end

theorem foldl_size (fields : List (String × CTypeBase)) (s : Nat) :
    fields.foldl (fun s entry => s + entry.2.size) s = s + structd_size fields := by
  unfold structd_size
  induction fields generalizing s with
  | nil => rfl
  | cons entry fields ih =>
    rw [List.foldl_cons, List.foldl_cons, ih, ih (0 + entry.2.size)]
    omega

@[simp] theorem structd_size_nil : structd_size [] = 0 := rfl

/-- A struct has room for its fields. -/
@[simp] theorem structd_size_cons (f : String) (td : CTypeBase)
    (fields : List (String × CTypeBase)) :
    structd_size ((f, td) :: fields) = td.size + structd_size fields := by
  show List.foldl _ (0 + td.size) fields = _
  rw [foldl_size, Nat.zero_add]

mutual

/-- A definition is as long as its codec. -/
theorem IntDef.length_encode : ∀ (d : IntDef) (v : JsValue),
    (d.encode v).length = d.type.size
  | .leaf t, v => by
    rw [IntDef.encode, IntDef.type, IntType.length_encode, IntType.size_type]
  | .struct fields, v => by
    rw [IntDef.encode, IntDef.type]
    exact fields.length_encode v

theorem IntFields.length_encode : ∀ (fields : IntFields) (v : JsValue),
    (fields.encode v).length = structd_size fields.types
  | .nil, v => rfl
  | .cons name d fields, v => by
    rw [IntFields.encode, IntFields.types, List.length_append, structd_size_cons,
      d.length_encode, fields.length_encode]

end

mutual

/-- Reading what was written. -/
theorem IntDef.decode_encode : ∀ (d : IntDef) (v : JsValue), d.decode (d.encode v) = d.reduced v
  | .leaf t, v => by
    rw [IntDef.encode, IntDef.decode, IntDef.reduced, IntType.decode_encode]
  | .struct fields, v => by
    rw [IntDef.encode, IntDef.decode, IntDef.reduced, fields.decode_encode]

theorem IntFields.decode_encode : ∀ (fields : IntFields) (v : JsValue),
    fields.decode (fields.encode v) = fields.reduced v
  | .nil, v => rfl
  | .cons name d fields, v => by
    have hlen := d.length_encode (v.field name)
    rw [IntFields.encode, IntFields.decode, IntFields.reduced, List.take_left' hlen,
      List.drop_left' hlen, d.decode_encode, fields.decode_encode]

end

mutual

/-- Data in range loses nothing. -/
theorem IntDef.reduced_of_inRange : ∀ (d : IntDef) (v : JsValue),
    d.InRange v → d.reduced v = d.fieldsOf v
  | .leaf t, v, h => by
    rw [IntDef.reduced, IntDef.fieldsOf, IntType.wrap_of_contains h]
  | .struct fields, v, h => by
    rw [IntDef.reduced, IntDef.fieldsOf, fields.reduced_of_inRange v h]

theorem IntFields.reduced_of_inRange : ∀ (fields : IntFields) (v : JsValue),
    fields.InRange v → fields.reduced v = fields.fieldsOf v
  | .nil, v, _ => rfl
  | .cons name d fields, v, h => by
    rw [IntFields.reduced, IntFields.fieldsOf, d.reduced_of_inRange _ h.1,
      fields.reduced_of_inRange v h.2]

end

/-! ## Data that was decoded -/

/-- The fields of a struct are all that its data is asked for. -/
theorem IntFields.encode_congr : ∀ (fields : IntFields) {v u : JsValue},
    (∀ name ∈ fields.names, v.field name = u.field name) → fields.encode v = fields.encode u
  | .nil, _, _, _ => rfl
  | .cons name d fields, v, u, h => by
    rw [IntFields.encode, IntFields.encode, h name (List.mem_cons_self ..),
      fields.encode_congr fun name hname => h name (List.mem_cons_of_mem _ hname)]

theorem IntFields.gives_congr : ∀ (fields : IntFields) {v u : JsValue},
    (∀ name ∈ fields.names, v.property name = u.property name) →
    fields.Gives v → fields.Gives u
  | .nil, _, _, _, _ => trivial
  | .cons name d fields, v, u, h, hv => by
    have hname := h name (List.mem_cons_self ..)
    have hfield : v.field name = u.field name := by rw [JsValue.field, JsValue.field, hname]
    refine ⟨hname ▸ hv.1, hfield ▸ hv.2.1, ?_⟩
    exact fields.gives_congr (fun name hname => h name (List.mem_cons_of_mem _ hname)) hv.2.2

namespace JsValue

variable {f name : String} {x : JsValue} {ps : List (String × JsValue)}

/-- The first property of an object. -/
theorem property_head : (object ((f, x) :: ps)).property f = .ok x := by
  simp [property]

/-- The properties behind the first one. -/
theorem property_tail (h : name ≠ f) :
    (object ((f, x) :: ps)).property name = (object ps).property name := by
  simp [property, List.lookup_cons, beq_false_of_ne h]

theorem field_head (h : x.orZero = x) : (object ((f, x) :: ps)).field f = x := by
  rw [field, property_head]
  exact h

theorem field_tail (h : name ≠ f) :
    (object ((f, x) :: ps)).field name = (object ps).field name := by
  rw [field, field, property_tail h]

end JsValue

/-- What is decoded is no `null` and no `undefined`. -/
theorem IntDef.orZero_decode (d : IntDef) (bs : List UInt8) :
    (d.decode bs).orZero = d.decode bs := by
  cases d <;> rw [IntDef.decode] <;> rfl

mutual

/-- Writing what was read. -/
theorem IntDef.encode_decode : ∀ (d : IntDef) {bs : List UInt8}, d.WellNamed →
    bs.length = d.type.size → d.encode (d.decode bs) = bs
  | .leaf t, bs, _, hlen => by
    rw [IntDef.decode, IntDef.encode]
    exact IntType.encode_decode (hlen.trans t.size_type)
  | .struct fields, bs, hnamed, hlen => by
    rw [IntDef.decode, IntDef.encode]
    exact fields.encode_decode hnamed hlen

theorem IntFields.encode_decode : ∀ (fields : IntFields) {bs : List UInt8}, fields.WellNamed →
    bs.length = structd_size fields.types → fields.encode (.object (fields.decode bs)) = bs
  | .nil, bs, _, hlen => by
    rw [IntFields.encode]
    exact (List.length_eq_zero_iff.mp hlen).symm
  | .cons name d fields, bs, ⟨_, hfresh, hd, hfields⟩, hlen => by
    rw [IntFields.types, structd_size_cons] at hlen
    have htail : ∀ f ∈ fields.names,
        (JsValue.object ((name, d.decode (bs.take d.type.size)) ::
          fields.decode (bs.drop d.type.size))).field f =
        (JsValue.object (fields.decode (bs.drop d.type.size))).field f := by
      intro f hf
      exact JsValue.field_tail fun heq => hfresh (heq ▸ hf)
    rw [IntFields.decode, IntFields.encode, JsValue.field_head (d.orZero_decode _),
      fields.encode_congr htail, d.encode_decode hd (by rw [List.length_take]; omega),
      fields.encode_decode hfields (by rw [List.length_drop]; omega), List.take_append_drop]

end

mutual

/-- What is decoded gives every leaf. -/
theorem IntDef.gives_decode : ∀ (d : IntDef) (bs : List UInt8), d.WellNamed →
    d.Gives (d.decode bs)
  | .leaf t, bs, _ => by
    rw [IntDef.decode]
    exact ⟨_, rfl⟩
  | .struct fields, bs, hnamed => by
    rw [IntDef.decode]
    exact fields.gives_decode bs hnamed

theorem IntFields.gives_decode : ∀ (fields : IntFields) (bs : List UInt8), fields.WellNamed →
    fields.Gives (.object (fields.decode bs))
  | .nil, _, _ => trivial
  | .cons name d fields, bs, ⟨_, hfresh, hd, hfields⟩ => by
    rw [IntFields.decode]
    refine ⟨⟨_, JsValue.property_head⟩, ?_, ?_⟩
    · rw [JsValue.field_head (d.orZero_decode _)]
      exact d.gives_decode _ hd
    · refine fields.gives_congr ?_ (fields.gives_decode (bs.drop d.type.size) hfields)
      intro f hf
      have hne : f ≠ name := fun heq => hfresh (heq ▸ hf)
      exact (JsValue.property_tail hne).symm

end

end NoGround
