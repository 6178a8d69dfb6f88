/-
  Js/Arrays.lean --- platforms/js/cwat.js: all objects of `CTypes`, and `CArray`.

  HOST.  A typed array reads its elements in the byte order of the machine it runs on.  How a
  float is stored is outside the model, where numbers are integers: a float setter leaves some
  bytes, as many as the float has, and they may differ from place to place.

  IDENTITY.  `CArray.get` has a typed array for some objects of `CTypes`, and tells them by
  what they are, not by what they do: a `ptr` is read item by item although it does what a
  `u32` does.  So the type of an array is a `TypeObject`.

  A typed array is taken for the list of its elements at the time it is made.
-/
import NoGround.Js.Codec

set_option autoImplicit false

namespace NoGround

open NoGround.Lib

/-! ## The host -/

/-- What the language leaves to the machine it runs on. -/
structure Host where
  /-- the byte order of typed arrays -/
  littleEndian : Bool
  /-- the bytes of the float of this size that is stored at this place -/
  floatBytes : Nat → Nat → List UInt8
  /-- the number of a float, least significant byte first -/
  floatValue : List UInt8 → JsValue
  length_floatBytes : ∀ size place, (floatBytes size place).length = size

/-- A machine with the byte order of the types. -/
def smallFirst : Host where
  littleEndian := true
  floatBytes size _ := List.replicate size 0
  floatValue _ := .undefined
  length_floatBytes _ _ := List.length_replicate

namespace Host

/-- Bytes as they are in memory, least significant first. -/
def order (host : Host) (bs : List UInt8) : List UInt8 :=
  if host.littleEndian then bs else bs.reverse

/-- `getFloat32` and `getFloat64`. -/
def getFloat (host : Host) (size : Nat) : Getter := fun view index littleEndian => do
  if view.byteLength < index + size then Proc.halt .rangeError
  else do
    let bytes ← Proc.step fun b : Block => (b.slice (view.byteOffset + index) size, b)
    return host.floatValue (if littleEndian then bytes else bytes.reverse)

/-- `setFloat32` and `setFloat64`. -/
def setFloat (host : Host) (size : Nat) : Setter := fun view index value _ => do
  let _ ← Proc.ofExcept value.toNumber
  if view.byteLength < index + size then Proc.halt .rangeError
  else
    Proc.modify fun b =>
      b.write (view.byteOffset + index) (host.floatBytes size (view.byteOffset + index))

/-- `new` for a typed array with elements of `size` bytes: the offset has to be aligned. -/
def newTypedArray (host : Host) (size : Nat) (value : List UInt8 → JsValue)
    (byteOffset length : Nat) : Js JsValue := do
  if byteOffset % size ≠ 0 then Proc.halt .rangeError
  else do
    let bytes ← Proc.step fun b : Block => (b.size, b)
    if bytes < byteOffset + length * size then Proc.halt .rangeError
    else do
      let items ← Proc.step fun b : Block =>
        ((List.range length).map fun i => value (host.order (b.slice (byteOffset + i * size) size)),
          b)
      return .array items

/-- `Uint8Array`, `Uint16Array` and `Uint32Array`. -/
def newIntArray (host : Host) (type : ElementType) : Nat → Nat → Js JsValue :=
  host.newTypedArray type.size fun bs => .number (type.value (natLE bs))

/-- `Float32Array` and `Float64Array`. -/
def newFloatArray (host : Host) (size : Nat) : Nat → Nat → Js JsValue :=
  host.newTypedArray size host.floatValue

/-- `BigUint64Array`. -/
def newBigUint64Array (host : Host) : Nat → Nat → Js JsValue :=
  host.newTypedArray 8 fun bs => .bigint (natLE bs)

end Host

/-! ## CTypes (cwat.js:97-118) -/

namespace CTypes

/-- There is no `getInt64` and no `setInt64`. -/
def i64 : CTypeBase := CType 8 none none true 0
/-- There is no `getUint64` and no `setUint64`. -/
def u64 : CTypeBase := CType 8 none none true 0
def f32 (host : Host) : CTypeBase :=
  CType 4 (some (host.getFloat 4)) (some (host.setFloat 4)) true 0
def f64 (host : Host) : CTypeBase :=
  CType 8 (some (host.getFloat 8)) (some (host.setFloat 8)) true 0

end CTypes

/-- The objects of `CTypes`. -/
inductive Scalar where
  | int (t : IntType)
  | i64
  | u64
  | f32
  | f64
  deriving DecidableEq, Repr

def Scalar.type (host : Host) : Scalar → CTypeBase
  | int t => t.type
  | i64 => CTypes.i64
  | u64 => CTypes.u64
  | f32 => CTypes.f32 host
  | f64 => CTypes.f64 host

/-- A type, as an object. -/
inductive TypeObject where
  | ctypes (object : Scalar)
  | other (type : CTypeBase)

def TypeObject.type (host : Host) : TypeObject → CTypeBase
  | ctypes object => object.type host
  | other type => type

/-! ## CArray (cwat.js:121-155) -/

/-- An item map. -/
abbrev ItemMap : Type := JsValue → Except JsError JsValue

/-- The loop of `CArray.get`, `count` items from `item` on. -/
def getItems (t : CTypeBase) (view : DataView) (offset : Nat) :
    Nat → Nat → List JsValue → Js (List JsValue)
  | 0, _, data => pure data
  | count + 1, item, data => do
    let value ← t.get view (offset + t.size * item)
    getItems t view offset count (item + 1) (data ++ [value])

/-- `this._m ? this._m(data) : data`. -/
def mapItems (item_map : Option ItemMap) (data : JsValue) : Js JsValue :=
  match item_map with
  | some item_map => Proc.ofExcept (item_map data)
  | none => return data

/-- The `switch` of `CArray.get`, without the map. -/
def arrayItems (host : Host) (t : TypeObject) (l : Nat) (view : DataView) (offset : Nat) :
    Js JsValue :=
  match t with
  | .ctypes (.int .u8) => host.newIntArray Uint8 (offset + view.byteOffset) l
  | .ctypes (.int .u16) => host.newIntArray Uint16 (offset + view.byteOffset) l
  | .ctypes (.int .u32) => host.newIntArray Uint32 (offset + view.byteOffset) l
  | .ctypes .f32 => host.newFloatArray 4 (offset + view.byteOffset) l
  | .ctypes .f64 => host.newFloatArray 8 (offset + view.byteOffset) l
  | t => do
    let data ← getItems (t.type host) view offset l 0 []
    return .array data

/-- `new CArray(type, length, item_map)`.  The array of a `u64` is returned as it is, and its
offset is that in the buffer. -/
def CArray (host : Host) (t : TypeObject) (l : Nat) (item_map : Option ItemMap) :
    CTypeBase where
  size := (t.type host).size * l
  get view offset :=
    match t with
    | .ctypes .u64 => host.newBigUint64Array offset l
    | t => do
      let data ← arrayItems host t l view offset
      mapItems item_map data
  set _ _ _ := Proc.halt .error

/-- `CTypes.str`; the decoder is the whole map. -/
def CTypes.str (host : Host) (length : Nat) (decoder : ItemMap) : CTypeBase :=
  CArray host (.ctypes (.int .u8)) length (some decoder)

/-! ## Typed arrays -/

section TypedArrays

variable (host : Host) (value : List UInt8 → JsValue) {size byteOffset : Nat} {b : Block}

/-- The elements of a typed array, from an aligned offset. -/
theorem newTypedArray_aligned {length : Nat} (halign : size ∣ byteOffset)
    (hroom : byteOffset + length * size ≤ b.size) :
    host.newTypedArray size value byteOffset length b =
      ⟨.ok (.array ((List.range length).map fun i =>
        value (host.order (b.slice (byteOffset + i * size) size)))), b, []⟩ := by
  unfold Host.newTypedArray
  rw [if_neg (not_not.mpr (Nat.mod_eq_zero_of_dvd halign)), Proc.step_bind_run,
    if_neg (Nat.not_lt.mpr hroom), Proc.step_bind_run]
  rfl

/-- There is no typed array at another offset. -/
theorem newTypedArray_unaligned (length : Nat) (halign : ¬ size ∣ byteOffset) :
    host.newTypedArray size value byteOffset length b = ⟨.error .rangeError, b, []⟩ := by
  unfold Host.newTypedArray
  rw [if_pos fun hmod => halign (Nat.dvd_of_mod_eq_zero hmod)]
  rfl

end TypedArrays

end NoGround
