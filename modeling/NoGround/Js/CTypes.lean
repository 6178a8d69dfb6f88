/-
  Js/CTypes.lean --- platforms/js/cwat.js: the types of C data in a buffer, and `CMemView`.

  A type is a record of its size and its two methods.  `CType` and `CStruct` make such
  records, as the classes do.  `Object.entries` of a struct definition is a list of names and
  types, in the order in which the language enumerates them.

  A getter or setter is looked up on `DataView.prototype` by its name, and is missing if there
  is no method of this name; the call then throws.
-/
import NoGround.Js.DataView

set_option autoImplicit false

namespace NoGround

open NoGround.Lib

/-! ## CTypeBase, CType (cwat.js:1-46) -/

/-- `CTypeBase`. -/
structure CTypeBase where
  size : Nat
  get : DataView → Nat → Js JsValue
  set : DataView → JsValue → Nat → Js Unit

/-- `new CType(size_bytes, getter, setter, litt_endian, offset)`. -/
def CType (size_bytes : Nat) (getter : Option Getter) (setter : Option Setter)
    (litt_endian : Bool) (own_offset : Nat) : CTypeBase where
  size := size_bytes
  get view offset :=
    match getter with
    | none => Proc.halt .typeError
    | some getter => getter view (own_offset + offset) litt_endian
  set view data offset :=
    match setter with
    | none => Proc.halt .typeError
    | some setter => setter view (own_offset + offset) data litt_endian

/-! ## CStruct (cwat.js:48-89) -/

/-- `structd_size`. -/
def structd_size (struct_def : List (String × CTypeBase)) : Nat :=
  struct_def.foldl (fun s entry => s + entry.2.size) 0

/-- The fold of `CStruct.get`. -/
def getFields (view : DataView) (offset : Nat) :
    List (String × CTypeBase) → Nat → List (String × JsValue) → Js (List (String × JsValue))
  | [], _, data => pure data
  | (f, td) :: fields, bs, data => do
    let value ← td.get view (bs + offset)
    getFields view offset fields (bs + td.size) (JsValue.assign data f value)

/-- The fold of `CStruct.set`. -/
def setFields (view : DataView) (data : JsValue) (offset : Nat) :
    List (String × CTypeBase) → Nat → Js Unit
  | [], _ => pure ()
  | (f, td) :: fields, bs => do
    let value ← Proc.ofExcept (data.property f)
    td.set view value.orZero (bs + offset)
    setFields view data offset fields (bs + td.size)

/-- `new CStruct(fields)`. -/
def CStruct (fields : List (String × CTypeBase)) : CTypeBase where
  size := structd_size fields
  get view offset := do
    let data ← getFields view offset fields 0 []
    return .object data
  set view data offset := setFields view data offset fields 0

/-! ## CTypes (cwat.js:97-111) -/

namespace CTypes

def i8 : CTypeBase := CType 1 (some (getViewValue Int8)) (some (setViewValue Int8)) true 0
def u8 : CTypeBase := CType 1 (some (getViewValue Uint8)) (some (setViewValue Uint8)) true 0
/-- The setter is the unsigned one. -/
def i16 : CTypeBase := CType 2 (some (getViewValue Int16)) (some (setViewValue Uint16)) true 0
def u16 : CTypeBase := CType 2 (some (getViewValue Uint16)) (some (setViewValue Uint16)) true 0
def i32 : CTypeBase := CType 4 (some (getViewValue Int32)) (some (setViewValue Int32)) true 0
def u32 : CTypeBase := CType 4 (some (getViewValue Uint32)) (some (setViewValue Uint32)) true 0
def ptr : CTypeBase := CType 4 (some (getViewValue Uint32)) (some (setViewValue Uint32)) true 0

end CTypes

/-! ## CMemView (cwat.js:157-188) -/

namespace CMemView

/-- `CMemView.view`; the buffer is that of the state. -/
def view (ptr : Nat) (size : Option Nat) : Js DataView := newDataView ptr size

/-- `CMemView.set`. -/
def set (ptr : Nat) (type : CTypeBase) (data : JsValue) : Js Unit := do
  let v ← view ptr (some type.size)
  type.set v data 0

/-- `CMemView.get`. -/
def get (ptr : Nat) (type : CTypeBase) : Js JsValue := do
  let v ← view ptr (some type.size)
  type.get v 0

end CMemView

end NoGround
