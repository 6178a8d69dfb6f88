/-
  Js/DataView.lean --- the part of the language that platforms/js/cwat.js is written with: values,
  exceptions, and `DataView`.

  STATE.  A program runs over the bytes of one `ArrayBuffer`.  An exception leaves them as they
  were when it was thrown.

  VALUES.  Numbers are integers, as far as a `DataView` is concerned: a setter reduces what it
  is given modulo the size of its type, and `NaN` to zero.  Objects are lists of their own
  properties in the order in which they were created.  What goes through a prototype, or
  through the string that an object or an array converts to, is not modelled and ends a run
  with `notModelled`, so no result is claimed for it.
-/
import NoGround.Lib.Proc
import NoGround.Lib.Slices

set_option autoImplicit false

namespace NoGround

open NoGround.Lib

/-! ## Values -/

/-- What a program throws. -/
inductive JsError where
  | error
  | typeError
  | rangeError
  /-- the run reached something outside the model -/
  | notModelled
  deriving DecidableEq, Repr

/-- A value. -/
inductive JsValue where
  | undefined
  | null
  | number (n : Int)
  | bigint (n : Int)
  | array (items : List JsValue)
  | object (properties : List (String × JsValue))

/-- A program over the bytes of a buffer. -/
abbrev Js (α : Type) : Type := Proc JsError Block Empty α

namespace JsValue

/-- The names that every object inherits. -/
def inherited : List String :=
  ["constructor", "hasOwnProperty", "isPrototypeOf", "propertyIsEnumerable", "toLocaleString",
    "toString", "valueOf", "__defineGetter__", "__defineSetter__", "__lookupGetter__",
    "__lookupSetter__", "__proto__", "toExponential", "toFixed", "toPrecision"]

/-- A property that a value has no own one of. -/
def inherit (name : String) : Except JsError JsValue :=
  if name ∈ inherited then .error .notModelled else .ok undefined

/-- `value[name]`. -/
def property (value : JsValue) (name : String) : Except JsError JsValue :=
  match value with
  | undefined => .error .typeError
  | null => .error .typeError
  | number _ => inherit name
  | bigint _ => inherit name
  | array _ => .error .notModelled
  | object properties =>
      match properties.lookup name with
      | some value => .ok value
      | none => inherit name

/-- `value ?? 0`. -/
def orZero : JsValue → JsValue
  | undefined => number 0
  | null => number 0
  | value => value

/-- Assign to a property of an object; a new one comes last, and `__proto__` is none. -/
def assign (properties : List (String × JsValue)) (name : String) (value : JsValue) :
    List (String × JsValue) :=
  if name = "__proto__" then properties
  else if properties.any (·.1 = name) then
    properties.map fun p => if p.1 = name then (name, value) else p
  else properties ++ [(name, value)]

/-- `ToNumber`, up to what a setter makes of it. -/
def toNumber : JsValue → Except JsError Int
  | undefined => .ok 0
  | null => .ok 0
  | number n => .ok n
  | bigint _ => .error .typeError
  | array _ => .error .notModelled
  | object _ => .error .notModelled

end JsValue

/-! ## DataView -/

/-- A `DataView`, over the buffer of the state. -/
structure DataView where
  byteOffset : Nat
  byteLength : Nat

/-- `new DataView(buffer, ptr, size)`. -/
def newDataView (ptr : Nat) (size : Option Nat) : Js DataView := do
  let length ← Proc.step fun b : Block => (b.size, b)
  if length < ptr then Proc.halt .rangeError
  else
    match size with
    | none => return ⟨ptr, length - ptr⟩
    | some size =>
        if length < ptr + size then Proc.halt .rangeError else return ⟨ptr, size⟩

/-- A type of `DataView` element. -/
structure ElementType where
  size : Nat
  signed : Bool

/-- The number of a word. -/
def ElementType.value (type : ElementType) (word : Nat) : Int :=
  if type.signed then (word : Int).bmod (256 ^ type.size) else word

/-- The word of a number. -/
def ElementType.word (type : ElementType) (n : Int) : Nat := (n % (256 ^ type.size : Nat)).toNat

/-- What the getters and the setters of `DataView.prototype` are. -/
abbrev Getter : Type := DataView → Nat → Bool → Js JsValue
abbrev Setter : Type := DataView → Nat → JsValue → Bool → Js Unit

/-- `GetViewValue`. -/
def getViewValue (type : ElementType) : Getter := fun view index littleEndian => do
  if view.byteLength < index + type.size then Proc.halt .rangeError
  else do
    let bytes ← Proc.step fun b : Block => (b.slice (view.byteOffset + index) type.size, b)
    return .number (type.value (if littleEndian then natLE bytes else natBE bytes))

/-- `SetViewValue`: the value is converted before the range is checked. -/
def setViewValue (type : ElementType) : Setter := fun view index value littleEndian => do
  let n ← Proc.ofExcept value.toNumber
  if view.byteLength < index + type.size then Proc.halt .rangeError
  else
    let word := type.word n
    Proc.modify fun b => b.write (view.byteOffset + index)
      (if littleEndian then bytesLE type.size word else bytesBE type.size word)

def Int8 : ElementType := ⟨1, true⟩
def Uint8 : ElementType := ⟨1, false⟩
def Int16 : ElementType := ⟨2, true⟩
def Uint16 : ElementType := ⟨2, false⟩
def Int32 : ElementType := ⟨4, true⟩
def Uint32 : ElementType := ⟨4, false⟩

end NoGround
