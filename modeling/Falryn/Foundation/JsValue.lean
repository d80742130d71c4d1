import Mathlib

/-!
# Untyped input values

Every parser of the repository starts from a value of type `unknown`.  `JsValue` is what such a value
can be once functions and symbols are left out: no parser accepts one of those.  Numbers are the
finite ones, kept exact; the parsers send `NaN` and the infinities where they send any number that
is not an integer.
-/

namespace Falryn

/-- A value of type `unknown`. -/
inductive JsValue where
  | undefined
  | null
  | bool (value : Bool)
  | number (value : ℚ)
  | string (value : String)
  | array (items : List JsValue)
  | object (fields : List (String × JsValue))

namespace JsValue

/-- Reading a property.  A missing property of a record reads as `undefined`. -/
def field : JsValue → String → JsValue
  | object fields, name => (fields.lookup name).getD undefined
  | _, _ => undefined

/-- `isRecord`: an object that is neither `null` nor an array. -/
def isRecord : JsValue → Bool
  | object _ => true
  | _ => false

/-- `value === undefined`. -/
def isUndefined : JsValue → Bool
  | undefined => true
  | _ => false

/-- `left ?? right`. -/
def orElse : JsValue → JsValue → JsValue
  | undefined, right => right
  | null, right => right
  | left, _ => left

/-- `Number.isSafeInteger`, with the integer it found. -/
def safeInteger? : JsValue → Option ℤ
  | number q => if q.den = 1 ∧ |q.num| ≤ 2 ^ 53 - 1 then some q.num else none
  | _ => none

end JsValue

/-- `text.length`: the number of UTF-16 code units. -/
def utf16Length (text : String) : ℕ :=
  (text.toList.map fun c => if c.val < 0x10000 then 1 else 2).sum

/-- `text.includes(c)` for one character. -/
def includesChar (text : String) (c : Char) : Bool := text.toList.contains c

/-- A text as JavaScript holds it: its UTF-16 code units. -/
abbrev CodeUnits := List UInt16

/-- The code units of a text that has none above the basic plane. -/
def codeUnits (text : String) : CodeUnits := text.toList.map fun c => c.val.toUInt16

end Falryn
