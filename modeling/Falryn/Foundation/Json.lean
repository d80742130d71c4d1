import Falryn.Foundation.JsValue

/-!
# JSON texts

`JSON.stringify` writes a value as a text.  Two texts it writes are the same exactly when they have the
same numbers, strings and keys in the same order, so a text is held here as its tree: `Json`.  What
the writer drops is dropped on the way to the tree.
-/

namespace Falryn

/-- A text that `JSON.stringify` wrote. -/
inductive Json where
  | null
  | bool (value : Bool)
  | number (value : ℚ)
  | string (value : String)
  | array (items : List Json)
  | object (fields : List (String × Json))

namespace Json

/-! ## Comparing texts -/

mutual

/-- Two texts are the same. -/
def same : Json → Json → Bool
  | null, null => true
  | bool a, bool b => a == b
  | number a, number b => a == b
  | string a, string b => a == b
  | array as, array bs => sameItems as bs
  | object as, object bs => sameFields as bs
  | _, _ => false

/-- The items of two arrays are the same. -/
def sameItems : List Json → List Json → Bool
  | [], [] => true
  | a :: as, b :: bs => same a b && sameItems as bs
  | _, _ => false

/-- The fields of two objects are the same, in the same order. -/
def sameFields : List (String × Json) → List (String × Json) → Bool
  | [], [] => true
  | (k, a) :: as, (l, b) :: bs => k == l && same a b && sameFields as bs
  | _, _ => false

end

mutual

theorem same_iff : ∀ a b : Json, same a b = true ↔ a = b
  | null, b => by cases b <;> simp [same]
  | bool a, b => by cases b <;> simp [same]
  | number a, b => by cases b <;> simp [same]
  | string a, b => by cases b <;> simp [same]
  | array as, b => by cases b <;> simp [same, sameItems_iff as]
  | object as, b => by cases b <;> simp [same, sameFields_iff as]

theorem sameItems_iff : ∀ as bs : List Json, sameItems as bs = true ↔ as = bs
  | [], bs => by cases bs <;> simp [sameItems]
  | a :: as, bs => by cases bs <;> simp [sameItems, same_iff a, sameItems_iff as]

theorem sameFields_iff : ∀ as bs : List (String × Json), sameFields as bs = true ↔ as = bs
  | [], bs => by cases bs <;> simp [sameFields]
  | (k, a) :: as, bs => by
    rcases bs with _ | ⟨⟨l, b⟩, bs⟩ <;> simp [sameFields, same_iff a, sameFields_iff as]

end

instance : DecidableEq Json := fun a b => decidable_of_iff _ (same_iff a b)

end Json

namespace JsValue

/-! ## Writing a value -/

mutual

/-- `JSON.stringify`.  A value that is `undefined` has no text. -/
def stringify : JsValue → Option Json
  | undefined => none
  | null => some .null
  | bool value => some (.bool value)
  | number value => some (.number value)
  | string value => some (.string value)
  | array items => some (.array (stringifyItems items))
  | object fields => some (.object (stringifyFields fields))

/-- An item without a text is written as `null`. -/
def stringifyItems : List JsValue → List Json
  | [] => []
  | item :: items => (stringify item).getD .null :: stringifyItems items

/-- A field without a text is left out. -/
def stringifyFields : List (String × JsValue) → List (String × Json)
  | [] => []
  | (key, value) :: fields =>
    match stringify value with
    | none => stringifyFields fields
    | some text => (key, text) :: stringifyFields fields

end

/-- Whether a value is a given string. -/
def isString (value : JsValue) (text : String) : Bool :=
  match value with
  | string found => found == text
  | _ => false

end JsValue

end Falryn
