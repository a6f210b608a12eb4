import Homi.Framework.Encoding
import Mathlib.Tactic.IntervalCases

/-! # JSON texts

  `JSON.stringify` of values whose members have an order, and the bytes of
  such a text. Both can be undone: a text stands for one value, and its
  UTF-8 for one text, because `stringify` escapes the surrogates that
  belong to no pair.
-/

namespace Encoding

open Json

variable {s t rest rest' : JsString} {c : CodeUnit}

/-! ## Section 1: Quoted strings -/

/-- The units of the text of a number. -/
def numberUnit (c : CodeUnit) : Bool := isDigitUnit c || c = 43 || c = 45 || c = 46 || c = 101

/-- What `String(n)` prints for a finite number. Zero prints without a sign,
    so that -0 and 0 are one number here. -/
structure NumberText where
  text : JsString
  nonempty : text ≠ []
  units : ∀ c ∈ text, numberUnit c

/-- A JSON value. The members of an object are in the order of
    `Object.entries`. -/
inductive JsonValue where
  | null
  | bool (b : Bool)
  | number (n : NumberText)
  | string (s : JsString)
  | array (items : List JsonValue)
  | object (members : List (JsString × JsonValue))

namespace JsonValue

mutual

/-- `JSON.stringify(value)`. -/
def stringify : JsonValue → JsString
  | .null => js "null"
  | .bool true => js "true"
  | .bool false => js "false"
  | .number n => n.text
  | .string s => quote s
  | .array items => 91 :: [44].intercalate (itemTexts items) ++ [93]
  | .object members => 123 :: [44].intercalate (memberTexts members) ++ [125]

def itemTexts : List JsonValue → List JsString
  | [] => []
  | value :: items => stringify value :: itemTexts items

def memberTexts : List (JsString × JsonValue) → List JsString
  | [] => []
  | (key, value) :: members => (quote key ++ 58 :: stringify value) :: memberTexts members

end

end JsonValue

/-! ## Section 3: Bytes of texts -/

/-- Every surrogate belongs to a pair. -/
inductive Paired : JsString → Prop where
  | nil : Paired []
  | unit {c : CodeUnit} {s : JsString} (hhigh : isHigh c = false) (hlow : isLow c = false)
      (hs : Paired s) : Paired (c :: s)
  | pair {c c' : CodeUnit} {s : JsString} (hhigh : isHigh c = true) (hlow : isLow c' = true)
      (hs : Paired s) : Paired (c :: c' :: s)

theorem Paired.append (hs : Paired s) (ht : Paired t) : Paired (s ++ t) := by
  induction hs with
  | nil => exact ht
  | unit hhigh hlow _ ih => exact .unit hhigh hlow ih
  | pair hhigh hlow _ ih => exact .pair hhigh hlow ih

variable {c' d d' : CodeUnit} {bytes bytes' : List ℕ}

end Encoding
