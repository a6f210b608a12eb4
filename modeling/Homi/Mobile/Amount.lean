import Homi.Domain.Schedule
import Homi.Domain.Split
import Homi.Framework.Double
import Homi.Framework.Regex
import Mathlib.Data.List.DropRight

/-! # Typed amounts

  `apps/mobile/src/ui/amount.ts`: reading an amount that was typed, and
  writing one that a route parameter gives.
-/

namespace Homi.Mobile

/-! ## Section 1: Strings and numbers -/

/-- What `trim` removes: `WhiteSpace` and `LineTerminator`. -/
def spaces : List CodeUnit :=
  [9, 10, 11, 12, 13, 32, 160, 5760, 8192, 8193, 8194, 8195, 8196, 8197, 8198, 8199, 8200, 8201, 8202,
    8232, 8233, 8239, 8287, 12288, 65279]

def isSpace (c : CodeUnit) : Bool := c ∈ spaces

def trim (s : JsString) : JsString := (s.dropWhile isSpace).rdropWhile isSpace

/-- `s.padEnd(width, '0')`. -/
def padEnd (width : ℕ) (s : JsString) : JsString := s ++ List.replicate (width - s.length) 48

/-- `Number(s)` for a string of digits, which is a double. -/
def toNumber (s : JsString) : JsNumber :=
  match Double.nearest (numberOf s).toNat with
  | some n => .int n
  | none => .other

/-! ## Section 2: The pattern -/

/-- The characters with a meaning in a pattern. -/
def syntaxCharacters : List CodeUnit := js ".*+?^$\x7b\x7d()|[]\\"

def backslash : CodeUnit := 92

def pipe : CodeUnit := 124

def escapeRegExp (value : JsString) : JsString :=
  value.flatMap fun c => if c ∈ syntaxCharacters then [backslash, c] else [c]

/-- Puts `c` in front of the first text. -/
def enter (c : CodeUnit) : List JsString → List JsString
  | [] => [[c]]
  | text :: texts => (c :: text) :: texts

/-- The texts that a pattern stands for, if it is made of texts with `|`
    between them. `escaped` after a backslash. -/
def readTexts (escaped : Bool) : JsString → Option (List JsString)
  | [] => if escaped then none else some [[]]
  | c :: cs =>
      if escaped then
        if c ∈ syntaxCharacters then (readTexts false cs).map (enter c) else none
      else if c = backslash then readTexts true cs
      else if c = pipe then (readTexts false cs).map ([] :: ·)
      else if c ∈ syntaxCharacters then none
      else (readTexts false cs).map (enter c)

/-- `/^(\d*)(?:(?:a|b|c)(\d{0,2}))?$/`, for some texts. -/
def amountShape (texts : List JsString) : Regex CodeUnit :=
  .seq (.group 1 (.many isDigit))
    (.seq (.opt (.seq (.oneOf texts) (.group 2 (.upTo isDigit 2)))) .stop)

/-- The same, for the texts of a pattern. -/
def amountRegExp (sep : JsString) : Option (Regex CodeUnit) := (readTexts false sep).map amountShape

/-! ## Section 3: The code -/

def MAX_AMOUNT_CENTS : ℤ := 10000000000

def parseCents (input decimalSeparator : JsString) : Option ℤ :=
  let text := trim input
  let separators := [js ".", decimalSeparator].eraseDups
  let sep := [pipe].intercalate (separators.map escapeRegExp)
  match (amountRegExp sep).bind fun r => r.exec text with
  | none => none
  | some groups =>
      let whole := (groups 1).getD []
      let fraction := (groups 2).getD []
      if whole.length = 0 ∧ fraction.length = 0 then none
      else
        let cents := toNumber ((if whole = [] then js "0" else whole) ++ padEnd 2 fraction)
        match cents.safe? with
        | none => none
        | some cents => if cents > MAX_AMOUNT_CENTS then none else some cents

def parseAmount (input decimalSeparator : JsString) : Option ℤ :=
  match parseCents input decimalSeparator with
  | none => none
  | some cents => if cents > 0 then some cents else none

/-- `string | string[] | undefined`. -/
inductive RouteParam where
  | text (s : JsString)
  | repeated (ss : List JsString)
  | missing

def centsParamToInput : RouteParam → JsString
  | .text param =>
      if ¬ (param ≠ [] ∧ param.all isDigit) then []
      else match (toNumber param).safe? with
        | none => []
        | some cents =>
            if cents ≤ 0 ∨ cents > MAX_AMOUNT_CENTS then []
            else JsString.decimal (cents / 100) ++ 46 :: padStart 2 (cents % 100)
  | _ => []

end Homi.Mobile
