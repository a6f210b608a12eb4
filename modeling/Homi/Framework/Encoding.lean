import Homi.Framework.JsString

/-! # Texts as bytes

  The encodings behind an opaque token, as Node and the JSON grammar have
  them:

  * `utf8Encode` / `utf8Decode`: a lone surrogate or a malformed sequence
    becomes U+FFFD.
  * `toBase64url` / `ofBase64url`: without padding; reading skips what is
    not in either alphabet.
  * `Json.parse` and `Json.quote`.

  Texts of plain ASCII pass through all of them unchanged.
-/

namespace Encoding

def unit (n : ℕ) : CodeUnit := Fin.ofNat 65536 n

/-- Code units below 128. -/
def Ascii (s : JsString) : Prop := ∀ c ∈ s, (c : ℕ) < 128

/-! ## Section 1: UTF-8 -/

def isHigh (c : CodeUnit) : Bool := 0xD800 ≤ c.val && c.val ≤ 0xDBFF

def isLow (c : CodeUnit) : Bool := 0xDC00 ≤ c.val && c.val ≤ 0xDFFF

/-- The bytes of a code unit that is no part of a pair. -/
def utf8Unit (c : CodeUnit) : List ℕ :=
  let n := c.val
  if n < 0x80 then [n]
  else if n < 0x800 then [0xC0 + n / 64, 0x80 + n % 64]
  else if isHigh c || isLow c then [0xEF, 0xBF, 0xBD]
  else [0xE0 + n / 4096, 0x80 + n / 64 % 64, 0x80 + n % 64]

/-- The bytes of a surrogate pair. -/
def utf8Pair (high low : CodeUnit) : List ℕ :=
  let n := 0x10000 + (high.val - 0xD800) * 1024 + (low.val - 0xDC00)
  [0xF0 + n / 262144, 0x80 + n / 4096 % 64, 0x80 + n / 64 % 64, 0x80 + n % 64]

/-- `Buffer.from(s)`. -/
def utf8Encode : JsString → List ℕ
  | [] => []
  | c :: rest => match rest with
      | [] => utf8Unit c
      | c' :: rest' =>
          if isHigh c && isLow c' then utf8Pair c c' ++ utf8Encode rest'
          else utf8Unit c ++ utf8Encode (c' :: rest')

/-- An unfinished sequence: how many bytes are missing, the code point so
    far, and the range of the next byte. -/
structure Pending where
  more : ℕ
  code : ℕ
  lower : ℕ := 0x80
  upper : ℕ := 0xBF

/-- The code units of a code point. -/
def unitsOf (n : ℕ) : JsString :=
  if n < 0x10000 then [unit n]
  else [unit (0xD800 + (n - 0x10000) / 1024), unit (0xDC00 + (n - 0x10000) % 1024)]

/-- The first byte of a sequence: what it finishes or starts. -/
def utf8Start (b : ℕ) : JsString × Option Pending :=
  if b < 0x80 then ([unit b], none)
  else if 0xC2 ≤ b ∧ b ≤ 0xDF then ([], some { more := 1, code := b % 32 })
  else if b = 0xE0 then ([], some { more := 2, code := 0, lower := 0xA0 })
  else if b = 0xED then ([], some { more := 2, code := 13, upper := 0x9F })
  else if 0xE1 ≤ b ∧ b ≤ 0xEF then ([], some { more := 2, code := b % 16 })
  else if b = 0xF0 then ([], some { more := 3, code := 0, lower := 0x90 })
  else if b = 0xF4 then ([], some { more := 3, code := 4, upper := 0x8F })
  else if 0xF1 ≤ b ∧ b ≤ 0xF3 then ([], some { more := 3, code := b % 8 })
  else ([0xFFFD], none)

/-- Decoding from the middle of a sequence. -/
def utf8Go : Option Pending → List ℕ → JsString
  | none, [] => []
  | some _, [] => [0xFFFD]
  | none, b :: bs => (utf8Start b).1 ++ utf8Go (utf8Start b).2 bs
  | some p, b :: bs =>
      if p.lower ≤ b ∧ b ≤ p.upper then
        let code := p.code * 64 + b % 64
        if p.more = 1 then unitsOf code ++ utf8Go none bs
        else utf8Go (some { more := p.more - 1, code := code }) bs
      else 0xFFFD :: (utf8Start b).1 ++ utf8Go (utf8Start b).2 bs

/-- `buffer.toString()`. -/
def utf8Decode (bytes : List ℕ) : JsString := utf8Go none bytes

theorem utf8Encode_ascii {s : JsString} (h : Ascii s) : utf8Encode s = s.map Fin.val := by
  have hunit : ∀ c : CodeUnit, (c : ℕ) < 128 → utf8Unit c = [c.val] := fun c hc => if_pos hc
  induction s with
  | nil => rfl
  | cons c rest ih =>
    have hrest : Ascii rest := fun x hx => h x (List.mem_cons_of_mem _ hx)
    have hc := h c (List.mem_cons_self ..)
    cases rest with
    | nil => exact hunit c hc
    | cons c' rest' =>
      have hhigh : isHigh c = false := by
        unfold isHigh
        rw [decide_eq_false (by omega : ¬ 0xD800 ≤ c.val), Bool.false_and]
      rw [utf8Encode, hhigh, Bool.false_and, if_neg Bool.false_ne_true, hunit c hc, ih hrest]
      rfl

theorem unit_val (c : CodeUnit) : unit c.val = c := Fin.ofNat_val_eq_self c

theorem utf8Decode_ascii {s : JsString} (h : Ascii s) : utf8Decode (s.map Fin.val) = s := by
  induction s with
  | nil => rfl
  | cons c rest ih =>
    have hc := h c (List.mem_cons_self ..)
    have hstart : utf8Start c.val = ([c], none) := by rw [utf8Start, if_pos hc, unit_val]
    show (utf8Start c.val).1 ++ utf8Go (utf8Start c.val).2 (rest.map Fin.val) = c :: rest
    rw [hstart]
    exact congrArg (c :: ·) (ih fun x hx => h x (List.mem_cons_of_mem _ hx))

/-! ## Section 2: base64url -/

/-- The alphabet of `base64url`. -/
def base64Units : JsString :=
  js "ABCDEFGHIJKLMNOPQRSTUVWXYZabcdefghijklmnopqrstuvwxyz0123456789-_"

def base64Unit (n : ℕ) : CodeUnit := base64Units.getD n 0

/-- The value of a unit in one of the two alphabets. -/
def base64Value (c : CodeUnit) : Option ℕ :=
  if 65 ≤ c.val ∧ c.val ≤ 90 then some (c.val - 65)
  else if 97 ≤ c.val ∧ c.val ≤ 122 then some (c.val - 71)
  else if 48 ≤ c.val ∧ c.val ≤ 57 then some (c.val + 4)
  else if c.val = 45 ∨ c.val = 43 then some 62
  else if c.val = 95 ∨ c.val = 47 then some 63
  else none

/-- Three bytes are four groups of six bits. -/
def sextets : List ℕ → List ℕ
  | a :: b :: c :: rest =>
      [a / 4, a % 4 * 16 + b / 16, b % 16 * 4 + c / 64, c % 64] ++ sextets rest
  | [a, b] => [a / 4, a % 4 * 16 + b / 16, b % 16 * 4]
  | [a] => [a / 4, a % 4 * 16]
  | [] => []

def octets : List ℕ → List ℕ
  | a :: b :: c :: d :: rest =>
      [a * 4 + b / 16, b % 16 * 16 + c / 4, c % 4 * 64 + d] ++ octets rest
  | [a, b, c] => [a * 4 + b / 16, b % 16 * 16 + c / 4]
  | [a, b] => [a * 4 + b / 16]
  | _ => []

/-- `buffer.toString('base64url')`. -/
def toBase64url (bytes : List ℕ) : JsString := (sextets bytes).map base64Unit

/-- `Buffer.from(raw, 'base64url')`. -/
def ofBase64url (raw : JsString) : List ℕ := octets (raw.filterMap base64Value)

theorem sextets_lt {bytes : List ℕ} (h : ∀ b ∈ bytes, b < 256) : ∀ n ∈ sextets bytes, n < 64 := by
  fun_induction sextets bytes with
  | case1 a b c rest ih =>
    simp only [List.mem_cons, forall_eq_or_imp] at h
    obtain ⟨ha, hb, hc, hrest⟩ := h
    intro n hn
    rcases List.mem_append.mp hn with hn | hn
    · simp only [List.mem_cons, List.not_mem_nil, or_false] at hn
      omega
    · exact ih hrest n hn
  | case2 a b =>
    simp only [List.mem_cons, forall_eq_or_imp, List.not_mem_nil, false_imp_iff] at h
    intro n hn
    simp only [List.mem_cons, List.not_mem_nil, or_false] at hn
    omega
  | case3 a =>
    have ha := h a (List.mem_singleton_self a)
    intro n hn
    simp only [List.mem_cons, List.not_mem_nil, or_false] at hn
    omega
  | case4 => intro n hn; cases hn

theorem octets_sextets {bytes : List ℕ} (h : ∀ b ∈ bytes, b < 256) :
    octets (sextets bytes) = bytes := by
  fun_induction sextets bytes with
  | case1 a b c rest ih =>
    simp only [List.mem_cons, forall_eq_or_imp] at h
    obtain ⟨ha, hb, hc, hrest⟩ := h
    show [_, _, _] ++ octets (sextets rest) = _
    rw [ih hrest]
    simp only [List.cons_append, List.nil_append, List.cons.injEq, and_true]
    omega
  | case2 a b =>
    simp only [List.mem_cons, forall_eq_or_imp, List.not_mem_nil, false_imp_iff] at h
    show [_, _] = [a, b]
    simp only [List.cons.injEq, and_true]
    omega
  | case3 a =>
    show [_] = [a]
    have ha := h a (List.mem_singleton_self a)
    simp only [List.cons.injEq, and_true]
    omega
  | case4 => rfl

theorem base64Value_unit {n : ℕ} (h : n < 64) : base64Value (base64Unit n) = some n := by
  have hall : ∀ n : Fin 64, base64Value (base64Unit n) = some n.val := by
    decide +kernel
  exact hall ⟨n, h⟩

theorem ofBase64url_toBase64url {bytes : List ℕ} (h : ∀ b ∈ bytes, b < 256) :
    ofBase64url (toBase64url bytes) = bytes := by
  have hvalues : (toBase64url bytes).filterMap base64Value = sextets bytes := by
    rw [toBase64url, List.filterMap_map]
    refine (List.filterMap_congr fun n hn => ?_).trans List.filterMap_some
    exact base64Value_unit (sextets_lt h n hn)
  rw [ofBase64url, hvalues, octets_sextets h]

/-- A token of plain ASCII reads back. -/
theorem token_roundTrip {s : JsString} (h : Ascii s) :
    utf8Decode (ofBase64url (toBase64url (utf8Encode s))) = s := by
  rw [utf8Encode_ascii h, ofBase64url_toBase64url, utf8Decode_ascii h]
  intro b hb
  obtain ⟨c, hc, rfl⟩ := List.mem_map.mp hb
  have := h c hc
  omega

/-! ## Section 3: JSON -/

/-- A JSON value. The value of a number is not kept. -/
inductive Json where
  | null
  | bool (b : Bool)
  | number
  | string (s : JsString)
  | array (items : List Json)
  | object (fields : List (JsString × Json))

namespace Json

def quoteMark : CodeUnit := 34

def backslash : CodeUnit := 92

/-- `\xHHHH`, less the first two units, in lower case. -/
def hex4 (n : ℕ) : JsString :=
  [n / 4096 % 16, n / 256 % 16, n / 16 % 16, n % 16].map fun d =>
    unit (if d < 10 then 48 + d else 87 + d)

/-- One unit of a quoted string. -/
def quoteUnit (c : CodeUnit) : JsString :=
  if c = quoteMark then [backslash, quoteMark]
  else if c = backslash then [backslash, backslash]
  else if c = 8 then [backslash, 98]
  else if c = 12 then [backslash, 102]
  else if c = 10 then [backslash, 110]
  else if c = 13 then [backslash, 114]
  else if c = 9 then [backslash, 116]
  else if c < 32 then backslash :: 117 :: hex4 c.val
  else [c]

/-- A unit that is no part of a pair. -/
def quoteLone (c : CodeUnit) : JsString :=
  if isHigh c || isLow c then backslash :: 117 :: hex4 c.val else quoteUnit c

def quoteBody : JsString → JsString
  | [] => []
  | c :: rest => match rest with
      | [] => quoteLone c
      | c' :: rest' =>
          if isHigh c && isLow c' then c :: c' :: quoteBody rest'
          else quoteLone c ++ quoteBody (c' :: rest')

/-- `JSON.stringify(s)` of a string. -/
def quote (s : JsString) : JsString := quoteMark :: quoteBody s ++ [quoteMark]

def hexValue (c : CodeUnit) : Option ℕ :=
  if 48 ≤ c.val ∧ c.val ≤ 57 then some (c.val - 48)
  else if 97 ≤ c.val ∧ c.val ≤ 102 then some (c.val - 87)
  else if 65 ≤ c.val ∧ c.val ≤ 70 then some (c.val - 55)
  else none

/-- The unit of a one-letter escape. -/
def escaped (c : CodeUnit) : Option CodeUnit :=
  if c = quoteMark ∨ c = backslash ∨ c = 47 then some c
  else if c = 98 then some 8
  else if c = 102 then some 12
  else if c = 110 then some 10
  else if c = 114 then some 13
  else if c = 116 then some 9
  else none

/-- What comes after the opening mark, up to the closing one, and the rest. -/
def parseString : JsString → Option (JsString × JsString)
  | [] => none
  | c :: rest =>
      if c = quoteMark then some ([], rest)
      else if c = backslash then match rest with
        | [] => none
        | 117 :: a :: b :: d :: e :: rest' =>
            match hexValue a, hexValue b, hexValue d, hexValue e with
            | some a, some b, some d, some e =>
                (parseString rest').map fun r => (unit (a * 4096 + b * 256 + d * 16 + e) :: r.1, r.2)
            | _, _, _, _ => none
        | c' :: rest' => match escaped c' with
            | some u => (parseString rest').map fun r => (u :: r.1, r.2)
            | none => none
      else if c < 32 then none
      else (parseString rest).map fun r => (c :: r.1, r.2)

def isDigitUnit (c : CodeUnit) : Bool := 48 ≤ c.val && c.val ≤ 57

/-- One or more digits. -/
def skipDigits (s : JsString) : Option JsString :=
  match s with
  | [] => none
  | c :: rest => if isDigitUnit c then some (rest.dropWhile isDigitUnit) else none

def skipInteger : JsString → Option JsString
  | 48 :: rest => some rest
  | s => skipDigits s

def skipFraction : JsString → Option JsString
  | 46 :: rest => skipDigits rest
  | s => some s

def skipExponent : JsString → Option JsString
  | c :: rest =>
      if c = 101 ∨ c = 69 then match rest with
        | 43 :: rest' => skipDigits rest'
        | 45 :: rest' => skipDigits rest'
        | _ => skipDigits rest
      else some (c :: rest)
  | [] => some []

/-- What follows a number. -/
def parseNumber (s : JsString) : Option JsString := do
  let s := match s with
    | 45 :: rest => rest
    | _ => s
  skipExponent (← skipFraction (← skipInteger s))

def skipSpace (s : JsString) : JsString := s.dropWhile fun c => c = 32 || c = 10 || c = 13 || c = 9

/-- What follows a literal. -/
def parseLiteral (literal s : JsString) : Option JsString :=
  if literal.isPrefixOf s then some (s.drop literal.length) else none

mutual

/-- One value and what follows it. The fuel bounds the depth of the calls. -/
def parseValue : ℕ → JsString → Option (Json × JsString)
  | 0, _ => none
  | n + 1, s =>
      match skipSpace s with
      | [] => none
      | c :: rest =>
          if c = quoteMark then (parseString rest).map fun r => (.string r.1, r.2)
          else if c = 123 then match skipSpace rest with
            | 125 :: rest' => some (.object [], rest')
            | _ => (parseFields n rest).map fun r => (.object r.1, r.2)
          else if c = 91 then match skipSpace rest with
            | 93 :: rest' => some (.array [], rest')
            | _ => (parseItems n rest).map fun r => (.array r.1, r.2)
          else ((parseLiteral (js "null") (c :: rest)).map fun r => (.null, r)) <|>
            ((parseLiteral (js "true") (c :: rest)).map fun r => (.bool true, r)) <|>
            ((parseLiteral (js "false") (c :: rest)).map fun r => (.bool false, r)) <|>
            ((parseNumber (c :: rest)).map fun r => (.number, r))

/-- `"key": value` one or more times, up to the closing brace. -/
def parseFields : ℕ → JsString → Option (List (JsString × Json) × JsString)
  | 0, _ => none
  | n + 1, s =>
      match skipSpace s with
      | 34 :: rest => match parseString rest with
          | none => none
          | some (key, rest) => match skipSpace rest with
              | 58 :: rest => match parseValue n rest with
                  | none => none
                  | some (value, rest) => match skipSpace rest with
                      | 44 :: rest =>
                          (parseFields n rest).map fun r => ((key, value) :: r.1, r.2)
                      | 125 :: rest => some ([(key, value)], rest)
                      | _ => none
              | _ => none
      | _ => none

def parseItems : ℕ → JsString → Option (List Json × JsString)
  | 0, _ => none
  | n + 1, s =>
      match parseValue n s with
      | none => none
      | some (value, rest) => match skipSpace rest with
          | 44 :: rest => (parseItems n rest).map fun r => (value :: r.1, r.2)
          | 93 :: rest => some ([value], rest)
          | _ => none

end

/-- `JSON.parse(s)`. -/
def parse (s : JsString) : Option Json :=
  match parseValue (s.length + 1) s with
  | some (value, rest) => if skipSpace rest = [] then some value else none
  | none => none

/-- `value.key`. The last field with the key wins; `null` has no fields to ask for. -/
def field? (value : Json) (key : JsString) : Option Json :=
  match value with
  | .object fields => fields.reverse.lookup key
  | _ => none

/-- Units that are quoted as they are. -/
def Plain (s : JsString) : Prop := ∀ c ∈ s, 32 ≤ c.val ∧ c.val < 127 ∧ c ≠ quoteMark ∧ c ≠ backslash

theorem Plain.ascii {s : JsString} (h : Plain s) : Ascii s := fun c hc => by
  have := h c hc
  omega

theorem quoteBody_plain {s : JsString} (h : Plain s) : quoteBody s = s := by
  have hlone : ∀ c : CodeUnit, 32 ≤ c.val → c.val < 127 → c ≠ quoteMark → c ≠ backslash →
      quoteLone c = [c] := by
    intro c hlo hhi hq hb
    have hhigh : isHigh c = false := by
      unfold isHigh
      rw [decide_eq_false (by omega : ¬ 0xD800 ≤ c.val), Bool.false_and]
    have hlow : isLow c = false := by
      unfold isLow
      rw [decide_eq_false (by omega : ¬ 0xDC00 ≤ c.val), Bool.false_and]
    have hne : ∀ k : CodeUnit, k.val < 32 → c ≠ k := fun k hk heq => by rw [heq] at hlo; omega
    rw [quoteLone, hhigh, hlow, Bool.false_or, if_neg Bool.false_ne_true, quoteUnit, if_neg hq,
      if_neg hb, if_neg (hne 8 (by decide)), if_neg (hne 12 (by decide)),
      if_neg (hne 10 (by decide)), if_neg (hne 13 (by decide)), if_neg (hne 9 (by decide)),
      if_neg (not_lt.mpr (by rw [Fin.le_def]; exact hlo))]
  induction s with
  | nil => rfl
  | cons c rest ih =>
    obtain ⟨hlo, hhi, hq, hb⟩ := h c (List.mem_cons_self ..)
    have hrest : Plain rest := fun x hx => h x (List.mem_cons_of_mem _ hx)
    cases rest with
    | nil => exact hlone c hlo hhi hq hb
    | cons c' rest' =>
      have hhigh : isHigh c = false := by
        unfold isHigh
        rw [decide_eq_false (by omega : ¬ 0xD800 ≤ c.val), Bool.false_and]
      rw [quoteBody, hhigh, Bool.false_and, if_neg Bool.false_ne_true, hlone c hlo hhi hq hb,
        ih hrest]
      rfl

theorem parseString_plain {s : JsString} (h : Plain s) (rest : JsString) :
    parseString (s ++ quoteMark :: rest) = some (s, rest) := by
  induction s with
  | nil =>
    rw [List.nil_append, parseString.eq_def]
    exact if_pos rfl
  | cons c s ih =>
    obtain ⟨hlo, _, hq, hb⟩ := h c (List.mem_cons_self ..)
    have hspace : ¬ c < 32 := not_lt.mpr (by rw [Fin.le_def]; exact hlo)
    rw [List.cons_append, parseString.eq_def]
    dsimp only
    rw [if_neg hq, if_neg hb, if_neg hspace, ih fun x hx => h x (List.mem_cons_of_mem _ hx)]
    rfl

theorem skipSpace_cons {c : CodeUnit} (h : (c = 32 || c = 10 || c = 13 || c = 9) = false)
    (rest : JsString) : skipSpace (c :: rest) = c :: rest := List.dropWhile_cons_of_neg (by simp [h])

/-- Parsing a plain string value. -/
theorem parseValue_string {s : JsString} (h : Plain s) (n : ℕ) (rest : JsString) :
    parseValue (n + 1) (quoteMark :: (s ++ quoteMark :: rest)) = some (.string s, rest) := by
  rw [parseValue, skipSpace_cons (by decide)]
  dsimp only
  rw [if_pos rfl, parseString_plain h]
  rfl

/-- Parsing a field whose value is a plain string, and what decides how it goes on. -/
theorem parseFields_string {key value : JsString} (hkey : Plain key) (hvalue : Plain value) (n : ℕ)
    (rest : JsString) :
    parseFields (n + 2) (quoteMark :: (key ++ quoteMark :: 58 :: quoteMark :: (value ++ quoteMark :: rest))) =
      match skipSpace rest with
      | 44 :: rest => (parseFields (n + 1) rest).map fun r => ((key, .string value) :: r.1, r.2)
      | 125 :: rest => some ([(key, .string value)], rest)
      | _ => none := by
  rw [parseFields, skipSpace_cons (by decide)]
  show (match parseString (key ++ quoteMark :: 58 :: quoteMark :: (value ++ quoteMark :: rest)) with
    | none => none
    | some (key, rest) => _) = _
  rw [parseString_plain hkey]
  dsimp only
  rw [skipSpace_cons (by decide)]
  show (match parseValue (n + 1) (quoteMark :: (value ++ quoteMark :: rest)) with
    | none => none
    | some (value, rest) => _) = _
  rw [parseValue_string hvalue]

/-- `{"key":"value","key":"value"}`. -/
def pairText (key value key' value' : JsString) : JsString :=
  123 :: quoteMark :: (key ++ quoteMark :: 58 :: quoteMark :: (value ++ quoteMark :: 44 :: quoteMark ::
    (key' ++ quoteMark :: 58 :: quoteMark :: (value' ++ quoteMark :: [125]))))

theorem parse_pairText {key value key' value' : JsString} (hkey : Plain key) (hvalue : Plain value)
    (hkey' : Plain key') (hvalue' : Plain value') :
    parse (pairText key value key' value') =
      some (.object [(key, .string value), (key', .string value')]) := by
  obtain ⟨n, hn⟩ : ∃ n, (pairText key value key' value').length + 1 = n + 4 := by
    refine ⟨(pairText key value key' value').length - 3, ?_⟩
    simp only [pairText, List.length_cons, List.length_append]
    omega
  have hvalue : parseValue (n + 4) (pairText key value key' value') =
      some (.object [(key, .string value), (key', .string value')], []) := by
    rw [parseValue, pairText, skipSpace_cons (by decide)]
    dsimp only
    rw [if_neg (by decide), if_pos rfl, skipSpace_cons (by decide)]
    show (parseFields (n + 3) _).map (fun r => (Json.object r.1, r.2)) = _
    rw [parseFields_string hkey hvalue, skipSpace_cons (by decide)]
    show ((parseFields (n + 2) _).map (fun r => ((key, Json.string value) :: r.1, r.2))).map _ = _
    rw [parseFields_string hkey' hvalue', skipSpace_cons (by decide)]
    rfl
  rw [parse, hn, hvalue]
  rfl

theorem ascii_pairText {key value key' value' : JsString} (hkey : Plain key) (hvalue : Plain value)
    (hkey' : Plain key') (hvalue' : Plain value') : Ascii (pairText key value key' value') := by
  have hcons : ∀ {c : CodeUnit} {s : JsString}, c.val < 128 → Ascii s → Ascii (c :: s) :=
    fun hc hs => List.forall_mem_cons.mpr ⟨hc, hs⟩
  have happ : ∀ {s t : JsString}, Plain s → Ascii t → Ascii (s ++ t) :=
    fun hs ht => List.forall_mem_append.mpr ⟨hs.ascii, ht⟩
  have hend : Ascii (quoteMark :: [125]) := by
    intro c hc
    simp only [List.mem_cons, List.not_mem_nil, or_false] at hc
    rcases hc with rfl | rfl <;> decide
  have hmarks : ∀ {s : JsString}, Ascii s → Ascii (quoteMark :: 58 :: quoteMark :: s) :=
    fun hs => hcons (by decide) (hcons (by decide) (hcons (by decide) hs))
  exact hcons (by decide) (hcons (by decide) (happ hkey (hmarks (happ hvalue (hcons (by decide)
    (hcons (by decide) (hcons (by decide) (happ hkey' (hmarks (happ hvalue' hend))))))))))

end Json

end Encoding
