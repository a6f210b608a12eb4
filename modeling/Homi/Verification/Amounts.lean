import Homi.Mobile.Amount

/-! # What is read as an amount

  `parseCents` against the grammar of amounts, and the texts that
  `centsParamToInput` writes. The pattern is built from the separator, so
  the first step is that an escaped separator means itself. After that the
  grammar is what can match (`mem_ways_*`), and a text that the app wrote
  itself is read by the first match, whatever the separator.
-/

namespace Homi.Mobile

variable {sep input text whole fraction s t : JsString} {texts : List JsString} {n : ℤ}

/-! ## Section 1: The pattern -/

theorem foldr_enter (s first : JsString) (rest : List JsString) :
    s.foldr enter (first :: rest) = (s ++ first) :: rest := by
  induction s with
  | nil => rfl
  | cons c s ih => rw [List.foldr_cons, ih, enter, List.cons_append]

/-- An escaped text is read as the text. -/
theorem readTexts_escape (s cs : JsString) :
    readTexts false (escapeRegExp s ++ cs) = (readTexts false cs).map fun texts => s.foldr enter texts := by
  induction s with
  | nil => simp [escapeRegExp]
  | cons c s ih =>
    have hcons : escapeRegExp (c :: s) =
        (if c ∈ syntaxCharacters then [backslash, c] else [c]) ++ escapeRegExp s := rfl
    have hmap : (readTexts false (escapeRegExp s ++ cs)).map (enter c) =
        (readTexts false cs).map fun texts => (c :: s).foldr enter texts := by
      rw [ih, Option.map_map]
      rfl
    rw [hcons, List.append_assoc, ← hmap]
    by_cases hc : c ∈ syntaxCharacters
    · simp [hc, readTexts]
    · have hbackslash : c ≠ backslash := fun heq => hc (heq ▸ by decide)
      have hpipe : c ≠ pipe := fun heq => hc (heq ▸ by decide)
      simp [hc, readTexts, hbackslash, hpipe]

/-- The pattern of some texts is read as these texts. -/
theorem readTexts_join (hne : texts ≠ []) :
    readTexts false ([pipe].intercalate (texts.map escapeRegExp)) = some texts := by
  induction texts with
  | nil => exact absurd rfl hne
  | cons first rest ih =>
    cases rest with
    | nil =>
      have hread := readTexts_escape first []
      rw [List.append_nil] at hread
      rw [List.map_singleton, List.intercalate_singleton, hread]
      simp [readTexts, foldr_enter]
    | cons second rest =>
      have hrest := ih (List.cons_ne_nil _ _)
      -- an unescaped pipe opens a new text
      have hpipe : readTexts false (pipe :: [pipe].intercalate ((second :: rest).map escapeRegExp)) =
          some ([] :: second :: rest) := by
        rw [readTexts, hrest]
        rfl
      have hjoin : [pipe].intercalate ((first :: second :: rest).map escapeRegExp) =
          escapeRegExp first ++ pipe :: [pipe].intercalate ((second :: rest).map escapeRegExp) := by
        simp [List.intercalate]
      rw [hjoin, readTexts_escape, hpipe]
      simp [foldr_enter]

/-- `['.', sep]`, as a set. -/
def separators (sep : JsString) : List JsString := [js ".", sep].eraseDups

theorem mem_separators : s ∈ separators sep ↔ s = js "." ∨ s = sep := by
  simp [separators]

theorem separators_cons (sep : JsString) : ∃ rest, separators sep = js "." :: rest := by
  unfold separators
  rw [List.eraseDups_cons]
  exact ⟨_, rfl⟩

theorem amountRegExp_separators (sep : JsString) :
    amountRegExp ([pipe].intercalate ((separators sep).map escapeRegExp)) =
      some (amountShape (separators sep)) := by
  obtain ⟨rest, hrest⟩ := separators_cons sep
  rw [amountRegExp, readTexts_join (by rw [hrest]; exact List.cons_ne_nil _ _)]
  rfl

/-! ## Section 2: The grammar -/

/-- A number as it is typed: digits, and possibly one of the separators with
    at most two digits after it. -/
structure Typed (texts : List JsString) (text whole fraction : JsString) : Prop where
  digits : ∀ c ∈ whole, isDigit c
  decimals : ∀ c ∈ fraction, isDigit c
  short : fraction.length ≤ 2
  shape : (text = whole ∧ fraction = []) ∨ ∃ s ∈ texts, text = whole ++ (s ++ fraction)

theorem exec_typed {groups : Regex.Captures CodeUnit} (h : (amountShape texts).exec text = some groups) :
    Typed texts text ((groups 1).getD []) ((groups 2).getD []) := by
  obtain ⟨rest, hmem⟩ := Regex.exec_mem h
  obtain ⟨mid, caps, hwhole, hmem⟩ := Regex.mem_ways_seq.mp hmem
  obtain ⟨capsIn, hmany, rfl⟩ := Regex.mem_ways_group.mp hwhole
  obtain ⟨rfl, whole, rfl, hdigits⟩ := Regex.mem_ways_many.mp hmany
  rw [Regex.take_captured] at hmem
  obtain ⟨last, capsLast, hopt, hstop⟩ := Regex.mem_ways_seq.mp hmem
  obtain ⟨rfl, rfl, rfl⟩ := Regex.mem_ways_stop.mp hstop
  rcases Regex.mem_ways_opt.mp hopt with ⟨hpart, -⟩ | ⟨hmid, rfl⟩
  · obtain ⟨mid', caps', hsep, hgroup⟩ := Regex.mem_ways_seq.mp hpart
    obtain ⟨rfl, s, hs, rfl⟩ := Regex.mem_ways_oneOf.mp hsep
    obtain ⟨capsIn, hupTo, rfl⟩ := Regex.mem_ways_group.mp hgroup
    obtain ⟨rfl, fraction, rfl, hshort, hfraction⟩ := Regex.mem_ways_upTo.mp hupTo
    rw [Regex.take_captured]
    simp only [List.append_nil]
    exact ⟨by simpa using hdigits, by simpa using hfraction, by simpa using hshort,
      Or.inr ⟨s, hs, by simp⟩⟩
  · subst hmid
    exact ⟨by simpa using hdigits, by simp, by simp, Or.inl ⟨by simp, by simp⟩⟩

theorem typed_exec (h : Typed texts text whole fraction) :
    ∃ groups, (amountShape texts).exec text = some groups := by
  have hstart : ∀ mid, text = whole ++ mid →
      (mid, Function.update (fun _ => none) 1 (some whole)) ∈
        (Regex.group 1 (.many isDigit)).ways text fun _ => none := by
    rintro mid rfl
    refine Regex.mem_ways_group.mpr ⟨_, Regex.mem_ways_many.mpr ⟨rfl, whole, rfl, h.digits⟩, ?_⟩
    rw [Regex.take_captured]
  have hstop : ∀ caps : Regex.Captures CodeUnit, ([], caps) ∈ (Regex.stop : Regex CodeUnit).ways [] caps :=
    fun caps => Regex.mem_ways_stop.mpr ⟨rfl, rfl, rfl⟩
  -- the group is left out, or it has a match that is not empty
  have hskip : ∀ caps : Regex.Captures CodeUnit, ∀ r : Regex CodeUnit,
      ([], caps) ∈ (Regex.seq (.opt r) .stop).ways [] caps := fun caps r =>
    Regex.mem_ways_seq.mpr ⟨[], caps, Regex.mem_ways_opt.mpr (Or.inr ⟨rfl, rfl⟩), hstop caps⟩
  rcases h.shape with ⟨htext, -⟩ | ⟨s, hs, htext⟩
  · exact Regex.exec_some (Regex.mem_ways_seq.mpr
      ⟨[], _, hstart [] (by rw [htext, List.append_nil]), hskip _ _⟩)
  · by_cases hnil : s ++ fraction = []
    · exact Regex.exec_some (Regex.mem_ways_seq.mpr ⟨[], _, hstart [] (by rw [htext, hnil]), hskip _ _⟩)
    · have hgroup : ∀ caps : Regex.Captures CodeUnit, ∃ caps', ([], caps') ∈
          (Regex.group 2 (.upTo isDigit 2)).ways fraction caps := fun caps =>
        ⟨_, Regex.mem_ways_group.mpr ⟨caps, Regex.mem_ways_upTo.mpr
          ⟨rfl, fraction, (List.append_nil _).symm, h.short, h.decimals⟩, rfl⟩⟩
      obtain ⟨caps, hcaps⟩ := hgroup (Function.update (fun _ => none) 1 (some whole))
      have hpart := Regex.mem_ways_seq.mpr
        ⟨fraction, _, Regex.mem_ways_oneOf.mpr ⟨rfl, s, hs, rfl⟩, hcaps⟩
      have hopt := Regex.mem_ways_opt.mpr (Or.inl ⟨hpart, List.length_pos_iff.mpr hnil⟩)
      exact Regex.exec_some (Regex.mem_ways_seq.mpr ⟨s ++ fraction, _, hstart _ htext,
        Regex.mem_ways_seq.mpr ⟨[], caps, hopt, hstop caps⟩⟩)

/-! ## Section 3: The value -/

theorem numberOf_append (s t : JsString) :
    numberOf (s ++ t) = numberOf s * 10 ^ t.length + numberOf t := by
  have hfold : ∀ (t : JsString) (n : ℤ), t.foldl (fun (n : ℤ) (c : CodeUnit) => 10 * n + (c.val - 48)) n =
      n * 10 ^ t.length + numberOf t := by
    intro t
    induction t with
    | nil => simp [numberOf]
    | cons c t ih =>
      intro n
      have hone : numberOf (c :: t) = (c.val - 48 : ℤ) * 10 ^ t.length + numberOf t := by
        rw [numberOf, List.foldl_cons, ih]
        ring
      rw [List.foldl_cons, ih, hone, List.length_cons, pow_succ]
      ring
  rw [numberOf, List.foldl_append, hfold]
  rfl

theorem numberOf_nonneg (h : ∀ c ∈ s, isDigit c) : 0 ≤ numberOf s := by
  induction s using List.reverseRecOn with
  | nil => exact le_rfl
  | append_singleton s c ih =>
    obtain ⟨d, hd⟩ := digit_of_isDigit (h c (by simp))
    have ih := ih fun e he => h e (by simp [he])
    have hval : numberOf [c] = (c.val : ℤ) - 48 := by simp [numberOf]
    rw [numberOf_append, hval, hd, digit_val]
    simp only [List.length_singleton, pow_one]
    push_cast
    omega

/-- Cents: a hundred for each unit, and ten for a single decimal. -/
def centsOf (whole fraction : JsString) : ℤ :=
  100 * numberOf whole + (if fraction.length = 1 then 10 else 1) * numberOf fraction

theorem centsOf_nonneg (hwhole : ∀ c ∈ whole, isDigit c) (hfraction : ∀ c ∈ fraction, isDigit c) :
    0 ≤ centsOf whole fraction := by
  have h := numberOf_nonneg hwhole
  have h' := numberOf_nonneg hfraction
  unfold centsOf
  split <;> omega

/-- The digits that `parseCents` puts together are the cents. -/
theorem numberOf_digits (hshort : fraction.length ≤ 2) :
    numberOf ((if whole = [] then js "0" else whole) ++ padEnd 2 fraction) = centsOf whole fraction := by
  have hwhole : numberOf (if whole = [] then js "0" else whole) = numberOf whole := by
    by_cases hnil : whole = []
    · rw [if_pos hnil, hnil]
      rfl
    · rw [if_neg hnil]
  -- the fraction is padded to two digits
  have hlength : (padEnd 2 fraction).length = 2 := by
    simp only [padEnd, List.length_append, List.length_replicate]
    omega
  have hfraction : numberOf (padEnd 2 fraction) =
      (if fraction.length = 1 then 10 else 1) * numberOf fraction := by
    unfold padEnd
    rw [numberOf_append]
    -- one digit of a fraction is tenths
    cases hlen : fraction.length with
    | zero =>
      rw [List.length_eq_zero_iff.mp hlen]
      rfl
    | succ k =>
      cases k with
      | zero =>
        have hzero : numberOf (List.replicate (2 - (0 + 1)) 48) = 0 := rfl
        rw [hzero]
        simp
        ring
      | succ k =>
        obtain rfl : k = 0 := by omega
        have hzero : numberOf (List.replicate (2 - (0 + 1 + 1)) 48) = 0 := rfl
        rw [hzero]
        simp
  rw [numberOf_append, hwhole, hfraction, hlength, centsOf]
  ring

/-- A safe number is exact, and rounding makes no number safe. -/
theorem safe?_toNumber (h : 0 ≤ numberOf s) :
    (toNumber s).safe? = if numberOf s ≤ maxSafeInteger then some (numberOf s) else none := by
  obtain ⟨v, hv⟩ := Int.eq_ofNat_of_zero_le h
  unfold toNumber
  rw [hv, Int.toNat_natCast]
  by_cases hsmall : v < 2 ^ 53
  · have hle : (v : ℤ) ≤ maxSafeInteger := by
      unfold maxSafeInteger
      omega
    rw [Double.nearest_exact hsmall, if_pos hle]
    exact JsNumber.safe?_eq_some.mpr ⟨rfl, by unfold maxSafeInteger; omega, hle⟩
  · have hlt : ¬ (v : ℤ) ≤ maxSafeInteger := by
      unfold maxSafeInteger
      omega
    rw [if_neg hlt]
    cases hnear : Double.nearest v with
    | none => rfl
    | some w =>
      have hlarge := Double.nearest_large (not_lt.mp hsmall) hnear
      exact if_neg (by unfold maxSafeInteger; omega)

/-- Up to the maximum a number of cents is exact, and no other passes. -/
theorem toNumber_capped (h : 0 ≤ numberOf s) :
    (match (toNumber s).safe? with
      | none => none
      | some cents => if cents > MAX_AMOUNT_CENTS then none else some cents) =
      if numberOf s ≤ MAX_AMOUNT_CENTS then some (numberOf s) else none := by
  rw [safe?_toNumber h]
  by_cases hmax : numberOf s ≤ MAX_AMOUNT_CENTS
  · have hle : numberOf s ≤ maxSafeInteger := hmax.trans (by decide)
    rw [if_pos hle, if_pos hmax]
    exact if_neg (not_lt.mpr hmax)
  · rw [if_neg hmax]
    split
    · rfl
    · next cents hcents =>
      rw [Option.ite_none_right_eq_some] at hcents
      obtain ⟨-, hcents⟩ := hcents
      cases hcents
      exact if_pos (not_le.mp hmax)

/-- `parseCents`, by what the pattern captures. -/
theorem parseCents_of_exec {groups : Regex.Captures CodeUnit}
    (h : (amountShape (separators sep)).exec (trim input) = some groups)
    (hwhole : (groups 1).getD [] = whole) (hfraction : (groups 2).getD [] = fraction) :
    parseCents input sep =
      if whole ++ fraction = [] then none
      else if centsOf whole fraction ≤ MAX_AMOUNT_CENTS then some (centsOf whole fraction) else none := by
  have htyped := exec_typed h
  rw [hwhole, hfraction] at htyped
  have hbind : (amountRegExp ([pipe].intercalate ((separators sep).map escapeRegExp))).bind
      (fun r => r.exec (trim input)) = some groups := by
    rw [amountRegExp_separators]
    exact h
  unfold parseCents
  dsimp only
  unfold separators at hbind
  rw [hbind]
  dsimp only
  rw [hwhole, hfraction]
  -- a text without digits is no amount
  by_cases hnil : whole ++ fraction = []
  · obtain ⟨rfl, rfl⟩ := List.append_eq_nil_iff.mp hnil
    rfl
  · have hsome : ¬ (whole.length = 0 ∧ fraction.length = 0) := by
      rw [List.length_eq_zero_iff, List.length_eq_zero_iff]
      exact fun hboth => hnil (List.append_eq_nil_iff.mpr hboth)
    have hvalue : _ = centsOf whole fraction := numberOf_digits htyped.short
    rw [if_neg hsome, if_neg hnil, ← hvalue]
    refine toNumber_capped ?_
    rw [hvalue]
    exact centsOf_nonneg htyped.digits htyped.decimals

theorem parseCents_of_noMatch (h : (amountShape (separators sep)).exec (trim input) = none) :
    parseCents input sep = none := by
  have hbind : (amountRegExp ([pipe].intercalate ((separators sep).map escapeRegExp))).bind
      (fun r => r.exec (trim input)) = none := by
    rw [amountRegExp_separators]
    exact h
  unfold parseCents
  dsimp only
  unfold separators at hbind
  rw [hbind]

theorem parseAmount_eq_some : parseAmount input sep = some n ↔ parseCents input sep = some n ∧ 0 < n := by
  unfold parseAmount
  cases parseCents input sep with
  | none => simp
  | some cents =>
    by_cases hpos : cents > 0
    · simp [hpos]
      rintro rfl
      exact hpos
    · simp [hpos]
      rintro rfl
      omega

/-! ## Section 4: Exactly the grammar -/

/-- The digits in front of a text without digits. -/
theorem takeWhile_digits (hwhole : ∀ c ∈ whole, isDigit c) (hs : ∀ c ∈ s, ¬ isDigit c) (hne : s ≠ []) :
    (whole ++ (s ++ t)).takeWhile isDigit = whole := by
  rw [List.takeWhile_append_of_pos hwhole]
  cases s with
  | nil => exact absurd rfl hne
  | cons c s =>
    have hc := hs c (List.mem_cons_self ..)
    simp [hc]

/-- Separators without digits leave one way to read a text. -/
theorem Typed.unique {whole' fraction' : JsString} (hs : ∀ s ∈ texts, s ≠ [] ∧ ∀ c ∈ s, ¬ isDigit c)
    (h : Typed texts text whole fraction) (h' : Typed texts text whole' fraction') :
    whole = whole' ∧ fraction = fraction' := by
  -- a text of digits only has no separator in it
  have hplain : ∀ {w w' f' s}, (∀ c ∈ w, isDigit c) → s ∈ texts → w ≠ w' ++ (s ++ f') := by
    rintro w w' f' s hw hmem rfl
    obtain ⟨hne, hdigit⟩ := hs s hmem
    obtain ⟨c, hc⟩ := List.exists_mem_of_ne_nil s hne
    exact hdigit c hc (hw c (by simp [hc]))
  rcases h.shape with ⟨htext, rfl⟩ | ⟨s, hmem, htext⟩
  · rcases h'.shape with ⟨htext', rfl⟩ | ⟨s', hmem', htext'⟩
    · exact ⟨htext.symm.trans htext', rfl⟩
    · exact absurd (htext.symm.trans htext') (hplain h.digits hmem')
  · rcases h'.shape with ⟨htext', rfl⟩ | ⟨s', hmem', htext'⟩
    · exact absurd (htext'.symm.trans htext) (hplain h'.digits hmem)
    · obtain ⟨hne, hdigit⟩ := hs s hmem
      obtain ⟨hne', hdigit'⟩ := hs s' hmem'
      have heq := htext.symm.trans htext'
      -- from the front, and from the back
      have hfront := congrArg (List.takeWhile isDigit) heq
      rw [takeWhile_digits h.digits hdigit hne, takeWhile_digits h'.digits hdigit' hne'] at hfront
      have hback := congrArg (fun l => l.reverse.takeWhile isDigit) heq
      simp only [List.reverse_append, List.append_assoc] at hback
      rw [takeWhile_digits (by simpa using h.decimals) (by simpa using hdigit) (by simpa using hne),
        takeWhile_digits (by simpa using h'.decimals) (by simpa using hdigit') (by simpa using hne')] at hback
      exact ⟨hfront, List.reverse_injective hback⟩

theorem noDigit (h : s.any isDigit = false) : ∀ c ∈ s, ¬ isDigit c := List.any_eq_false.mp h

/-- The typed amounts: at least one digit, and not above the maximum. -/
structure IsAmount (sep text : JsString) (cents : ℤ) : Prop where
  typed : ∃ whole fraction, Typed [js ".", sep] text whole fraction ∧ whole ++ fraction ≠ [] ∧
    cents = centsOf whole fraction
  capped : cents ≤ MAX_AMOUNT_CENTS

/-- What the two parsers accept. -/
structure AmountGrammar (sep : JsString) : Prop where
  cents : ∀ input n, parseCents input sep = some n ↔ IsAmount sep (trim input) n
  amount : ∀ input n, parseAmount input sep = some n ↔ parseCents input sep = some n ∧ n ≠ 0

theorem typed_separators :
    Typed (separators sep) text whole fraction ↔ Typed [js ".", sep] text whole fraction := by
  have hmem : ∀ s, s ∈ separators sep ↔ s ∈ [js ".", sep] := by
    intro s
    rw [mem_separators]
    simp
  constructor
  · intro h
    exact ⟨h.digits, h.decimals, h.short, h.shape.imp_right fun ⟨s, hs, ht⟩ => ⟨s, (hmem s).mp hs, ht⟩⟩
  · intro h
    exact ⟨h.digits, h.decimals, h.short, h.shape.imp_right fun ⟨s, hs, ht⟩ => ⟨s, (hmem s).mpr hs, ht⟩⟩

theorem IsAmount.nonneg {cents : ℤ} (h : IsAmount sep text cents) : 0 ≤ cents := by
  obtain ⟨whole, fraction, htyped, -, rfl⟩ := h.typed
  exact centsOf_nonneg htyped.digits htyped.decimals

theorem parseCents_isAmount (h : parseCents input sep = some n) : IsAmount sep (trim input) n := by
  cases hexec : (amountShape (separators sep)).exec (trim input) with
  | none =>
    rw [parseCents_of_noMatch hexec] at h
    cases h
  | some groups =>
    have htyped := typed_separators.mp (exec_typed hexec)
    rw [parseCents_of_exec hexec rfl rfl] at h
    split at h
    · cases h
    · next hne =>
      split at h
      · next hmax =>
        cases h
        exact ⟨⟨_, _, htyped, hne, rfl⟩, hmax⟩
      · cases h

/-- The parsers accept exactly the amounts, for every separator without
    digits. -/
theorem amount_grammar (sep : JsString) (hne : sep ≠ []) (hdigit : ∀ c ∈ sep, ¬ isDigit c) :
    AmountGrammar sep where
  cents := by
    intro input n
    constructor
    · exact parseCents_isAmount
    · rintro ⟨⟨whole, fraction, htyped, hsome, rfl⟩, hmax⟩
      have htyped' := typed_separators.mpr htyped
      obtain ⟨groups, hexec⟩ := typed_exec htyped'
      -- no separator has a digit, so what is captured is what was typed
      have hclean : ∀ s ∈ separators sep, s ≠ [] ∧ ∀ c ∈ s, ¬ isDigit c := by
        intro s hs
        rcases mem_separators.mp hs with rfl | rfl
        · exact ⟨by decide, noDigit (by decide)⟩
        · exact ⟨hne, hdigit⟩
      obtain ⟨hwhole, hfraction⟩ := (exec_typed hexec).unique hclean htyped'
      rw [parseCents_of_exec hexec hwhole hfraction, if_neg hsome, if_pos hmax]
  amount := by
    intro input n
    rw [parseAmount_eq_some]
    constructor
    · rintro ⟨h, hpos⟩
      exact ⟨h, hpos.ne'⟩
    · rintro ⟨h, hne⟩
      have hnonneg := (parseCents_isAmount h).nonneg
      exact ⟨h, by omega⟩

/-- With a comma, which a pattern does not escape. -/
theorem amount_grammar_comma : parseCents (js " 12,5") (js ",") = some 1250 := by
  refine ((amount_grammar (js ",") (by decide) (noDigit (by decide))).cents _ _).mpr ⟨?_, by decide⟩
  refine ⟨js "12", js "5", ⟨?_, ?_, by decide, Or.inr ⟨js ",", by decide, ?_⟩⟩, by decide, by decide⟩
  · exact List.all_eq_true.mp (by decide)
  · exact List.all_eq_true.mp (by decide)
  · decide

/-! ## Section 5: The prefill -/

/-- What `String(n)` prints. -/
structure Prints (s : JsString) (n : ℕ) : Prop where
  nonempty : s ≠ []
  digits : ∀ c ∈ s, isDigit c
  value : numberOf s = n

theorem prints_decimal (n : ℕ) : Prints (JsString.decimal n) n := by
  induction n using Nat.strong_induction_on with
  | _ n ih =>
    by_cases hsmall : n < 10
    · rw [decimal_digit hsmall]
      refine ⟨List.cons_ne_nil _ _, ?_, ?_⟩
      · intro c hc
        rw [List.mem_singleton.mp hc]
        exact isDigit_digit _
      · have hval : numberOf [digit n] = ((digit n).val : ℤ) - 48 := by simp [numberOf]
        rw [hval, digit_val]
        omega
    · -- the last digit comes after the digits of the tenth part
      have hsnoc := decimal_snoc (by omega : 0 < n / 10) (by omega : n % 10 < 10)
      rw [show 10 * (n / 10) + n % 10 = n by omega] at hsnoc
      have hrest := ih (n / 10) (by omega)
      rw [hsnoc]
      refine ⟨by simp, ?_, ?_⟩
      · intro c hc
        rcases List.mem_append.mp hc with hc | hc
        · exact hrest.digits c hc
        · rw [List.mem_singleton.mp hc]
          exact isDigit_digit _
      · have hval : numberOf [digit (n % 10 : ℕ)] = ((digit (n % 10 : ℕ)).val : ℤ) - 48 := by simp [numberOf]
        rw [numberOf_append, hrest.value, hval, digit_val, List.length_singleton]
        push_cast
        omega

/-- A text between two digits is not trimmed. -/
theorem trim_digits {c d : CodeUnit} (hc : isDigit c) (hd : isDigit d) (s : JsString) :
    trim (c :: (s ++ [d])) = c :: (s ++ [d]) := by
  have hspace : ∀ e, isDigit e → ¬ isSpace e := by
    intro e he hspace
    have hmem : e ∈ spaces := of_decide_eq_true hspace
    exact noDigit (s := spaces) (by decide) e hmem he
  unfold trim
  rw [List.dropWhile_cons_of_neg (hspace c hc), ← List.cons_append,
    List.rdropWhile_concat_neg _ _ _ (hspace d hd)]

/-- A text of the app is read by the first match, whatever the separator. -/
theorem exec_dotted (hwhole : ∀ c ∈ whole, isDigit c) (hfraction : ∀ c ∈ fraction, isDigit c)
    (hshort : fraction.length ≤ 2) (sep : JsString) :
    ∃ groups, (amountShape (separators sep)).exec (whole ++ (js "." ++ fraction)) = some groups ∧
      (groups 1).getD [] = whole ∧ (groups 2).getD [] = fraction := by
  obtain ⟨rest, hrest⟩ := separators_cons sep
  rw [hrest]
  have hdot : ∀ c ∈ (js "." ++ fraction).head?, ¬ isDigit c := by
    intro c hc
    cases hc
    decide
  -- the digits, the dot and the decimals, each at the first attempt
  have hmany := Regex.head?_ways_group (k := 1)
    (Regex.head?_ways_many (s := js "." ++ fraction) hwhole hdot fun _ => none)
  have hsep := Regex.head?_ways_oneOf (js ".") rest fraction
    (Function.update (fun _ => none) 1 (some whole))
  have hupTo := Regex.head?_ways_group (k := 2)
    (Regex.head?_ways_upTo hfraction hshort (Function.update (fun _ => none) 1 (some whole)))
  have hopt := Regex.head?_ways_opt (Regex.head?_ways_seq hsep hupTo) (by simp [js, ofChars, utf16])
  rw [Regex.take_captured] at hmany
  refine ⟨_, Regex.exec_of_head? (Regex.head?_ways_seq hmany (Regex.head?_ways_seq hopt rfl)), ?_, ?_⟩
  · rfl
  · simp

/-- A positive amount that the app wrote is read back. -/
theorem parseAmount_dotted (hne : whole ≠ []) (hwhole : ∀ c ∈ whole, isDigit c)
    (hfraction : ∀ c ∈ fraction, isDigit c) (hlen : fraction.length = 2) (hvalue : centsOf whole fraction = n)
    (hpos : 0 < n) (hmax : n ≤ MAX_AMOUNT_CENTS) (sep : JsString) :
    parseAmount (whole ++ (js "." ++ fraction)) sep = some n := by
  obtain ⟨groups, hexec, hgroup, hgroup'⟩ := exec_dotted hwhole hfraction hlen.le sep
  have htrim : trim (whole ++ (js "." ++ fraction)) = whole ++ (js "." ++ fraction) := by
    obtain ⟨c, w, rfl⟩ := List.exists_cons_of_ne_nil hne
    obtain ⟨f, d, rfl⟩ : ∃ f d, fraction = f ++ [d] := by
      have hnil : fraction ≠ [] := by
        rintro rfl
        cases hlen
      exact ⟨_, _, (List.dropLast_concat_getLast hnil).symm⟩
    have htext := trim_digits (hwhole c (by simp)) (hfraction d (by simp)) (w ++ (js "." ++ f))
    simpa using htext
  rw [parseAmount_eq_some]
  refine ⟨?_, hpos⟩
  rw [parseCents_of_exec (by rw [htrim]; exact hexec) hgroup hgroup', hvalue, if_neg (by simp [hne]),
    if_pos hmax]

theorem centsParamToInput_text (hne : s ≠ []) (hs : ∀ c ∈ s, isDigit c) :
    centsParamToInput (.text s) =
      if 0 < numberOf s ∧ numberOf s ≤ MAX_AMOUNT_CENTS then
        JsString.decimal (numberOf s / 100) ++ (js "." ++ padStart 2 (numberOf s % 100))
      else [] := by
  have hdigits : s ≠ [] ∧ s.all isDigit := ⟨hne, List.all_eq_true.mpr hs⟩
  unfold centsParamToInput
  dsimp only
  rw [if_neg (not_not_intro hdigits), safe?_toNumber (numberOf_nonneg hs)]
  by_cases hsafe : numberOf s ≤ maxSafeInteger
  · rw [if_pos hsafe]
    dsimp only
    by_cases hrange : 0 < numberOf s ∧ numberOf s ≤ MAX_AMOUNT_CENTS
    · rw [if_pos hrange, if_neg (by omega)]
      rfl
    · rw [if_neg hrange, if_pos (by omega)]
  · have hmax : ¬ (0 < numberOf s ∧ numberOf s ≤ MAX_AMOUNT_CENTS) := by
      rintro ⟨-, hmax⟩
      exact hsafe (hmax.trans (by decide))
    rw [if_neg hsafe, if_neg hmax]

/-- The prefill of a positive number of cents is read as that number. -/
theorem parseAmount_prefill (hne : s ≠ []) (hs : ∀ c ∈ s, isDigit c) (hpos : 0 < numberOf s)
    (hmax : numberOf s ≤ MAX_AMOUNT_CENTS) (sep : JsString) :
    parseAmount (centsParamToInput (.text s)) sep = some (numberOf s) := by
  obtain ⟨v, hv⟩ := Int.eq_ofNat_of_zero_le hpos.le
  rw [centsParamToInput_text hne hs, if_pos ⟨hpos, hmax⟩]
  rw [hv] at hpos hmax ⊢
  have hwhole := prints_decimal (v / 100)
  -- two digits after the point
  have hpad : padStart 2 ((v : ℤ) % 100) = [digit ((v : ℤ) % 100 / 10), digit ((v : ℤ) % 100)] :=
    padStart_two (by omega) (by omega)
  have hdiv : JsString.decimal ((v : ℤ) / 100) = JsString.decimal ((v / 100 : ℕ) : ℤ) := by push_cast; rfl
  rw [hpad, hdiv]
  refine parseAmount_dotted hwhole.nonempty hwhole.digits ?_ rfl ?_ hpos hmax sep
  · intro c hc
    simp only [List.mem_cons, List.not_mem_nil, or_false] at hc
    rcases hc with rfl | rfl
    · exact isDigit_digit _
    · exact isDigit_digit _
  · unfold centsOf
    rw [hwhole.value, numberOf_two]
    simp only [List.length_cons, List.length_nil]
    push_cast
    omega

/-- A prefill and what is read of it.

    * `balance`: the cents of a balance come back.
    * `param`: a parameter gives a prefill that is read as the number it
      denotes, or none. -/
structure Prefill : Prop where
  balance : ∀ c : ℤ, 1 ≤ c → c ≤ MAX_AMOUNT_CENTS → ∀ sep,
    parseAmount (centsParamToInput (.text (JsString.decimal c))) sep = some c
  param : ∀ p, centsParamToInput p = [] ∨ ∃ s, p = .text s ∧ s ≠ [] ∧ (∀ c ∈ s, isDigit c) ∧
    ∀ sep, parseAmount (centsParamToInput p) sep = some (numberOf s)

theorem prefill : Prefill where
  balance := by
    intro c hpos hmax sep
    obtain ⟨n, rfl⟩ := Int.eq_ofNat_of_zero_le (by omega : 0 ≤ c)
    have hprints := prints_decimal n
    have hread := parseAmount_prefill hprints.nonempty hprints.digits (by rw [hprints.value]; omega)
      (by rw [hprints.value]; exact hmax) sep
    rwa [hprints.value] at hread
  param := by
    intro p
    -- a parameter prefills nothing, or a number in range
    by_cases hempty : centsParamToInput p = []
    · exact Or.inl hempty
    · cases p with
      | text s =>
        by_cases hdigits : s ≠ [] ∧ s.all isDigit
        · obtain ⟨hne, hs⟩ := hdigits
          have hs := List.all_eq_true.mp hs
          refine Or.inr ⟨s, rfl, hne, hs, ?_⟩
          have htext := centsParamToInput_text hne hs
          by_cases hrange : 0 < numberOf s ∧ numberOf s ≤ MAX_AMOUNT_CENTS
          · exact parseAmount_prefill hne hs hrange.1 hrange.2
          · rw [if_neg hrange] at htext
            exact absurd htext hempty
        · refine absurd ?_ hempty
          unfold centsParamToInput
          exact if_pos hdigits
      | repeated ss => exact Or.inl rfl
      | missing => exact Or.inl rfl

end Homi.Mobile
