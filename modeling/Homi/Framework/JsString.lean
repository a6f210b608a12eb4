import Mathlib.Data.List.Lex
import Mathlib.Order.Fin.Basic

/-! # JavaScript strings

  A JavaScript string is a sequence of UTF-16 code units, and `<` compares
  strings unit by unit.

  * `js`: the string of a literal.
  * `JsString.split`: `s.split(sep)` for a separator of one unit.
  * `JsString.decimal`: `String(n)` for an integer.
-/

/-- One UTF-16 code unit. -/
abbrev CodeUnit : Type := Fin 65536

abbrev JsString : Type := List CodeUnit

instance (priority := high) CodeUnit.bound : @NeZero ℕ Zero.ofOfNat0 65536 := ⟨by decide⟩

instance (priority := high) JsString.lawfulBEq : @LawfulBEq (List CodeUnit) List.instBEq := inferInstance

/-- The code units of one character. -/
def utf16 (c : Char) : List CodeUnit :=
  if c.toNat < 65536 then [Fin.ofNat 65536 c.toNat]
  else [Fin.ofNat 65536 (55296 + (c.toNat - 65536) / 1024),
    Fin.ofNat 65536 (56320 + (c.toNat - 65536) % 1024)]

/-- The string of a list of characters. -/
def ofChars (cs : List Char) : JsString := cs.flatMap utf16

/-- A string literal. -/
def js (s : String) : JsString := ofChars s.toList

namespace JsString

/-! ## Section 1: Splitting -/

/-- `s.split(sep)`. -/
def split (sep : CodeUnit) : JsString → List JsString
  | [] => [[]]
  | c :: cs =>
      if c = sep then [] :: split sep cs
      else match split sep cs with
        | [] => [[c]]
        | part :: parts => (c :: part) :: parts

theorem split_of_notMem {sep : CodeUnit} {s : JsString} (h : sep ∉ s) : split sep s = [s] := by
  induction s with
  | nil => rfl
  | cons c cs ih =>
    have hc : c ≠ sep := fun heq => h (heq ▸ List.mem_cons_self ..)
    have hcs : sep ∉ cs := fun hmem => h (List.mem_cons_of_mem _ hmem)
    simp [split, hc, ih hcs]

theorem split_append {sep : CodeUnit} {s : JsString} (h : sep ∉ s) (t : JsString) :
    split sep (s ++ sep :: t) = s :: split sep t := by
  induction s with
  | nil => simp [split]
  | cons c cs ih =>
    have hc : c ≠ sep := fun heq => h (heq ▸ List.mem_cons_self ..)
    have hcs : sep ∉ cs := fun hmem => h (List.mem_cons_of_mem _ hmem)
    simp [split, hc, ih hcs]

/-! ## Section 2: Numbers -/

/-- `String(n)`. -/
def decimal : ℤ → JsString
  | .ofNat n => ofChars (Nat.toDigits 10 n)
  | .negSucc n => ofChars ('-' :: Nat.toDigits 10 (n + 1))

theorem notMem_utf16 {c d : Char} (hc : c.toNat < 55296) (hd : d.toNat < 55296) (hne : d ≠ c) :
    ∀ u ∈ utf16 d, u ∉ utf16 c := by
  intro u hu hu'
  rw [utf16, if_pos (by omega), List.mem_singleton] at hu hu'
  rw [hu] at hu'
  have hval := congrArg Fin.val hu'
  simp only [Fin.ofNat, Nat.mod_eq_of_lt (by omega : c.toNat < 65536),
    Nat.mod_eq_of_lt (by omega : d.toNat < 65536)] at hval
  exact hne (Char.toNat_inj.mp hval)

/-- No decimal number contains a comma. -/
theorem comma_notMem_decimal (n : ℤ) : ∀ u ∈ utf16 ',', u ∉ decimal n := by
  have hdigits : ∀ m, ∀ u ∈ utf16 ',', u ∉ ofChars (Nat.toDigits 10 m) := by
    intro m u hu hmem
    obtain ⟨d, hd, hud⟩ := List.mem_flatMap.mp hmem
    have hdigit := Nat.isDigit_of_mem_toDigits (by decide) (by decide) hd
    have hle : d.toNat ≤ 57 := by
      simp only [Char.isDigit, Bool.and_eq_true, decide_eq_true_eq] at hdigit
      exact hdigit.2
    refine notMem_utf16 (by omega) (by decide) ?_ u hu hud
    rintro rfl
    exact absurd hdigit (by decide)
  intro u hu hmem
  cases n with
  | ofNat m => exact hdigits m u hu hmem
  | negSucc m =>
    have hcons : u ∈ utf16 '-' ++ ofChars (Nat.toDigits 10 (m + 1)) := hmem
    rcases List.mem_append.mp hcons with h | h
    · exact notMem_utf16 (by decide) (by decide) (by decide) u hu h
    · exact hdigits (m + 1) u hu h

end JsString
