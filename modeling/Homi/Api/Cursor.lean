import Homi.Framework.Encoding
import Homi.Domain.Instant
import Homi.Api.Access

/-! # Ledger cursors

  `apps/api/src/lib/cursor.ts`: the place of an entry in the ledger as an
  opaque text, `{ t, id }` as JSON in base64url.

  `Date.parse` reads the texts that `toISOString` prints; what it makes of
  any other text is up to the engine (`parseOther`).
-/

namespace Homi

open Encoding

structure LedgerCursor where
  t : JsString
  id : JsString
deriving DecidableEq

/-- `JSON.stringify(cursor)`. -/
def LedgerCursor.json (cursor : LedgerCursor) : JsString :=
  js "\x7b\"t\":" ++ Json.quote cursor.t ++ js ",\"id\":" ++ Json.quote cursor.id ++ js "\x7d"

def encodeCursor (cursor : LedgerCursor) : JsString := toBase64url (utf8Encode cursor.json)

def invalidCursor : Err := .badRequest (js "Invalid cursor")

def decodeCursor (parseOther : JsString → Option ℤ) (raw : JsString) : Except Err LedgerCursor :=
  match Json.parse (utf8Decode (ofBase64url raw)) with
  | none => .error invalidCursor
  | some parsed => match parsed.field? (js "t"), parsed.field? (js "id") with
      | some (.string t), some (.string id) =>
          if (dateParse parseOther t).isSome && UUID_RE id then .ok ⟨t, id⟩
          else .error invalidCursor
      | _, _ => .error invalidCursor

/-! ## Section 2: Round trip -/

theorem plain_append {s t : JsString} (h : Json.Plain s) (h' : Json.Plain t) : Json.Plain (s ++ t) :=
  fun c hc => (List.mem_append.mp hc).elim (h c) (h' c)

theorem plain_cons {c : CodeUnit} {s : JsString}
    (hc : 32 ≤ c.val ∧ c.val < 127 ∧ c ≠ Json.quoteMark ∧ c ≠ Json.backslash) (h : Json.Plain s) :
    Json.Plain (c :: s) := by
  intro x hx
  rcases List.mem_cons.mp hx with rfl | hx
  · exact hc
  · exact h x hx

/-- A unit between `*` and `Z` is plain. -/
theorem plain_between {c : CodeUnit} (h : 42 ≤ c.val) (h' : c.val ≤ 90) :
    32 ≤ c.val ∧ c.val < 127 ∧ c ≠ Json.quoteMark ∧ c ≠ Json.backslash := by
  refine ⟨by omega, by omega, ?_, ?_⟩ <;> rintro rfl
  · exact absurd h (by decide)
  · exact absurd h' (by decide)

theorem plain_digitsOf (w : ℕ) (n : ℤ) : Json.Plain (digitsOf w n) := by
  intro c hc
  have hdigit := List.all_eq_true.mp (all_digitsOf w n) c hc
  unfold isDigit at hdigit
  simp only [Bool.and_eq_true, decide_eq_true_eq, Fin.le_def] at hdigit
  have h48 : ((48 : CodeUnit) : ℕ) = 48 := rfl
  have h57 : ((57 : CodeUnit) : ℕ) = 57 := rfl
  exact plain_between (by omega) (by omega)

theorem plain_padStart {w : ℕ} {n : ℤ} (h0 : 0 ≤ n) (h : n < 10 ^ (w + 1)) :
    Json.Plain (padStart (w + 1) n) := by
  rw [padStart_eq w h0 h]
  exact plain_digitsOf _ _

theorem plain_toISOString {t : ℤ} (h0 : 0 ≤ t) (h : t ≤ MAX_TIME) : Json.Plain (toISOString t) := by
  have hday : 0 ≤ t / MS_PER_DAY ∧ t / MS_PER_DAY ≤ 100000000 := by
    unfold MS_PER_DAY MAX_TIME at *
    omega
  obtain ⟨hy0, hy⟩ := year_bounds hday.1 hday.2
  obtain ⟨⟨hm1, hm12⟩, hd1, hdlen⟩ := Calendar.dateOf_real (t / MS_PER_DAY)
  have hd31 := (Calendar.monthLength_bounds (y := (Calendar.dateOf (t / MS_PER_DAY)).y) hm1 hm12).2
  have hms : 0 ≤ t % MS_PER_DAY ∧ t % MS_PER_DAY < 86400000 := by
    unfold MS_PER_DAY
    omega
  have hyear : Json.Plain (yearText (Calendar.dateOf (t / MS_PER_DAY)).y) := by
    unfold yearText
    split
    · exact plain_padStart hy0 (by norm_num; omega)
    · rw [if_neg (by omega)]
      exact plain_cons (by decide) (plain_padStart hy0 (by norm_num; omega))
  refine plain_append hyear (plain_cons (by decide) (plain_append
    (plain_padStart (by omega) (by norm_num; omega)) (plain_cons (by decide) (plain_append
      (plain_padStart (by omega) (by norm_num; omega)) (plain_cons (by decide) ?_)))))
  refine plain_append (plain_padStart (by omega) (by norm_num; omega)) (plain_cons (by decide)
    (plain_append (plain_padStart (by omega) (by norm_num; omega)) (plain_cons (by decide)
      (plain_append (plain_padStart (by omega) (by norm_num; omega)) (plain_cons (by decide)
        (plain_append (plain_padStart (by omega) (by norm_num; omega))
          (plain_cons (by decide) fun c hc => by cases hc)))))))

theorem plain_uuid {id : JsString} (h : UUID_RE id = true) : Json.Plain id := by
  intro c hc
  obtain ⟨i, hi⟩ := List.mem_iff_getElem?.mp hc
  have hall := (Bool.and_eq_true_iff.mp h).2
  have hunit := List.all_eq_true.mp hall (c, i) (List.mem_zipIdx_iff_getElem?.mpr hi)
  dsimp only at hunit
  split at hunit
  · rw [of_decide_eq_true hunit]
    decide
  · unfold isHex isDigit at hunit
    simp only [Bool.or_eq_true, Bool.and_eq_true, decide_eq_true_eq, Fin.le_def] at hunit
    have hval : ∀ n : ℕ, n < 65536 → ((Fin.ofNat 65536 n : CodeUnit) : ℕ) = n := fun n hn =>
      Nat.mod_eq_of_lt hn
    have h48 : ((48 : CodeUnit) : ℕ) = 48 := rfl
    have h57 : ((57 : CodeUnit) : ℕ) = 57 := rfl
    have h65 : ((65 : CodeUnit) : ℕ) = 65 := rfl
    have h70 : ((70 : CodeUnit) : ℕ) = 70 := rfl
    have h97 : ((97 : CodeUnit) : ℕ) = 97 := rfl
    have h102 : ((102 : CodeUnit) : ℕ) = 102 := rfl
    refine ⟨by omega, by omega, ?_, ?_⟩ <;> rintro rfl <;> revert hunit <;> decide

/-- The cursor of a ledger entry decodes to its place. -/
theorem decode_encode (parseOther : JsString → Option ℤ) {t : ℤ} (h0 : 0 ≤ t) (h : t ≤ MAX_TIME)
    {id : JsString} (hid : UUID_RE id = true) :
    decodeCursor parseOther (encodeCursor ⟨toISOString t, id⟩) = .ok ⟨toISOString t, id⟩ := by
  have ht := plain_toISOString h0 h
  have hplain := plain_uuid hid
  have hnil : Json.Plain [] := fun c hc => by cases hc
  have hkey : Json.Plain (js "t") := plain_cons (c := 116) (by decide) hnil
  have hkey' : Json.Plain (js "id") :=
    plain_cons (c := 105) (by decide) (plain_cons (c := 100) (by decide) hnil)
  have hjson : (LedgerCursor.mk (toISOString t) id).json =
      Json.pairText (js "t") (toISOString t) (js "id") id := by
    unfold LedgerCursor.json Json.quote Json.pairText
    rw [Json.quoteBody_plain ht, Json.quoteBody_plain hplain]
    simp only [List.append_assoc, List.cons_append, List.nil_append]
    rfl
  have hascii := Json.ascii_pairText hkey ht hkey' hplain
  unfold decodeCursor encodeCursor
  rw [hjson, token_roundTrip hascii, Json.parse_pairText hkey ht hkey' hplain]
  show (if (dateParse parseOther (toISOString t)).isSome && UUID_RE id then _ else _) = _
  rw [dateParse_toISOString parseOther h0 h, hid]
  rfl

end Homi
