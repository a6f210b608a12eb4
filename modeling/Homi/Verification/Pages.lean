import Mathlib.Data.Prod.Lex
import Homi.Api.LedgerPages
import Homi.Framework.Keyset
import Homi.Verification.Payments

/-! # Walks through the ledger

  Following `nextCursor` skips and repeats no entry, whatever is written
  between the pages. The order of the entries is that of their places,
  `(created_at, id)`, and no commit moves an entry or takes it away.
-/

namespace Homi

open ReadCommitted Keyset

/-! ## Section 1: Places -/

/-- A place in the ledger. -/
abbrev Place : Type := ℤ ×ₗ Uuid

def LedgerRow.place (r : LedgerRow) : Place := toLex ((r.createdAt : ℤ), r.id)

/-- The rows of the ledger of a house. -/
def ledgerRows (d : Db) (houseId : Uuid) : List LedgerRow :=
  ((d.expenses.rows.filter fun r => r.2.houseId = houseId && r.2.deletedAt = none).map
    fun (id, e) => LedgerRow.expense id e) ++
  (d.payments.rows.filter fun r => r.2.houseId = houseId).map fun (id, p) => LedgerRow.payment id p

/-- The places that are taken. -/
def ledgerPlaces (d : Db) (houseId : Uuid) : List Place := (ledgerRows d houseId).map LedgerRow.place

theorem mem_ledgerRows {d : Db} {h : Uuid} {r : LedgerRow} : r ∈ ledgerRows d h ↔ match r with
    | .expense id e => d.expenses.lookup id = some e ∧ e.houseId = h ∧ e.deletedAt = none
    | .payment id p => d.payments.lookup id = some p ∧ p.houseId = h := by
  cases r <;> simp [ledgerRows]

/-- What the ids and the dates of the entries are. -/
structure LedgerIds (d : Db) (houseId : Uuid) : Prop where
  apart : ∀ id e p, d.expenses.lookup id = some e → d.payments.lookup id = some p → False
  uuid : ∀ r ∈ ledgerRows d houseId, UUID_RE r.id = true ∧ toUuid r.id = r.id
  date : ∀ r ∈ ledgerRows d houseId, (r.createdAt : ℤ) ≤ MAX_TIME

theorem LedgerIds.inj {d : Db} {h : Uuid} (hids : LedgerIds d h) {r r' : LedgerRow}
    (hr : r ∈ ledgerRows d h) (hr' : r' ∈ ledgerRows d h) (hid : r.id = r'.id) : r = r' := by
  rw [mem_ledgerRows] at hr hr'
  cases r with
  | expense id e =>
    cases r' with
    | expense id' e' =>
      cases hid
      dsimp only at hr hr'
      rw [hr.1] at hr'
      cases hr'.1
      rfl
    | payment id' p => cases hid; exact (hids.apart _ _ _ hr.1 hr'.1).elim
  | payment id p =>
    cases r' with
    | expense id' e => cases hid; exact (hids.apart _ _ _ hr'.1 hr.1).elim
    | payment id' p' =>
      cases hid
      dsimp only at hr hr'
      rw [hr.1] at hr'
      cases hr'.1
      rfl

theorem ledgerRows_nodup (d : Db) (h : Uuid) : (ledgerRows d h).Nodup := by
  have hrows : d.expenses.rows.Nodup := d.expenses.nodup_keys_rows.of_map
  have hrows' : d.payments.rows.Nodup := d.payments.nodup_keys_rows.of_map
  refine List.nodup_append.mpr ⟨(hrows.filter _).map ?_, (hrows'.filter _).map ?_, ?_⟩
  · rintro ⟨_, _⟩ ⟨_, _⟩ heq
    cases heq
    rfl
  · rintro ⟨_, _⟩ ⟨_, _⟩ heq
    cases heq
    rfl
  · intro r hr r' hr' heq
    obtain ⟨_, _, rfl⟩ := List.mem_map.mp hr
    obtain ⟨_, _, rfl⟩ := List.mem_map.mp hr'
    cases heq

theorem LedgerIds.nodup {d : Db} {h : Uuid} (hids : LedgerIds d h) : (ledgerPlaces d h).Nodup := by
  refine (List.nodup_map_iff_inj_on (ledgerRows_nodup d h)).mpr fun r hr r' hr' heq => ?_
  exact hids.inj hr hr' (Prod.mk.inj (toLex.injective heq)).2

/-! ## Section 2: Pages -/

/-- The place of a cursor. -/
def placeOf (cursor : Option (ℤ × Uuid)) : Option Place := cursor.map toLex

theorem afterCursor_eq (cursor : Option (ℤ × Uuid)) (r : LedgerRow) :
    afterCursor cursor r.createdAt r.id = below (placeOf cursor) r.place := by
  cases cursor with
  | none => rfl
  | some c =>
    show ((r.createdAt : ℤ) < c.1 || ((r.createdAt : ℤ) = c.1 && r.id < c.2) : Bool) =
      decide (toLex ((r.createdAt : ℤ), r.id) < toLex c)
    rw [Bool.eq_iff_iff, decide_eq_true_iff, Prod.Lex.toLex_lt_toLex]
    simp

theorem compareRows_le {a b : LedgerRow} : compareRows a b ≤ 0 ↔ b.place ≤ a.place := by
  show _ ↔ toLex ((b.createdAt : ℤ), b.id) ≤ toLex ((a.createdAt : ℤ), a.id)
  rw [Prod.Lex.toLex_le_toLex]
  unfold compareRows
  dsimp only
  split
  · next hne => constructor <;> intro h <;> omega
  · next heq =>
    rw [not_not, sub_eq_zero] at heq
    split
    · next hlt => simp [heq, hlt]
    · next hle => simp [heq, not_lt.mp hle]

/-- One of the two selects, as a part of the ledger. -/
theorem selectNewest_eq {α : Type} (T : Table Uuid α) (matching : α → Bool) (createdAt : α → Millis)
    (cursor : Option (ℤ × Uuid)) (fetch : ℕ) (f : Uuid × α → LedgerRow)
    (hid : ∀ r, (f r).id = r.1) (hat : ∀ r, (f r).createdAt = createdAt r.2) :
    (selectNewest T matching createdAt cursor fetch).map f =
      (newest LedgerRow.place (((T.rows.filter fun r => matching r.2).map f).filter
        fun r => below (placeOf cursor) r.place)).take fetch := by
  have hfilter : ((T.rows.filter fun r => matching r.2).map f).filter
      (fun r => below (placeOf cursor) r.place) =
      (T.rows.filter fun r => matching r.2 && afterCursor cursor (createdAt r.2) r.1).map f := by
    rw [List.filter_map, List.filter_filter]
    congr 1
    refine List.filter_congr fun r _ => ?_
    show (below (placeOf cursor) (f r).place && matching r.2) = _
    rw [← afterCursor_eq, hid, hat, Bool.and_comm]
  rw [hfilter, selectNewest, List.map_take, newest]
  congr 1
  refine List.map_insertionSort _ _ _ _ fun a _ b _ => ?_
  show _ ↔ toLex (((f b).createdAt : ℤ), (f b).id) ≤ toLex (((f a).createdAt : ℤ), (f a).id)
  rw [Prod.Lex.toLex_le_toLex, hid, hid, hat, hat]
  simp only [Nat.cast_lt, Nat.cast_inj]

/-- The rows of a page, before their splits are added. -/
def pageRows (d : Db) (houseId : JsString) (cursor : Option (ℤ × Uuid)) (limit : ℕ) : List LedgerRow :=
  let A := (d.expenses.rows.filter fun r => r.2.houseId = toUuid houseId && r.2.deletedAt = none).map
    fun (id, e) => LedgerRow.expense id e
  let B := (d.payments.rows.filter fun r => r.2.houseId = toUuid houseId).map
    fun (id, p) => LedgerRow.payment id p
  newest LedgerRow.place
    ((newest LedgerRow.place (A.filter fun r => below (placeOf cursor) r.place)).take (limit + 1) ++
      (newest LedgerRow.place (B.filter fun r => below (placeOf cursor) r.place)).take (limit + 1))

theorem getLedgerPage_eq (d : Db) (houseId : JsString) (cursor : Option (ℤ × Uuid)) (limit : ℕ) :
    getLedgerPage d houseId cursor (limit + 1) limit =
      { entries := ((pageRows d houseId cursor limit).take limit).map (LedgerRow.entry d)
        nextCursor := if limit < (pageRows d houseId cursor limit).length then
            ((pageRows d houseId cursor limit).take limit).getLast?.map fun last =>
              encodeCursor ⟨toISOString last.createdAt, last.id⟩
          else none } := by
  have hsort : ∀ l : List LedgerRow, (l.insertionSort fun a b => compareRows a b ≤ 0) =
      newest LedgerRow.place l := by
    intro l
    have hmap := List.map_insertionSort (fun a b => compareRows a b ≤ 0)
      (fun a b : LedgerRow => b.place ≤ a.place) id l fun a _ b _ => compareRows_le
    rwa [List.map_id, List.map_id] at hmap
  unfold getLedgerPage pageRows
  dsimp only
  rw [selectNewest_eq (f := fun r => LedgerRow.expense r.1 r.2) d.expenses _ _ cursor (limit + 1)
      (fun _ => rfl) fun _ => rfl,
    selectNewest_eq (f := fun r => LedgerRow.payment r.1 r.2) d.payments _ _ cursor (limit + 1)
      (fun _ => rfl) fun _ => rfl, hsort]

/-- The place of an entry. -/
def LedgerEntry.place (e : LedgerEntry) : Place := e.row.place

/-- The cursor text of a row. -/
def LedgerRow.cursor (r : LedgerRow) : JsString := encodeCursor ⟨toISOString r.createdAt, r.id⟩

/-- What a page of one snapshot is, and the cursor it hands out. -/
structure PageSpec (d : Db) (h : Uuid) (limit : ℕ) (cursor : Option Place) (page : LedgerPage)
    (next : Option Place) : Prop where
  places : PageOf limit (ledgerPlaces d h) cursor (page.entries.map LedgerEntry.place) next
  shown : ∀ e ∈ page.entries, e.row ∈ ledgerRows d h ∧ e = e.row.entry d
  none_iff : page.nextCursor = none ↔ next = none
  of_some : ∀ raw, page.nextCursor = some raw → ∃ last, page.entries.getLast? = some last ∧
    raw = last.row.cursor ∧ next = some last.place

theorem getLedgerPage_spec {d : Db} {houseId : JsString} (limit : ℕ) (cursor : Option (ℤ × Uuid))
    (hids : LedgerIds d (toUuid houseId)) :
    ∃ next, PageSpec d (toUuid houseId) limit (placeOf cursor)
      (getLedgerPage d houseId cursor (limit + 1) limit) next := by
  set F := (ledgerRows d (toUuid houseId)).filter fun r => below (placeOf cursor) r.place with hF
  have hFplaces : F.map LedgerRow.place =
      (ledgerPlaces d (toUuid houseId)).filter (below (placeOf cursor)) := by
    rw [ledgerPlaces, List.filter_map]
    rfl
  have hnodup : (F.map LedgerRow.place).Nodup := hFplaces ▸ hids.nodup.filter _
  have hsplit := hnodup
  rw [hF, ledgerRows, List.filter_append] at hsplit
  -- expenses and payments are cut separately, and then merged
  have hpage : IsPage LedgerRow.place limit F ((pageRows d houseId cursor limit).take limit) := by
    rw [hF, ledgerRows, List.filter_append]
    exact isPage_merge hsplit
  -- one row more than the page tells whether there is a next one
  have hlen : limit < (pageRows d houseId cursor limit).length ↔ limit < F.length := by
    rw [hF, ledgerRows, List.filter_append, pageRows, length_newest]
    simp only [List.length_append, List.length_take, length_newest]
    omega
  rw [getLedgerPage_eq]
  generalize hR : (pageRows d houseId cursor limit).take limit = R at hpage
  have hentries : (R.map (LedgerRow.entry d)).map LedgerEntry.place = R.map LedgerRow.place := by
    rw [List.map_map]
    refine List.map_congr_left fun r _ => ?_
    cases r <;> rfl
  refine ⟨if limit < F.length then (R.map LedgerRow.place).getLast? else none, ⟨?_, ?_⟩, ?_, ?_, ?_⟩
  · rw [hentries, ← hFplaces]
    exact hpage.keys
  · rw [hentries, ← hFplaces, List.length_map]
  · intro e he
    obtain ⟨r, hr, rfl⟩ := List.mem_map.mp he
    have hrow : (r.entry d).row = r := by cases r <;> rfl
    rw [hrow]
    exact ⟨List.mem_of_mem_filter (hpage.sub r hr), rfl⟩
  · simp only [hlen, List.getLast?_map]
    split <;> simp
  · intro raw hraw
    simp only [hlen] at hraw
    split at hraw
    · next hlt =>
      obtain ⟨last, hlast, rfl⟩ := Option.map_eq_some_iff.mp hraw
      have hrow : (last.entry d).row = last := by cases last <;> rfl
      refine ⟨last.entry d, by rw [List.getLast?_map, hlast]; rfl, by rw [hrow]; rfl, ?_⟩
      rw [if_pos hlt, List.getLast?_map, hlast, LedgerEntry.place, hrow]
      rfl
    · cases hraw

/-- Following a cursor reads the page below its entry. -/
theorem getLedger_cursor (parseOther : JsString → Option ℤ) (d' : Db) (houseId : JsString)
    {d : Db} {h : JsString} (hids : LedgerIds d h) {r : LedgerRow} (hr : r ∈ ledgerRows d h) (limit : ℕ) :
    getLedger parseOther d' houseId (some r.cursor) limit =
      .ok (getLedgerPage d' houseId (some ((r.createdAt : ℤ), r.id)) (limit + 1) limit) ∧
    decodeCursor parseOther r.cursor = .ok ⟨toISOString r.createdAt, r.id⟩ ∧
    dateParse parseOther (toISOString r.createdAt) = some (r.createdAt : ℤ) := by
  obtain ⟨huuid, hlower⟩ := hids.uuid r hr
  have hdate := hids.date r hr
  have hdecode : decodeCursor parseOther r.cursor = .ok ⟨toISOString r.createdAt, r.id⟩ :=
    decode_encode parseOther (by omega) hdate huuid
  have hparse := dateParse_toISOString parseOther (by omega : 0 ≤ (r.createdAt : ℤ)) hdate
  refine ⟨?_, hdecode, hparse⟩
  have hne : r.cursor ≠ [] := by
    intro hnil
    rw [hnil] at hdecode
    cases hdecode
  unfold getLedger
  rw [Option.filter_some, if_pos (by simpa using hne)]
  dsimp only
  rw [hdecode]
  dsimp only
  rw [LedgerCursor.place, hparse, hlower]
  rfl

/-! ## Section 3: What commits do to the ledger -/

/-- A step of the system keeps the rows of the ledger. -/
theorem step_keeps {env : Env} {s s' : HomiState} {a : Action Call} (h : HomiReachable env s)
    (hstep : step (homi env) s a = some s') : Persist s.db s'.db ∧ PaymentsStep s.db s'.db := by
  have hs' : HomiReachable env s' := .step a h trivial hstep
  cases moves_of_step hstep with
  | start c hadm => exact ⟨Persist.refl _, PaymentsStep.refl _⟩
  | query p now pr next hp hprog => exact ⟨Persist.refl _, PaymentsStep.refl _⟩
  | emit p now pr hint next hp hprog => exact ⟨Persist.refl _, PaymentsStep.refl _⟩
  | kill p pr hp hrun => exact ⟨Persist.refl _, PaymentsStep.refl _⟩
  | stmt p now pr act next hp hprog hfree =>
    exact ⟨(LedgerRely.tick Tx.empty _ _ : LedgerRely False False _ _ _).toPersist,
      fun _ r hr => ⟨r, hr, .refl r⟩⟩
  | commit p now pr next hp hprog =>
    have hlast := List.mem_append_right s.wal (List.mem_singleton_self
      (⟨p, pr.call, pr.seen, pr.tx, s.db⟩ : HomiCommit))
    exact ⟨(known_reachable hs' _ hlast).step.toPersist, (paymentCommit_reachable hs' _ hlast).step⟩

theorem steps_keep {env : Env} {s s' : HomiState} (h : HomiReachable env s)
    (hsteps : Steps (homi env) s s') : Persist s.db s'.db ∧ PaymentsStep s.db s'.db := by
  induction hsteps with
  | refl => exact ⟨Persist.refl _, PaymentsStep.refl _⟩
  | step a hsteps hstep ih =>
    obtain ⟨hp, hpay⟩ := step_keeps (hsteps.reachable h) hstep
    exact ⟨ih.1.trans hp, ih.2.trans hpay⟩

/-- An entry stays where it is. -/
theorem places_keep {d d' : Db} {h : Uuid} (hp : Persist d d') (hpay : PaymentsStep d d') :
    ∀ k ∈ ledgerPlaces d h, k ∈ ledgerPlaces d' h := by
  intro k hk
  obtain ⟨r, hr, rfl⟩ := List.mem_map.mp hk
  rw [mem_ledgerRows] at hr
  cases r with
  | expense id e =>
    obtain ⟨hrow, hhouse, hlive⟩ := hr
    obtain ⟨e', hrow', hhouse', _, _, hat, hdeleted⟩ := hp.expenses id e hrow
    refine List.mem_map.mpr ⟨.expense id e', mem_ledgerRows.mpr ⟨hrow', hhouse'.trans hhouse,
      hdeleted.trans hlive⟩, ?_⟩
    show toLex ((e'.createdAt : ℤ), id) = toLex ((e.createdAt : ℤ), id)
    rw [hat]
  | payment id p =>
    obtain ⟨hrow, hhouse⟩ := hr
    obtain ⟨p', hrow', hlater⟩ := hpay id p hrow
    have hsame := hlater.same
    refine List.mem_map.mpr ⟨.payment id p', mem_ledgerRows.mpr ⟨hrow', ?_⟩, ?_⟩
    · rw [hsame]
      exact hhouse
    · show toLex ((p'.createdAt : ℤ), id) = toLex ((p.createdAt : ℤ), id)
      rw [hsame]

/-! ## Section 4: Walks -/

/-- A page that was read, and the snapshot it was read in. -/
structure Visit where
  db : Db
  page : LedgerPage

/-- Pages that were read one after the other, from no cursor on, while the
    system went on. The last one was read in `s`. -/
inductive LedgerWalk (env : Env) (parseOther : JsString → Option ℤ) (houseId : JsString) (limit : ℕ)
    (s₀ : HomiState) : HomiState → List Visit → Prop where
  | first {page : LedgerPage} (h : getLedger parseOther s₀.db houseId none limit = .ok page) :
      LedgerWalk env parseOther houseId limit s₀ s₀ [⟨s₀.db, page⟩]
  | next {s s' : HomiState} {visits : List Visit} {v : Visit} {raw : JsString} {page : LedgerPage}
      (h : LedgerWalk env parseOther houseId limit s₀ s visits) (hlast : visits.getLast? = some v)
      (hraw : v.page.nextCursor = some raw) (hsteps : Steps (homi env) s s')
      (hpage : getLedger parseOther s'.db houseId (some raw) limit = .ok page) :
      LedgerWalk env parseOther houseId limit s₀ s' (visits ++ [⟨s'.db, page⟩])

/-- All entries of the pages, in the order in which they were read. -/
def entriesOf (visits : List Visit) : List LedgerEntry := visits.flatMap fun v => v.page.entries

/-- What a walk has shown.

    * `desc`, `nodup`: the entries descend strictly, and none comes twice.
    * `complete`: when no cursor is left, all that was in the ledger at the
      start has come once.
    * `full`: only the last page may have fewer entries.
    * `ends`: there is no cursor exactly when nothing is left below.
    * `cursors`: a cursor is the place of the last entry, and is accepted. -/
structure LedgerShown (parseOther : JsString → Option ℤ) (houseId : JsString) (limit : ℕ) (d₀ : Db)
    (visits : List Visit) : Prop where
  shown : ∀ v ∈ visits, ∀ e ∈ v.page.entries, e.row ∈ ledgerRows v.db (toUuid houseId) ∧
    e = e.row.entry v.db
  desc : (entriesOf visits).Pairwise fun a b => b.place < a.place
  nodup : ((entriesOf visits).map fun e => e.row.id).Nodup
  complete : (∀ v, visits.getLast? = some v → v.page.nextCursor = none) →
    ∀ r ∈ ledgerRows d₀ (toUuid houseId), ((entriesOf visits).map fun e => e.row.id).count r.id = 1
  full : ∀ v ∈ visits.dropLast, v.page.entries.length = limit
  ends : ∀ v ∈ visits, v.page.nextCursor = none ↔ ∀ last, v.page.entries.getLast? = some last →
    ∀ r ∈ ledgerRows v.db (toUuid houseId), ¬ r.place < last.place
  cursors : ∀ v ∈ visits, ∀ raw, v.page.nextCursor = some raw → ∃ last,
    v.page.entries.getLast? = some last ∧
    decodeCursor parseOther raw = .ok ⟨toISOString last.row.createdAt, last.row.id⟩ ∧
    dateParse parseOther (toISOString last.row.createdAt) = some (last.row.createdAt : ℤ) ∧
    ∀ d, ∃ page, getLedger parseOther d houseId (some raw) limit = .ok page

section walks

variable {env : Env} {parseOther : JsString → Option ℤ} {houseId : JsString} {limit : ℕ}
  {s₀ s : HomiState} {visits : List Visit}

/-- The places that a walk shows are a walk through places. -/
structure Followed (env : Env) (houseId : JsString) (limit : ℕ) (s₀ s : HomiState)
    (visits : List Visit) (next : Option Place) : Prop where
  reachable : HomiReachable env s
  kept : ∀ k ∈ ledgerPlaces s₀.db (toUuid houseId), k ∈ ledgerPlaces s.db (toUuid houseId)
  there : ∀ e ∈ entriesOf visits, e.place ∈ ledgerPlaces s.db (toUuid houseId)
  walk : Walk limit (ledgerPlaces s₀.db (toUuid houseId))
    (visits.map fun v => v.page.entries.map LedgerEntry.place) next
  pages : ∀ v ∈ visits, ∃ cursor next, PageSpec v.db (toUuid houseId) limit cursor v.page next
  last : ∃ v cursor, visits.getLast? = some v ∧ v.db = s.db ∧
    PageSpec v.db (toUuid houseId) limit cursor v.page next

theorem PageSpec.there {d : Db} {h : Uuid} {cursor next : Option Place} {page : LedgerPage}
    (hpage : PageSpec d h limit cursor page next) : ∀ e ∈ page.entries, e.place ∈ ledgerPlaces d h :=
  fun e he => List.mem_map.mpr ⟨e.row, (hpage.shown e he).1, rfl⟩

theorem LedgerWalk.followed (hs₀ : HomiReachable env s₀)
    (h : LedgerWalk env parseOther houseId limit s₀ s visits)
    (hids : ∀ v ∈ visits, LedgerIds v.db (toUuid houseId)) :
    ∃ next, Followed env houseId limit s₀ s visits next := by
  induction h with
  | @first page hpage =>
    obtain rfl : getLedgerPage s₀.db houseId none (limit + 1) limit = page := Except.ok.inj hpage
    obtain ⟨next, hspec⟩ := getLedgerPage_spec limit none (hids _ (List.mem_singleton_self _))
    refine ⟨next, hs₀, fun _ hk => hk, fun e he => ?_, .first hspec.places, fun v hv => ?_,
      ⟨_, _, rfl, rfl, hspec⟩⟩
    · exact hspec.there e (by simpa [entriesOf] using he)
    · rw [List.mem_singleton.mp hv]
      exact ⟨_, _, hspec⟩
  | @next s s' visits v raw page hwalk hlast hraw hsteps hpage ih =>
    obtain ⟨next, hf⟩ := ih fun v hv => hids v (List.mem_append_left _ hv)
    obtain ⟨v', cursor, hlast', hdb, hspec⟩ := hf.last
    rw [hlast] at hlast'
    cases hlast'
    obtain ⟨e, he, rfl, rfl⟩ := hspec.of_some raw hraw
    have hmem := List.mem_of_getLast? hlast
    have hrow := (hspec.shown e (List.mem_of_getLast? he)).1
    obtain ⟨hget, _, _⟩ := getLedger_cursor parseOther s'.db houseId
      (hids v (List.mem_append_left _ hmem)) hrow limit
    rw [hget] at hpage
    obtain rfl := Except.ok.inj hpage
    obtain ⟨next', hspec'⟩ := getLedgerPage_spec limit
      (some ((e.row.createdAt : ℤ), e.row.id))
      (hids ⟨s'.db, _⟩ (List.mem_append_right _ (List.mem_singleton_self _)))
    obtain ⟨hpersist, hpay⟩ := steps_keep hf.reachable hsteps
    have hkeep := places_keep (h := toUuid houseId) hpersist hpay
    refine ⟨next', hsteps.reachable hf.reachable, fun k hk => hkeep k (hf.kept k hk), fun e' he' => ?_,
      ?_, fun v' hv' => ?_, ⟨_, _, by simp, rfl, hspec'⟩⟩
    · rw [entriesOf, List.flatMap_append, List.mem_append] at he'
      rcases he' with he' | he'
      · exact hkeep _ (hf.there e' he')
      · exact hspec'.there e' (by simpa using he')
    · rw [List.map_append]
      exact .next hf.walk (fun k hk => hkeep k (hf.kept k hk)) hspec'.places
    · rcases List.mem_append.mp hv' with hv' | hv'
      · exact hf.pages v' hv'
      · rw [List.mem_singleton.mp hv']
        exact ⟨_, _, hspec'⟩

/-- Following `nextCursor` from the head shows every entry once, whatever
    happens in between. -/
theorem ledger_pages (env : Env) (parseOther : JsString → Option ℤ) (houseId : JsString) (limit : ℕ)
    (hlimit : 1 ≤ limit) (s₀ s : HomiState) (hs₀ : HomiReachable env s₀) (visits : List Visit)
    (h : LedgerWalk env parseOther houseId limit s₀ s visits)
    (hids : ∀ v ∈ visits, LedgerIds v.db (toUuid houseId)) :
    LedgerShown parseOther houseId limit s₀.db visits := by
  obtain ⟨next, hf⟩ := h.followed hs₀ hids
  have hsound := hf.walk.sound hlimit
  obtain ⟨vlast, cursor, hlast, hdb, hspec⟩ := hf.last
  have hflatten : (visits.map fun v => v.page.entries.map LedgerEntry.place).flatten =
      (entriesOf visits).map LedgerEntry.place := by
    rw [entriesOf, List.map_flatMap, List.flatMap_def]
  have hdesc : (entriesOf visits).Pairwise fun a b => b.place < a.place :=
    List.pairwise_map.mp (hflatten ▸ hsound.desc)
  have hidsLast : LedgerIds s.db (toUuid houseId) := hdb ▸ hids vlast (List.mem_of_getLast? hlast)
  have hnodup : ((entriesOf visits).map fun e => e.row.id).Nodup := by
    refine List.pairwise_map.mpr (hdesc.imp_of_mem fun {a b} ha hb hlt heq => ?_)
    -- both are in the last snapshot, where an id has one place
    obtain ⟨r, hr, hra⟩ := List.mem_map.mp (hf.there a ha)
    obtain ⟨r', hr', hrb⟩ := List.mem_map.mp (hf.there b hb)
    have hid : r.id = r'.id :=
      ((Prod.mk.inj (toLex.injective hra)).2.trans heq).trans (Prod.mk.inj (toLex.injective hrb)).2.symm
    rw [← hra, ← hrb, hidsLast.inj hr hr' hid] at hlt
    exact lt_irrefl _ hlt
  refine ⟨fun v hv => ?_, hdesc, hnodup, fun hend r hr => ?_, fun v hv => ?_, fun v hv => ?_,
    fun v hv raw hraw => ?_⟩
  · -- entries are shown as the snapshot of their page has them
    obtain ⟨_, _, hpage⟩ := hf.pages v hv
    exact hpage.shown
  · refine List.count_eq_one_of_mem hnodup ?_
    -- without a next cursor, everything was shown
    have hnone : next = none := hspec.none_iff.mp (hend vlast hlast)
    have hcovered := hsound.covered r.place (List.mem_map_of_mem hr) fun c hc => by
      rw [hnone] at hc
      cases hc
    rw [hflatten] at hcovered
    obtain ⟨e, he, hplace⟩ := List.mem_map.mp hcovered
    exact List.mem_map.mpr ⟨e, he, (Prod.mk.inj (toLex.injective hplace)).2⟩
  · -- all pages but the last are full
    have hpage := hsound.full (v.page.entries.map LedgerEntry.place) (by
      rw [← List.map_dropLast]
      exact List.mem_map_of_mem hv)
    rwa [List.length_map] at hpage
  · -- there is no cursor exactly when nothing older is left
    obtain ⟨_, next', hpage⟩ := hf.pages v hv
    rw [hpage.none_iff, hpage.places.next_eq_none hlimit (hids v hv).nodup]
    simp only [List.getLast?_map, Option.map_eq_some_iff, ledgerPlaces, List.mem_map]
    constructor
    · intro hall last hl r hr
      exact hall last.place ⟨last, hl, rfl⟩ r.place ⟨r, hr, rfl⟩
    · rintro hall _ ⟨last, hl, rfl⟩ _ ⟨r, hr, rfl⟩
      exact hall last hl r hr
  · obtain ⟨_, _, hpage⟩ := hf.pages v hv
    -- the cursor names the last entry of its page
    obtain ⟨last, hl, rfl, _⟩ := hpage.of_some raw hraw
    have hrow := (hpage.shown last (List.mem_of_getLast? hl)).1
    have hget := fun d => getLedger_cursor parseOther d houseId (hids v hv) hrow limit
    exact ⟨last, hl, (hget v.db).2.1, (hget v.db).2.2, fun d => ⟨_, (hget d).1⟩⟩

end walks

/-! ## Section 5: A walk of two pages -/

/-- `ann` pays `cleo` and books a dinner. -/
def twoEntries : List (Action Call) := serial 1000 0 (opening ++ [
  (.createInvite theHouse ann none, 4),
  (.acceptInvite (js "token-3") cleo, 8),
  (.recordPayment theHouse ann (sampleUuid 200) { toUser := cleo, amountCents := 500 }, 10),
  (.createExpense theHouse ann (sampleUuid 201) (dinner 1000 [ann, cleo]), 12)])

/-- `LedgerIds`, as a test. -/
def ledgerIds (d : Db) (houseId : Uuid) : Bool :=
  (d.expenses.rows.all fun r => (d.payments.lookup r.1).isNone) &&
  (ledgerRows d houseId).all fun r =>
    UUID_RE r.id && decide (toUuid r.id = r.id) && decide ((r.createdAt : ℤ) ≤ MAX_TIME)

theorem ledgerIds_of_test {d : Db} {houseId : Uuid} (h : ledgerIds d houseId = true) :
    LedgerIds d houseId := by
  obtain ⟨hapart, hrows⟩ := Bool.and_eq_true_iff.mp h
  have hrow : ∀ r ∈ ledgerRows d houseId,
      (UUID_RE r.id = true ∧ toUuid r.id = r.id) ∧ (r.createdAt : ℤ) ≤ MAX_TIME := by
    intro r hr
    simpa using List.all_eq_true.mp hrows r hr
  refine ⟨fun id e p he hp => ?_, fun r hr => (hrow r hr).1, fun r hr => (hrow r hr).2⟩
  have hnone := List.all_eq_true.mp hapart (id, e) (d.expenses.mem_rows.mpr he)
  dsimp only at hnone
  rw [hp] at hnone
  cases hnone

theorem ledger_pages_two : ∃ s visits, HomiReachable sampleEnv s ∧ visits.length = 2 ∧
    (ledgerRows s.db theHouse).length = 2 ∧
    LedgerShown (fun _ => none) theHouse 1 s.db visits := by
  obtain ⟨s, hrun, hs⟩ := Run.exists_of_drive (homi sampleEnv) twoEntries
    (fun s => ledgerIds s.db theHouse && decide ((ledgerRows s.db theHouse).length = 2) &&
      (getLedgerPage s.db theHouse none 2 1).nextCursor.isSome) (by decide +kernel)
  simp only [Bool.and_eq_true, decide_eq_true_eq] at hs
  obtain ⟨⟨htest, hlen⟩, hcursor⟩ := hs
  have hids : LedgerIds s.db (toUuid theHouse) := ledgerIds_of_test htest
  obtain ⟨raw, hraw⟩ := Option.isSome_iff_exists.mp hcursor
  obtain ⟨next, hspec⟩ := getLedgerPage_spec 1 none hids
  obtain ⟨last, hlast, rfl, _⟩ := hspec.of_some raw hraw
  have hget := (getLedger_cursor (fun _ => none) s.db theHouse hids
    (hspec.shown last (List.mem_of_getLast? hlast)).1 1).1
  have hfirst : LedgerWalk sampleEnv (fun _ => none) theHouse 1 s s
      [⟨s.db, getLedgerPage s.db theHouse none 2 1⟩] := .first rfl
  have hwalk := hfirst.next rfl hraw .refl hget
  refine ⟨s, _, hrun, rfl, hlen, ledger_pages sampleEnv _ theHouse 1 le_rfl s s hrun _ hwalk ?_⟩
  intro v hv
  obtain rfl | rfl := by simpa using hv
  · exact hids
  · exact hids

end Homi
