import Homi.Api.Cursor
import Homi.Api.LedgerService

/-! # Ledger pages

  `getLedger` and `getLedgerPage` of `apps/api/src/ledger/ledger.service.ts`.
  The reads of a page share one snapshot of the database.

  Postgres compares `uuid` columns by their bytes, which for the texts of
  a column is the order of the texts.
-/

namespace Homi

/-- A row of one of the two tables, with its id. -/
inductive LedgerRow where
  | expense (id : Uuid) (row : Expense)
  | payment (id : Uuid) (row : Payment)
deriving DecidableEq

def LedgerRow.id : LedgerRow → Uuid
  | .expense id _ => id
  | .payment id _ => id

def LedgerRow.createdAt : LedgerRow → Millis
  | .expense _ row => row.createdAt
  | .payment _ row => row.createdAt

/-- An entry of a page; an expense comes with its splits. -/
inductive LedgerEntry where
  | expense (id : Uuid) (row : Expense) (splits : Splits Uuid)
  | payment (id : Uuid) (row : Payment)
deriving DecidableEq

/-- The row behind an entry. -/
def LedgerEntry.row : LedgerEntry → LedgerRow
  | .expense id row _ => .expense id row
  | .payment id row => .payment id row

structure LedgerPage where
  entries : List LedgerEntry
  nextCursor : Option JsString
deriving DecidableEq

/-- `(created_at, id) < (t, id)`, when there is a cursor. -/
def afterCursor (cursor : Option (ℤ × Uuid)) (createdAt : Millis) (id : Uuid) : Bool :=
  match cursor with
  | none => true
  | some (t, id') => (createdAt : ℤ) < t || ((createdAt : ℤ) = t && id < id')

/-- `SELECT … ORDER BY created_at DESC, id DESC LIMIT fetch`. -/
def selectNewest {α : Type} (T : Table Uuid α) (matching : α → Bool) (createdAt : α → Millis)
    (cursor : Option (ℤ × Uuid)) (fetch : ℕ) : List (Uuid × α) :=
  ((T.rows.filter fun r => matching r.2 && afterCursor cursor (createdAt r.2) r.1).insertionSort
    fun a b => createdAt b.2 < createdAt a.2 ∨ (createdAt b.2 = createdAt a.2 ∧ b.1 ≤ a.1)).take fetch

/-- The comparator of the merge. -/
def compareRows (a b : LedgerRow) : ℤ :=
  let dt := (b.createdAt : ℤ) - a.createdAt
  if dt ≠ 0 then dt
  else if a.id < b.id then 1 else -1

/-- `splitsByExpense.get(id)`. -/
def splitsByExpense (d : Db) (id : Uuid) : Splits Uuid :=
  ((d.splitsOf id).map Prod.snd).foldl (fun r s => r.insert s.userId s.amountCents) ∅

def LedgerRow.entry (d : Db) : LedgerRow → LedgerEntry
  | .expense id row => .expense id row (splitsByExpense d id)
  | .payment id row => .payment id row

def getLedgerPage (d : Db) (houseId : JsString) (cursor : Option (ℤ × Uuid)) (fetch limit : ℕ) :
    LedgerPage :=
  let h := toUuid houseId
  let expenseRows := selectNewest d.expenses (fun e => e.houseId = h && e.deletedAt = none)
    Expense.createdAt cursor fetch
  let paymentRows := selectNewest d.payments (fun p => p.houseId = h) Payment.createdAt cursor fetch
  let merged := ((expenseRows.map fun (id, e) => LedgerRow.expense id e) ++
    paymentRows.map fun (id, p) => LedgerRow.payment id p).insertionSort
      fun a b => compareRows a b ≤ 0
  let page := merged.take limit
  { entries := page.map (LedgerRow.entry d)
    nextCursor := if limit < merged.length then page.getLast?.map fun last =>
        encodeCursor ⟨toISOString last.createdAt, last.id⟩
      else none }

/-- What the keyset compares with: `new Date(cursor.t)` and `cursor.id`. -/
def LedgerCursor.place (parseOther : JsString → Option ℤ) (cursor : LedgerCursor) : ℤ × Uuid :=
  ((dateParse parseOther cursor.t).getD 0, toUuid cursor.id)

/-- An empty cursor is none. -/
def getLedger (parseOther : JsString → Option ℤ) (d : Db) (houseId : JsString)
    (cursor : Option JsString) (limit : ℕ) : Except Err LedgerPage :=
  match cursor.filter (· ≠ []) with
  | none => .ok (getLedgerPage d houseId none (limit + 1) limit)
  | some raw => match decodeCursor parseOther raw with
      | .ok cursor =>
          .ok (getLedgerPage d houseId (some (cursor.place parseOther)) (limit + 1) limit)
      | .error err => .error err

end Homi
