import Homi.Mobile.Amount
import Homi.Mobile.Forms

/-! # What the add-expense form sends

  `AddExpenseForm` (`apps/mobile/src/expenses/AddExpenseScreen.tsx`): from
  the typed fields to the request, with the check that the button obeys and
  the preview of an equal split (`split-preview.ts`).

  All amounts are integers, so sums and floors are exact where the check
  lets them pass: the shares are at least 0 and sum to at most
  `MAX_AMOUNT_CENTS`.
-/

namespace Homi.Mobile

/-- `SplitMode` of the app. -/
inductive FormMode where
  | equal
  | exact
deriving DecidableEq

def FormMode.mode : FormMode → SplitMode
  | .equal => .equal
  | .exact => .exact

structure EqualSplitPreview where
  eachCents : ℤ
  payerExtraCents : ℤ
deriving DecidableEq

def equalSplitPreview (totalCents participantCount : ℤ) : EqualSplitPreview :=
  let eachCents := totalCents / participantCount
  ⟨eachCents, totalCents - eachCents * participantCount⟩

/-- The fields of the form, the members it was mounted with, the user and
    the decimal separator of the device. -/
structure ExpenseForm where
  members : List JsString
  viewerId : Option JsString
  decimalSeparator : JsString
  amount : JsString
  paidBy : Option JsString
  mode : FormMode
  exact : Record JsString JsString
  description : JsString

namespace ExpenseForm

def amountCents (f : ExpenseForm) : Option ℤ := parseAmount f.amount f.decimalSeparator

def payer (f : ExpenseForm) : Option JsString := f.paidBy.or f.viewerId

/-- Everyone in the house. -/
def participants (f : ExpenseForm) : List JsString := f.members

/-- The cents in the field of `id`, 0 for an empty one. -/
def exactShare (f : ExpenseForm) (id : JsString) : Option ℤ :=
  let raw := trim ((f.exact.lookup id).getD [])
  if raw = [] then some 0 else parseCents raw f.decimalSeparator

def exactShares (f : ExpenseForm) : Record JsString (Option ℤ) :=
  f.participants.foldl (fun shares id => shares.insert id (f.exactShare id)) ∅

def exactTotal (f : ExpenseForm) : ℤ := (f.exactShares.rows.map fun (_, c) => c.getD 0).sum

def exactUnreadable (f : ExpenseForm) : Bool := f.exactShares.rows.any fun (_, c) => c.isNone

def exactMismatch (f : ExpenseForm) : Bool :=
  f.mode = .exact ∧ f.amountCents.isSome ∧ (f.exactUnreadable ∨ f.amountCents ≠ some f.exactTotal)

def canSubmit (f : ExpenseForm) : Bool :=
  f.amountCents.isSome && f.payer.isSome && !f.exactMismatch

/-- What `submit` sends. -/
def submit (f : ExpenseForm) : Option CreateExpenseInput := do
  let payer ← f.payer
  let amountCents ← f.amountCents
  if f.exactMismatch then none
  else
    some {
      description := if trim f.description = [] then js "Expense" else trim f.description
      amountCents := amountCents
      paidBy := payer
      mode := f.mode.mode
      participants := f.participants
      exactCents :=
        if f.mode = .exact then
          some (f.participants.map fun id => (id, ((f.exactShares.lookup id).getD none).getD 0))
        else none }

end ExpenseForm

end Homi.Mobile
