import Homi.Mobile.AddExpense
import Homi.Verification.Amounts
import Homi.Verification.RoomSplits

/-! # The add-expense form and the splitter

  What the button lets through, the splitter accepts, and its shares are
  the ones that the form shows. The three checks are separate pieces of
  code: the form sums what it could read, the preview divides, and
  `computeSplits` does both again on the server.
-/

namespace Homi.Mobile

variable {f : ExpenseForm} {input : CreateExpenseInput} {amountCents : ℤ} {payer : JsString}

/-- What the server splits. -/
def CreateExpenseInput.split (input : CreateExpenseInput) : SplitInput JsString :=
  input.parsed.resolve.toSplit input.parsed.resolve.weightsBp

/-! ## Section 1: The gate -/

namespace ExpenseForm

theorem amountCents_bounds (h : f.amountCents = some amountCents) :
    0 < amountCents ∧ amountCents ≤ MAX_AMOUNT_CENTS := by
  obtain ⟨hcents, hpos⟩ := parseAmount_eq_some.mp h
  exact ⟨hpos, (parseCents_isAmount hcents).capped⟩

theorem exactShare_bounds {id : JsString} {cents : ℤ} (h : f.exactShare id = some cents) :
    0 ≤ cents ∧ cents ≤ MAX_AMOUNT_CENTS := by
  unfold exactShare at h
  dsimp only at h
  split at h
  · cases h
    decide
  · have hamount := parseCents_isAmount h
    exact ⟨hamount.nonneg, hamount.capped⟩

theorem lookup_exactShares {id : JsString} (hid : id ∈ f.members) :
    f.exactShares.lookup id = some (f.exactShare id) := by
  unfold exactShares
  rw [Table.lookup_foldl_insert]
  exact if_pos hid

theorem mem_exactShares {id : JsString} {c : Option ℤ} (h : f.exactShares.lookup id = some c) :
    id ∈ f.members ∧ c = f.exactShare id := by
  unfold exactShares at h
  rw [Table.lookup_foldl_insert] at h
  split at h
  · next hid => exact ⟨hid, (Option.some.inj h).symm⟩
  · cases h

theorem exactTotal_eq (hnd : f.members.Nodup) :
    f.exactTotal = (f.members.map fun id => (f.exactShare id).getD 0).sum := by
  refine @Table.total_of_lookup _ _ _ _ hnd f.exactShares f.exactShare ?_ fun _ (c : Option ℤ) => c.getD 0
  intro id
  unfold exactShares
  rw [Table.lookup_foldl_insert]
  rfl

theorem exactUnreadable_eq_false :
    f.exactUnreadable = false ↔ ∀ id ∈ f.members, (f.exactShare id).isSome := by
  unfold exactUnreadable
  rw [List.any_eq_false]
  constructor
  · intro h id hid
    have hrow : (id, f.exactShare id) ∈ f.exactShares.rows := Table.mem_rows.mpr (lookup_exactShares hid)
    have hread := h _ hrow
    rwa [Bool.not_eq_true, Option.isNone_eq_false_iff] at hread
  · rintro h ⟨id, c⟩ hrow
    obtain ⟨hid, rfl⟩ := mem_exactShares (Table.mem_rows.mp hrow)
    rw [Bool.not_eq_true, Option.isNone_eq_false_iff]
    exact h id hid

/-- What the gate lets through. -/
structure Sendable (f : ExpenseForm) (amountCents : ℤ) (payer : JsString) : Prop where
  amount : f.amountCents = some amountCents
  payer : f.payer = some payer
  agrees : f.exactMismatch = false

theorem sendable_of_canSubmit (h : f.canSubmit = true) :
    ∃ amountCents payer, f.Sendable amountCents payer := by
  unfold canSubmit at h
  rw [Bool.and_eq_true, Bool.and_eq_true, Bool.not_eq_true'] at h
  obtain ⟨⟨hamount, hpayer⟩, hmatch⟩ := h
  obtain ⟨amountCents, hamount⟩ := Option.isSome_iff_exists.mp hamount
  obtain ⟨payer, hpayer⟩ := Option.isSome_iff_exists.mp hpayer
  exact ⟨amountCents, payer, hamount, hpayer, hmatch⟩

/-- The exact amounts are all read, and sum to the total. -/
theorem Sendable.exact (h : f.Sendable amountCents payer) (hmode : f.mode = .exact)
    (hnd : f.members.Nodup) :
    (∀ id ∈ f.members, (f.exactShare id).isSome) ∧
      (f.members.map fun id => (f.exactShare id).getD 0).sum = amountCents := by
  have hmatch := h.agrees
  unfold exactMismatch at hmatch
  rw [decide_eq_false_iff_not] at hmatch
  have hboth : f.exactUnreadable = false ∧ f.amountCents = some f.exactTotal := by
    by_contra hno
    refine hmatch ⟨hmode, by rw [h.amount]; rfl, ?_⟩
    rw [not_and_or, Bool.not_eq_false] at hno
    exact hno
  refine ⟨exactUnreadable_eq_false.mp hboth.1, ?_⟩
  rw [← exactTotal_eq hnd]
  exact (Option.some.inj (h.amount.symm.trans hboth.2)).symm

theorem Sendable.submit (h : f.Sendable amountCents payer) :
    ∃ input, f.submit = some input ∧ input.amountCents = amountCents ∧ input.paidBy = payer ∧
      input.mode = f.mode.mode ∧ input.participants = f.members ∧
      input.exactCents = if f.mode = .exact then
        some (f.participants.map fun id => (id, ((f.exactShares.lookup id).getD none).getD 0)) else none := by
  unfold ExpenseForm.submit
  rw [h.payer, h.amount]
  simp only [Option.bind_eq_bind, Option.bind_some, h.agrees, Bool.false_eq_true, if_false]
  exact ⟨_, rfl, rfl, rfl, rfl, rfl, rfl⟩

/-! ## Section 2: What the server makes of it -/

/-- The splitter is asked for the amount, the payer, the mode and everyone. -/
theorem Sendable.split (h : f.Sendable amountCents payer) (hsubmit : f.submit = some input) :
    input.split.totalCents = .int amountCents ∧ input.split.paidBy = payer ∧
      input.split.mode = f.mode.mode ∧ input.split.participants = f.members ∧
      input.split.exactCents = if f.mode = .exact then
        some (f.members.foldl (fun r id =>
          r.insert id (JsNumber.int (((f.exactShares.lookup id).getD none).getD 0))) ∅) else none := by
  obtain ⟨input', hsubmit', rfl, rfl, hmode, hparts, hexact⟩ := h.submit
  obtain rfl := Option.some.inj (hsubmit.symm.trans hsubmit')
  refine ⟨rfl, rfl, hmode, hparts, ?_⟩
  have hparsed : input.split.exactCents = input.exactCents.map fun shares =>
      shares.foldl (fun r entry => r.insert entry.1 (JsNumber.int entry.2)) ∅ := rfl
  rw [hparsed, hexact]
  by_cases hm : f.mode = .exact
  · rw [if_pos hm, if_pos hm, Option.map_some, List.foldl_map]
    rfl
  · rw [if_neg hm, if_neg hm]
    rfl

/-- The shares that a split comes to. -/
structure Charges (splits : Splits JsString) (members : List JsString) (share : JsString → ℤ) : Prop where
  keys : ∀ id, id ∈ splits ↔ id ∈ members
  shares : ∀ id ∈ members, splits.lookup id = some (share id)

theorem charges_of_lookup {members : List JsString} {splits : Splits JsString} {share : JsString → ℤ}
    (hin : ∀ id ∈ members, splits.lookup id = some (share id))
    (hout : ∀ id, id ∉ members → splits.lookup id = none) : Charges splits members share where
  keys := by
    intro id
    rw [← AList.lookup_isSome]
    by_cases hid : id ∈ members
    · simp [hin id hid, hid]
    · simp [hout id hid, hid]
  shares := hin

/-- What the preview of an equal split shows for a member. -/
def previewShare (f : ExpenseForm) (amountCents : ℤ) (payer id : JsString) : ℤ :=
  let preview := equalSplitPreview amountCents f.members.length
  if id = payer then preview.eachCents + preview.payerExtraCents else preview.eachCents

theorem split_equal (h : f.Sendable amountCents payer) (hnd : f.members.Nodup)
    (hpayer : payer ∈ f.members) (hmode : f.mode = .equal) (hsubmit : f.submit = some input) :
    ∃ splits, computeSplits input.split = .ok splits ∧
      Charges splits f.members (f.previewShare amountCents payer) := by
  obtain ⟨htotal, hpaid, hmode', hparts, -⟩ := h.split hsubmit
  obtain ⟨hpos, hmax⟩ := amountCents_bounds h.amount
  have hne : input.split.participants ≠ [] := by
    rw [hparts]
    exact List.ne_nil_of_mem hpayer
  -- everyone takes part, so the payer gets the rest
  have hrecipient : remainderRecipient input.split.participants input.split.paidBy = .ok payer := by
    rw [hparts, hpaid]
    exact if_pos hpayer
  have hnd' : input.split.participants.Nodup := by
    rw [hparts]
    exact hnd
  have hsplits : ∀ splits, computeSplits input.split = .ok splits ↔ _ := fun splits =>
    computeSplits_eq htotal hpos (hmax.trans (by decide)) hne hnd'
  rw [hmode', hmode] at hsplits
  refine ⟨_, (hsplits _).mpr ⟨payer, hrecipient, rfl⟩, ?_⟩
  rw [hparts]
  refine charges_of_lookup ?_ ?_
  · intro id hid
    rw [lookup_inst, credit_fill _ hpayer, if_pos hid]
    unfold previewShare equalSplitPreview
    by_cases heq : id = payer
    · simp [heq]
    · simp [heq]
  · intro id hid
    rw [lookup_inst, credit_fill _ hpayer, if_neg hid]

theorem split_exact (h : f.Sendable amountCents payer) (hnd : f.members.Nodup)
    (hpayer : payer ∈ f.members) (hmode : f.mode = .exact) (hsubmit : f.submit = some input) :
    ∃ splits, computeSplits input.split = .ok splits ∧
      Charges splits f.members fun id => (f.exactShare id).getD 0 := by
  obtain ⟨htotal, -, hmode', hparts, hexact⟩ := h.split hsubmit
  obtain ⟨hpos, hmax⟩ := amountCents_bounds h.amount
  obtain ⟨hread, hsum⟩ := h.exact hmode hnd
  rw [if_pos hmode] at hexact
  -- the entries go as numbers that the splitter can read
  have hentry : ∀ id ∈ f.members, (input.split.exactCents.getD ∅).amount id = f.exactShare id := by
    intro id hid
    obtain ⟨cents, hcents⟩ := Option.isSome_iff_exists.mp (hread id hid)
    obtain ⟨h0, hle⟩ := exactShare_bounds hcents
    rw [hcents, Record.amount_eq_some]
    refine ⟨?_, h0, hle.trans (by decide)⟩
    rw [hexact, Option.getD_some, ← lookup_inst, Table.lookup_foldl_insert, lookup_exactShares hid, hcents]
    exact if_pos hid
  -- and sum to the amount, which the form has checked
  have hconf : Configured input.split.exactCents input.split.participants amountCents := by
    rw [hexact] at hentry ⊢
    rw [hparts, Configured.amounts (hmax.trans (by decide))]
    refine ⟨fun id hid => ?_, ?_⟩
    · rw [Option.getD_some] at hentry
      rw [hentry id hid]
      exact hread id hid
    · rw [← hsum]
      refine congrArg List.sum (List.map_congr_left ?_)
      intro id hid
      rw [Option.getD_some] at hentry
      rw [hentry id hid]
  have hne : input.split.participants ≠ [] := by
    rw [hparts]
    exact List.ne_nil_of_mem hpayer
  have hnd' : input.split.participants.Nodup := by
    rw [hparts]
    exact hnd
  have hsplits : ∀ splits, computeSplits input.split = .ok splits ↔ _ := fun splits =>
    computeSplits_eq htotal hpos (hmax.trans (by decide)) hne hnd'
  rw [hmode', hmode] at hsplits
  refine ⟨_, (hsplits _).mpr ⟨hconf, rfl⟩, ?_⟩
  rw [hparts]
  refine charges_of_lookup ?_ ?_
  · intro id hid
    rw [lookup_inst, Record.lookup_fill, if_pos hid, hentry id hid]
  · intro id hid
    rw [lookup_inst, Record.lookup_fill, if_neg hid]

/-- What the form promises about a request. -/
structure Promise (f : ExpenseForm) (amountCents : ℤ) (payer : JsString) (splits : Splits JsString) :
    Prop where
  amount : f.amountCents = some amountCents
  equal : f.mode = .equal → Charges splits f.members (f.previewShare amountCents payer)
  exact : f.mode = .exact → (∀ id ∈ f.members, (f.exactShare id).isSome) ∧
    Charges splits f.members fun id => (f.exactShare id).getD 0

/-- Whatever the form lets through is split as the form shows it. What it
    still holds for others than its members does not matter. -/
theorem form_promise (f : ExpenseForm) (payer : JsString) (hnd : f.members.Nodup)
    (hpayer : f.payer = some payer) (hmember : payer ∈ f.members) (hgate : f.canSubmit = true) :
    ∃ input splits amountCents, f.submit = some input ∧ computeSplits input.split = .ok splits ∧
      f.Promise amountCents payer splits := by
  obtain ⟨amountCents, payer', h⟩ := sendable_of_canSubmit hgate
  obtain rfl := Option.some.inj (hpayer.symm.trans h.payer)
  obtain ⟨input, hsubmit, -⟩ := h.submit
  cases hmode : f.mode with
  | equal =>
    obtain ⟨splits, hsplits, hcharges⟩ := split_equal h hnd hmember hmode hsubmit
    refine ⟨input, splits, amountCents, hsubmit, hsplits, h.amount, fun _ => hcharges, ?_⟩
    intro hexact
    rw [hmode] at hexact
    cases hexact
  | exact =>
    obtain ⟨splits, hsplits, hcharges⟩ := split_exact h hnd hmember hmode hsubmit
    refine ⟨input, splits, amountCents, hsubmit, hsplits, h.amount, ?_, ?_⟩
    · intro hequal
      rw [hmode] at hequal
      cases hequal
    · exact fun _ => ⟨(h.exact hmode hnd).1, hcharges⟩

/-- Two members, and a share that was typed for somebody who has left. -/
def staleForm : ExpenseForm where
  members := [js "ann", js "bo"]
  viewerId := some (js "ann")
  decimalSeparator := js "."
  amount := js "10"
  paidBy := none
  mode := .exact
  exact := AList.insert (js "cy") (js "7") (AList.insert (js "bo") (js "2.5")
    (AList.insert (js "ann") (js "7.50") ∅))
  description := []

theorem form_promise_stale :
    ∃ input splits amountCents, staleForm.submit = some input ∧ computeSplits input.split = .ok splits ∧
      staleForm.Promise amountCents (js "ann") splits :=
  form_promise staleForm (js "ann") (by decide) (by decide) (by decide) (by decide +kernel)

end ExpenseForm

end Homi.Mobile
