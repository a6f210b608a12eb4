import Mathlib.Algebra.BigOperators.Group.Finset.Piecewise
import Mathlib.Algebra.BigOperators.Ring.List
import Mathlib.Algebra.Order.BigOperators.Group.Finset
import Mathlib.Data.List.Sort
import Mathlib.Tactic.Linarith
import Mathlib.Tactic.Ring
import Homi.Framework.JsString
import Homi.Framework.Table

/-! # Split math

  `packages/domain/src/money/split.ts` and `rooms.ts`: how the total of an
  expense divides into shares.

  Amounts are integer cents. A JavaScript number is either an integer or
  something that `Number.isSafeInteger` rejects, and a record is a table:
  one entry per key, in no order that a result depends on. User ids are
  any linear order; `sort()` on ids is that order.

  Section 3 states the rule the module promises (H3) without looking at
  the code, and Section 4 proves that `computeSplits` is that rule.
-/

/-! ## Section 1: Numbers, records and errors -/

/-- A JavaScript number. `other` is every fraction, infinity and NaN. -/
inductive JsNumber where
  | int (n : ℤ)
  | other
deriving DecidableEq, Repr

/-- `Number.MAX_SAFE_INTEGER`. -/
def maxSafeInteger : ℤ := 9007199254740991

/-- The integer of a number that passes `Number.isSafeInteger`. -/
def JsNumber.safe? : JsNumber → Option ℤ
  | .int n => if -maxSafeInteger ≤ n ∧ n ≤ maxSafeInteger then some n else none
  | .other => none

/-- `Record<string, V>`. -/
abbrev Record (ι V : Type) : Type := Table ι V

/-- User id to share in cents. -/
abbrev Splits (ι : Type) : Type := Record ι ℤ

inductive SplitMode where
  | equal
  | exact
  | percent
  | room_weighted
deriving DecidableEq, Repr

structure SplitInput (ι : Type) where
  totalCents : JsNumber
  paidBy : ι
  mode : SplitMode
  participants : List ι
  exactCents : Option (Record ι JsNumber)
  weightsBp : Option (Record ι JsNumber)

/-- `SplitError`, one constructor for each `throw`. -/
inductive SplitError (ι : Type) where
  | invalidTotal
  | noParticipants
  | repeatedParticipants
  | exactRequired
  | invalidExact (id : ι)
  | exactSum (sum total : ℤ)
  | weightsRequired (mode : SplitMode)
  | invalidWeight (id : ι)
  | weightSum (bpSum : ℤ)
  | roomWeight
  | noOccupant
  | repeatedOccupants
deriving DecidableEq, Repr

def SplitMode.text : SplitMode → JsString
  | .equal => js "equal"
  | .exact => js "exact"
  | .percent => js "percent"
  | .room_weighted => js "room_weighted"

/-- `err.message`; `text` prints an id. -/
def SplitError.message {ι : Type} (text : ι → JsString) : SplitError ι → JsString
  | .invalidTotal => js "totalCents must be a positive integer (cents)"
  | .noParticipants => js "participants must not be empty"
  | .repeatedParticipants => js "participants must be unique"
  | .exactRequired => js "exactCents required for exact mode"
  | .invalidExact id => js "missing or invalid exact amount for participant " ++ text id
  | .exactSum sum total =>
      js "exact splits sum to " ++ JsString.decimal sum ++ js ", expected " ++ JsString.decimal total
  | .weightsRequired mode => js "weightsBp required for " ++ mode.text ++ js " mode"
  | .invalidWeight id => js "missing or invalid weight for participant " ++ text id
  | .weightSum bpSum => js "weights must sum to 10000 basis points, got " ++ JsString.decimal bpSum
  | .roomWeight => js "room weight must be between 1 and 10000 basis points"
  | .noOccupant => js "a room weight needs at least one occupant"
  | .repeatedOccupants => js "room occupants must be distinct"

/-! ## Section 2: The code -/

/-- `r[id] = (r[id] ?? 0) + cents`. -/
def Record.credit {ι : Type} [DecidableEq ι] (r : Record ι ℤ) (id : ι) (cents : ℤ) :
    Record ι ℤ :=
  r.insert id ((r.lookup id).getD 0 + cents)

variable {ι : Type} [LinearOrder ι]

def assertValidTotal (totalCents : JsNumber) : Except (SplitError ι) ℤ :=
  match totalCents.safe? with
  | some n => if n ≤ 0 then .error .invalidTotal else .ok n
  | none => .error .invalidTotal

/-- `[...participants].sort()[0]` when the payer does not take part. -/
def remainderRecipient (participants : List ι) (paidBy : ι) : Except (SplitError ι) ι :=
  if paidBy ∈ participants then .ok paidBy
  else match (participants.insertionSort (· ≤ ·)).head? with
    | some first => .ok first
    | none => .error .noParticipants

/-- The entry of `id`, unless it is missing, no safe integer or negative. -/
def Record.amount (cfg : Record ι JsNumber) (id : ι) : Option ℤ :=
  match (cfg.lookup id).bind JsNumber.safe? with
  | some n => if n < 0 then none else some n
  | none => none

def splitByWeights (totalCents : ℤ) (paidBy : ι) (participants : List ι)
    (weightsBp : Record ι JsNumber) : Except (SplitError ι) (Splits ι) := do
  let bpSum ← participants.foldlM (fun bpSum id =>
    match weightsBp.amount id with
    | some bp => .ok (bpSum + bp)
    | none => .error (.invalidWeight id)) 0
  if bpSum ≠ 10000 then throw (.weightSum bpSum)
  let (splits, allocated) := participants.foldl (fun (splits, allocated) id =>
    let share := totalCents * (weightsBp.amount id).getD 0 / 10000
    (splits.insert id share, allocated + share)) ((∅ : Splits ι), 0)
  let recipient ← remainderRecipient participants paidBy
  return Record.credit splits recipient (totalCents - allocated)

def computeSplits (input : SplitInput ι) : Except (SplitError ι) (Splits ι) := do
  let totalCents ← assertValidTotal input.totalCents
  let participants := input.participants
  if participants = [] then throw .noParticipants
  if ¬ participants.Nodup then throw .repeatedParticipants
  match input.mode with
  | .equal =>
      let base := totalCents / participants.length
      let splits := participants.foldl (fun splits id => splits.insert id base) (∅ : Splits ι)
      let recipient ← remainderRecipient participants input.paidBy
      return Record.credit splits recipient (totalCents - base * participants.length)
  | .exact =>
      match input.exactCents with
      | none => throw .exactRequired
      | some exact =>
          let (splits, sum) ← participants.foldlM (fun (splits, sum) id =>
            match exact.amount id with
            | some cents => .ok (splits.insert id cents, sum + cents)
            | none => .error (.invalidExact id)) ((∅ : Splits ι), 0)
          if sum ≠ totalCents then throw (.exactSum sum totalCents)
          return splits
  | .percent =>
      match input.weightsBp with
      | none => throw (.weightsRequired .percent)
      | some weightsBp => splitByWeights totalCents input.paidBy participants weightsBp
  | .room_weighted =>
      match input.weightsBp with
      | none => throw (.weightsRequired .room_weighted)
      | some weightsBp => splitByWeights totalCents input.paidBy participants weightsBp

/-- A room's weight over its occupants; the first ones take one basis
    point more while the remainder lasts. -/
def divideRoomWeight (weightBp : JsNumber) (occupants : List ι) :
    Except (SplitError ι) (Record ι ℤ) := do
  match weightBp.safe? with
  | none => throw .roomWeight
  | some weightBp =>
      if weightBp < 1 ∨ weightBp > 10000 then throw .roomWeight
      if occupants = [] then throw .noOccupant
      if ¬ occupants.Nodup then throw .repeatedOccupants
      let base := weightBp / occupants.length
      let remainder := weightBp - base * occupants.length
      let (shares, _) := occupants.foldl (fun (shares, remainder) occupant =>
        (shares.insert occupant (base + if remainder > 0 then 1 else 0),
          if remainder > 0 then remainder - 1 else remainder)) ((∅ : Record ι ℤ), remainder)
      return shares

/-! ## Section 3: The rule -/

/-- Every participant has an integer entry of at least 0, and these sum to `sum`. -/
def Configured (cfg : Option (Record ι JsNumber)) (participants : List ι) (sum : ℤ) : Prop :=
  ∃ entries amount, cfg = some entries ∧
    (∀ id ∈ participants, entries.lookup id = some (.int (amount id)) ∧ 0 ≤ amount id) ∧
    (participants.map amount).sum = sum

/-- The inputs that can be split. -/
def SplitInput.WellFormed (input : SplitInput ι) : Prop :=
  ∃ total, input.totalCents = .int total ∧ 0 < total ∧
    input.participants ≠ [] ∧ input.participants.Nodup ∧
    match input.mode with
    | .equal => True
    | .exact => Configured input.exactCents input.participants total
    | .percent | .room_weighted => Configured input.weightsBp input.participants 10000

/-- Who takes the leftover: the payer if a participant, else the least id. -/
structure LeftoverTo (participants : List ι) (paidBy recipient : ι) : Prop where
  member : recipient ∈ participants
  payer : paidBy ∈ participants → recipient = paidBy
  least : paidBy ∉ participants → ∀ id ∈ participants, recipient ≤ id

/-- The integer a configuration gives to `id`. -/
def entryOf (cfg : Option (Record ι JsNumber)) (id : ι) : ℤ :=
  match cfg.bind (AList.lookup id) with
  | some (.int n) => n
  | _ => 0

/-- The share of `id` before the leftover is given out. -/
def SplitInput.floorShare (input : SplitInput ι) (total : ℤ) (id : ι) : ℤ :=
  match input.mode with
  | .equal => total / input.participants.length
  | .exact => entryOf input.exactCents id
  | .percent | .room_weighted => total * entryOf input.weightsBp id / 10000

/-- H3: what the shares of an input have to be. -/
structure SplitRule (input : SplitInput ι) (total : ℤ) (splits : Splits ι) : Prop where
  keys : ∀ id, id ∈ splits ↔ id ∈ input.participants
  nonneg : ∀ id cents, splits.lookup id = some cents → 0 ≤ cents
  sum : splits.total (fun _ cents => cents) = total
  shares : ∃ recipient, ∃ leftover : ℤ, LeftoverTo input.participants input.paidBy recipient ∧
    0 ≤ leftover ∧ leftover < input.participants.length ∧
    (input.mode = .exact → leftover = 0) ∧
    ∀ id ∈ input.participants, splits.lookup id =
      some (input.floorShare total id + if id = recipient then leftover else 0)

/-- The same input with participants and configuration keys in another order. -/
structure SplitInput.Reorders (input input' : SplitInput ι) : Prop where
  totalCents : input.totalCents = input'.totalCents
  paidBy : input.paidBy = input'.paidBy
  mode : input.mode = input'.mode
  participants : input.participants.Perm input'.participants
  exactCents : Option.Rel (fun r r' => r.entries.Perm r'.entries) input.exactCents input'.exactCents
  weightsBp : Option.Rel (fun r r' => r.entries.Perm r'.entries) input.weightsBp input'.weightsBp

/-! ## Section 4: The code follows the rule -/

/-! ### The loops -/

/-- The table that gives `f id` to every listed id. -/
def Record.fill {V : Type} (ids : List ι) (f : ι → V) : Record ι V :=
  ids.foldl (fun r id => r.insert id (f id)) ∅

theorem Record.lookup_fill {V : Type} (ids : List ι) (f : ι → V) (k : ι) :
    (Record.fill ids f).lookup k = if k ∈ ids then some (f k) else none := by
  rw [Record.fill, Table.lookup_foldl_insert]
  simp

/-- A loop that fills a record and adds up what it writes. -/
theorem foldl_fill_sum (ids : List ι) (f : ι → ℤ) (r : Splits ι) (s : ℤ) :
    ids.foldl (fun (p : Splits ι × ℤ) id => (p.1.insert id (f id), p.2 + f id)) (r, s) =
      (ids.foldl (fun r id => r.insert id (f id)) r, s + (ids.map f).sum) := by
  induction ids generalizing r s with
  | nil => simp
  | cons id ids ih => simp [ih, add_assoc]

omit [LinearOrder ι] in
/-- A loop that adds up checked amounts succeeds when every check does. -/
theorem foldlM_amount_sum {ε : Type} (g : ι → Option ℤ) (err : ι → ε) (ids : List ι) (s t : ℤ) :
    ids.foldlM (fun s id => match g id with
      | some a => .ok (s + a)
      | none => .error (err id)) s = (.ok t : Except ε ℤ) ↔
    (∀ id ∈ ids, (g id).isSome) ∧ t = s + (ids.map fun id => (g id).getD 0).sum := by
  induction ids generalizing s with
  | nil =>
    show (.ok s : Except ε ℤ) = .ok t ↔ _
    simp [@eq_comm _ t]
  | cons id ids ih =>
    rw [List.foldlM_cons]
    cases hg : g id with
    | none => simp [hg, bind, Except.bind]
    | some a =>
      show ids.foldlM _ (s + a) = _ ↔ _
      rw [ih]
      simp [hg, add_assoc]

/-- The loop of the exact mode, which also fills the record. -/
theorem foldlM_amount_fill {ε : Type} (g : ι → Option ℤ) (err : ι → ε) (ids : List ι)
    (r : Splits ι) (s : ℤ) (out : Splits ι × ℤ) :
    ids.foldlM (fun (p : Splits ι × ℤ) id => match g id with
      | some a => .ok (p.1.insert id a, p.2 + a)
      | none => .error (err id)) (r, s) = (.ok out : Except ε (Splits ι × ℤ)) ↔
    (∀ id ∈ ids, (g id).isSome) ∧
      out = (ids.foldl (fun r id => r.insert id ((g id).getD 0)) r,
        s + (ids.map fun id => (g id).getD 0).sum) := by
  induction ids generalizing r s with
  | nil =>
    show (.ok (r, s) : Except ε (Splits ι × ℤ)) = .ok out ↔ _
    simp [@eq_comm _ out]
  | cons id ids ih =>
    rw [List.foldlM_cons]
    cases hg : g id with
    | none => simp [hg, bind, Except.bind]
    | some a =>
      show ids.foldlM _ (r.insert id a, s + a) = _ ↔ _
      rw [ih]
      simp [hg, add_assoc]

/-! ### The parts -/

theorem JsNumber.safe?_eq_some {x : JsNumber} {n : ℤ} :
    x.safe? = some n ↔ x = .int n ∧ -maxSafeInteger ≤ n ∧ n ≤ maxSafeInteger := by
  cases x with
  | other => simp [JsNumber.safe?]
  | int m =>
    simp only [JsNumber.safe?, Option.ite_none_right_eq_some, Option.some.injEq, JsNumber.int.injEq]
    constructor
    · rintro ⟨hs, rfl⟩; exact ⟨rfl, hs⟩
    · rintro ⟨rfl, hs⟩; exact ⟨hs, rfl⟩

theorem assertValidTotal_eq_ok {x : JsNumber} {total : ℤ} :
    assertValidTotal (ι := ι) x = .ok total ↔
      x = .int total ∧ 0 < total ∧ total ≤ maxSafeInteger := by
  unfold assertValidTotal
  have hmax : 0 ≤ maxSafeInteger := by decide
  cases hs : x.safe? with
  | none =>
    constructor
    · intro h; cases h
    · rintro ⟨hx, hpos, hle⟩
      rw [JsNumber.safe?_eq_some.mpr ⟨hx, by omega, hle⟩] at hs
      cases hs
  | some n =>
    obtain ⟨rfl, hlo, hhi⟩ := JsNumber.safe?_eq_some.mp hs
    by_cases hn : n ≤ 0
    · simp only [hn, if_true]
      constructor
      · intro h; cases h
      · rintro ⟨h, hpos, _⟩; cases h; omega
    · simp only [hn, if_false]
      constructor
      · intro h; cases h; exact ⟨rfl, by omega, hhi⟩
      · rintro ⟨h, _, _⟩; cases h; rfl

theorem remainderRecipient_spec {participants : List ι} (paidBy : ι) (hne : participants ≠ []) :
    ∃ recipient, remainderRecipient participants paidBy = .ok recipient ∧
      LeftoverTo participants paidBy recipient := by
  unfold remainderRecipient
  by_cases hp : paidBy ∈ participants
  · exact ⟨paidBy, by simp [hp], hp, fun _ => rfl, fun h => absurd hp h⟩
  · rw [if_neg hp]
    have hperm := List.perm_insertionSort (· ≤ ·) participants
    cases hsort : participants.insertionSort (· ≤ ·) with
    | nil =>
      rw [hsort] at hperm
      exact absurd (List.nil_perm.mp hperm) hne
    | cons first rest =>
      rw [hsort] at hperm
      have hsorted := List.pairwise_insertionSort (· ≤ ·) participants
      rw [hsort] at hsorted
      refine ⟨first, rfl, hperm.subset (List.mem_cons_self ..), fun h => absurd h hp, ?_⟩
      intro _ id hid
      rcases List.mem_cons.mp (hperm.symm.subset hid) with rfl | hrest
      · exact le_refl _
      · exact List.rel_of_pairwise_cons hsorted hrest

/-- An amount is an entry that is a non-negative integer. Entries beyond
    the safe integers are rejected as well. -/
theorem Record.amount_eq_some {cfg : Record ι JsNumber} {id : ι} {n : ℤ} :
    cfg.amount id = some n ↔ cfg.lookup id = some (.int n) ∧ 0 ≤ n ∧ n ≤ maxSafeInteger := by
  unfold Record.amount
  have hmax : 0 ≤ maxSafeInteger := by decide
  cases hs : (cfg.lookup id).bind JsNumber.safe? with
  | none =>
    constructor
    · intro h; cases h
    · rintro ⟨hl, h0, hle⟩
      rw [hl, Option.bind_some, JsNumber.safe?_eq_some.mpr ⟨rfl, by omega, hle⟩] at hs
      cases hs
  | some m =>
    obtain ⟨x, hl, hx⟩ := Option.bind_eq_some_iff.mp hs
    obtain ⟨rfl, hlo, hhi⟩ := JsNumber.safe?_eq_some.mp hx
    by_cases hm : m < 0
    · simp only [hm, if_true]
      constructor
      · intro h; cases h
      · rintro ⟨h, h0, _⟩
        rw [hl] at h
        cases h
        omega
    · simp only [hm, if_false, Option.some.injEq]
      constructor
      · rintro rfl; exact ⟨hl, by omega, hhi⟩
      · rintro ⟨h, _, _⟩
        rw [hl] at h
        cases h
        rfl

theorem Configured.amounts {cfg : Record ι JsNumber} {participants : List ι} {sum : ℤ}
    (hsum : sum ≤ maxSafeInteger) :
    Configured (some cfg) participants sum ↔
      (∀ id ∈ participants, (cfg.amount id).isSome) ∧
        (participants.map fun id => (cfg.amount id).getD 0).sum = sum := by
  constructor
  · rintro ⟨entries, amount, hcfg, hentry, htotal⟩
    cases hcfg
    have hle : ∀ id ∈ participants, amount id ≤ sum := by
      intro id hid
      rw [← htotal]
      refine List.single_le_sum ?_ _ (List.mem_map_of_mem hid)
      intro a ha
      obtain ⟨id', hid', rfl⟩ := List.mem_map.mp ha
      exact (hentry id' hid').2
    have hamount : ∀ id ∈ participants, cfg.amount id = some (amount id) := fun id hid =>
      Record.amount_eq_some.mpr
        ⟨(hentry id hid).1, (hentry id hid).2, (hle id hid).trans hsum⟩
    refine ⟨fun id hid => by rw [hamount id hid]; rfl, ?_⟩
    rw [← htotal]
    exact congrArg List.sum (List.map_congr_left fun id hid => by rw [hamount id hid]; rfl)
  · rintro ⟨hsome, htotal⟩
    refine ⟨cfg, fun id => (cfg.amount id).getD 0, rfl, ?_, htotal⟩
    intro id hid
    obtain ⟨n, hn⟩ := Option.isSome_iff_exists.mp (hsome id hid)
    obtain ⟨hl, h0, _⟩ := Record.amount_eq_some.mp hn
    simp only [hn, Option.getD_some]
    exact ⟨hl, h0⟩

theorem Record.amount_eq_entryOf {cfg : Record ι JsNumber} {id : ι}
    (h : (cfg.amount id).isSome) : (cfg.amount id).getD 0 = entryOf (some cfg) id := by
  obtain ⟨n, hn⟩ := Option.isSome_iff_exists.mp h
  simp [hn, entryOf, (Record.amount_eq_some.mp hn).1]

theorem Configured.ne_none {participants : List ι} {sum : ℤ} :
    ¬ Configured none participants sum := by
  rintro ⟨_, _, h, _⟩
  cases h

/-! ### The leftover -/

omit [LinearOrder ι] in
/-- Rounding down each of `n` quotients loses less than `n`. -/
theorem leftover_bounds (ids : List ι) (f : ι → ℤ) {d total : ℤ} (hd : 0 < d) (hne : ids ≠ [])
    (hsum : (ids.map f).sum = total * d) :
    0 ≤ total - (ids.map fun id => f id / d).sum ∧
      total - (ids.map fun id => f id / d).sum < ids.length := by
  have hsplit : (ids.map f).sum =
      d * (ids.map fun id => f id / d).sum + (ids.map fun id => f id % d).sum := by
    clear hsum hne
    induction ids with
    | nil => simp
    | cons id ids ih =>
      have := Int.mul_ediv_add_emod (f id) d
      simp only [List.map_cons, List.sum_cons, ih, mul_add]
      linarith
  have hmods : 0 ≤ (ids.map fun id => f id % d).sum ∧
      (ids.map fun id => f id % d).sum ≤ ids.length * (d - 1) := by
    clear hsum hne hsplit
    induction ids with
    | nil => simp
    | cons id ids ih =>
      have h0 := Int.emod_nonneg (f id) (by omega : d ≠ 0)
      have hlt := Int.emod_lt_of_pos (f id) hd
      simp only [List.map_cons, List.sum_cons, List.length_cons, Nat.cast_add, Nat.cast_one,
        add_mul, one_mul]
      constructor <;> linarith [ih.1, ih.2]
  have hlen : (0 : ℤ) < ids.length := by
    exact_mod_cast List.length_pos_iff.mpr hne
  have hkey : (total - (ids.map fun id => f id / d).sum) * d =
      (ids.map fun id => f id % d).sum := by
    rw [sub_mul, ← hsum, hsplit]
    ring
  constructor
  · by_contra hneg
    have := mul_lt_mul_of_pos_right (not_le.mp hneg) hd
    rw [hkey, zero_mul] at this
    omega
  · by_contra hge
    have hmul := mul_le_mul_of_nonneg_right (not_lt.mp hge) hd.le
    rw [hkey] at hmul
    have hexpand : (ids.length : ℤ) * (d - 1) = ids.length * d - ids.length := by ring
    omega

/-! ### Filled records -/

/-- Filling in shares and giving the leftover to one of the ids. -/
theorem credit_fill {ids : List ι} (f : ι → ℤ) {recipient : ι} (hr : recipient ∈ ids)
    (leftover : ℤ) (k : ι) :
    (Record.credit (Record.fill ids f) recipient leftover).lookup k =
      if k ∈ ids then some (f k + if k = recipient then leftover else 0) else none := by
  unfold Record.credit
  by_cases hk : k = recipient
  · subst hk
    simp [Record.lookup_fill, hr]
  · rw [AList.lookup_insert_ne hk, Record.lookup_fill]
    simp [hk]

/-- The total of a record with known entries. -/
theorem total_of_lookup {ids : List ι} (hnd : ids.Nodup) {splits : Splits ι} {f : ι → ℤ}
    (h : ∀ k, splits.lookup k = if k ∈ ids then some (f k) else none) :
    splits.total (fun _ cents => cents) = (ids.map f).sum :=
  Table.total_of_lookup hnd h fun _ cents => cents

omit [LinearOrder ι] in
theorem sum_map_leftover [DecidableEq ι] {ids : List ι} (hnd : ids.Nodup) (f : ι → ℤ)
    {recipient : ι} (hr : recipient ∈ ids) (leftover : ℤ) :
    (ids.map fun k => f k + if k = recipient then leftover else 0).sum =
      (ids.map f).sum + leftover := by
  have hone := List.sum_toFinset (fun k => if k = recipient then leftover else 0) hnd
  rw [List.sum_map_add, ← hone]
  simp [hr]

/-! ### Weights -/

/-- What a successful `splitByWeights` computed. -/
theorem splitByWeights_eq_ok {total : ℤ} {paidBy : ι} {participants : List ι}
    {weightsBp : Record ι JsNumber} {splits : Splits ι} (hne : participants ≠ []) :
    splitByWeights total paidBy participants weightsBp = .ok splits ↔
      Configured (some weightsBp) participants 10000 ∧
      ∃ recipient, remainderRecipient participants paidBy = .ok recipient ∧
        splits = Record.credit
          (Record.fill participants fun id => total * (weightsBp.amount id).getD 0 / 10000)
          recipient
          (total - (participants.map fun id => total * (weightsBp.amount id).getD 0 / 10000).sum) := by
  obtain ⟨recipient, hr, _⟩ := remainderRecipient_spec paidBy hne
  rw [Configured.amounts (by decide)]
  unfold splitByWeights
  rw [foldl_fill_sum, zero_add, hr]
  cases hfold : participants.foldlM (fun bpSum id => match weightsBp.amount id with
      | some bp => Except.ok (bpSum + bp)
      | none => Except.error (SplitError.invalidWeight id)) 0 with
  | error e =>
    constructor
    · intro h; cases h
    · rintro ⟨⟨hsome, hsum⟩, _⟩
      have := (foldlM_amount_sum weightsBp.amount SplitError.invalidWeight participants 0 10000).mpr
        ⟨hsome, by rw [zero_add, hsum]⟩
      rw [this] at hfold
      cases hfold
  | ok bpSum =>
    obtain ⟨hsome, hbp⟩ := (foldlM_amount_sum _ _ _ _ _).mp hfold
    rw [zero_add] at hbp
    by_cases hsum : bpSum = 10000
    · subst hsum
      constructor
      · intro h
        cases h
        exact ⟨⟨hsome, hbp.symm⟩, recipient, rfl, rfl⟩
      · rintro ⟨_, r, hr', rfl⟩
        cases hr'
        rfl
    · constructor
      · intro h
        simp [bind, Except.bind, hsum, throw, throwThe, MonadExceptOf.throw] at h
      · rintro ⟨⟨_, h⟩, _⟩
        exact absurd (hbp.trans h) hsum

/-! ### The modes -/

/-- Floors plus a leftover that goes to one participant follow the rule. -/
theorem splitRule_of_floors {input : SplitInput ι} {total leftover : ℤ} {recipient : ι}
    (hnd : input.participants.Nodup)
    (hr : LeftoverTo input.participants input.paidBy recipient)
    (hfloor : ∀ id ∈ input.participants, 0 ≤ input.floorShare total id)
    (hsum : (input.participants.map (input.floorShare total)).sum + leftover = total)
    (h0 : 0 ≤ leftover) (hlt : leftover < input.participants.length)
    (hexact : input.mode = .exact → leftover = 0) {splits : Splits ι}
    (hl : ∀ k, splits.lookup k = if k ∈ input.participants then
      some (input.floorShare total k + if k = recipient then leftover else 0) else none) :
    SplitRule input total splits where
  keys := by
    intro id
    rw [← AList.lookup_isSome, hl]
    by_cases hid : id ∈ input.participants <;> simp [hid]
  nonneg := by
    intro id cents h
    rw [hl] at h
    split at h
    · next hid =>
      have := hfloor id hid
      cases h
      split <;> omega
    · cases h
  sum := by
    rw [total_of_lookup hnd hl, sum_map_leftover hnd _ hr.member, hsum]
  shares := by
    refine ⟨recipient, leftover, hr, h0, hlt, hexact, ?_⟩
    intro id hid
    rw [hl, if_pos hid]

theorem mul_amount_nonneg {total : ℤ} (ht : 0 < total) {cfg : Record ι JsNumber} {id : ι} :
    0 ≤ total * (cfg.amount id).getD 0 / 10000 := by
  refine Int.ediv_nonneg (mul_nonneg ht.le ?_) (by decide)
  cases h : cfg.amount id with
  | none => simp
  | some n => exact (Record.amount_eq_some.mp h).2.1

/-- The weighted modes. -/
theorem splitRule_of_weights {input : SplitInput ι} {total : ℤ} (ht : 0 < total)
    (hne : input.participants ≠ []) (hnd : input.participants.Nodup)
    (hmode : input.mode = .percent ∨ input.mode = .room_weighted)
    {weightsBp : Record ι JsNumber} (hcfg : input.weightsBp = some weightsBp) {splits : Splits ι}
    (h : splitByWeights total input.paidBy input.participants weightsBp = .ok splits) :
    SplitRule input total splits := by
  obtain ⟨hconf, recipient, hrec, rfl⟩ := (splitByWeights_eq_ok hne).mp h
  obtain ⟨recipient', hrec', hr⟩ := remainderRecipient_spec input.paidBy hne
  rw [hrec] at hrec'
  cases hrec'
  obtain ⟨hsome, hamounts⟩ := (Configured.amounts (by decide)).mp hconf
  have hfloor : ∀ id ∈ input.participants,
      input.floorShare total id = total * (weightsBp.amount id).getD 0 / 10000 := by
    intro id hid
    rw [Record.amount_eq_entryOf (hsome id hid), ← hcfg]
    rcases hmode with hm | hm <;> simp [SplitInput.floorShare, hm]
  have hscaled : (input.participants.map fun id => total * (weightsBp.amount id).getD 0).sum
      = total * 10000 := by
    rw [List.sum_map_mul_left, hamounts]
  obtain ⟨h0, hlt⟩ := leftover_bounds input.participants _ (by decide : (0 : ℤ) < 10000) hne hscaled
  refine splitRule_of_floors hnd hr ?_ ?_ h0 hlt ?_ ?_
  · intro id hid
    rw [hfloor id hid]
    exact mul_amount_nonneg ht
  · rw [List.map_congr_left hfloor]
    ring
  · intro hm
    rcases hmode with h | h <;> rw [h] at hm <;> cases hm
  · intro k
    rw [credit_fill _ hr.member]
    by_cases hk : k ∈ input.participants
    · rw [hfloor k hk]
    · rw [if_neg hk, if_neg hk]

/-- The three checks every mode starts with. -/
theorem computeSplits_checked {input : SplitInput ι} {splits : Splits ι}
    (h : computeSplits input = .ok splits) :
    ∃ total, input.totalCents = .int total ∧ 0 < total ∧ total ≤ maxSafeInteger ∧
      input.participants ≠ [] ∧ input.participants.Nodup := by
  unfold computeSplits at h
  cases htot : assertValidTotal (ι := ι) input.totalCents with
  | error e => simp [htot, bind, Except.bind] at h
  | ok total =>
    obtain ⟨hint, ht, hmax⟩ := assertValidTotal_eq_ok.mp htot
    by_cases hne : input.participants = []
    · simp [htot, hne, bind, Except.bind, throw, throwThe, MonadExceptOf.throw] at h
    by_cases hnd : input.participants.Nodup
    · exact ⟨total, hint, ht, hmax, hne, hnd⟩
    · simp [htot, hne, hnd, bind, Except.bind, throw, throwThe, MonadExceptOf.throw] at h

/-- Once these pass, each mode splits in its own way. -/
theorem computeSplits_eq {input : SplitInput ι} {total : ℤ} (hint : input.totalCents = .int total)
    (ht : 0 < total) (hmax : total ≤ maxSafeInteger) (hne : input.participants ≠ [])
    (hnd : input.participants.Nodup) {splits : Splits ι} :
    computeSplits input = .ok splits ↔
      match input.mode with
      | .equal => ∃ recipient, remainderRecipient input.participants input.paidBy = .ok recipient ∧
          splits = Record.credit
            (Record.fill input.participants fun _ => total / input.participants.length) recipient
            (total - total / input.participants.length * input.participants.length)
      | .exact => Configured input.exactCents input.participants total ∧
          splits = Record.fill input.participants
            fun id => ((input.exactCents.getD ∅).amount id).getD 0
      | .percent | .room_weighted => ∃ weightsBp, input.weightsBp = some weightsBp ∧
          splitByWeights total input.paidBy input.participants weightsBp = .ok splits := by
  have htot : assertValidTotal (ι := ι) input.totalCents = .ok total :=
    assertValidTotal_eq_ok.mpr ⟨hint, ht, hmax⟩
  unfold computeSplits
  simp only [htot, hne, hnd, bind, Except.bind, if_false, not_true_eq_false]
  cases hmode : input.mode with
  | equal =>
    -- one division, and the rest goes to the recipient
    obtain ⟨recipient, hr, _⟩ := remainderRecipient_spec input.paidBy hne
    rw [hr]
    constructor
    · intro h
      cases h
      exact ⟨recipient, rfl, rfl⟩
    · rintro ⟨r, hr', rfl⟩
      cases hr'
      rfl
  | exact =>
    cases hcfg : input.exactCents with
    | none =>
      constructor
      · intro h; cases h
      · rintro ⟨h, _⟩; exact absurd h Configured.ne_none
    | some exact =>
      rw [Configured.amounts hmax]
      -- the loop reads all entries, or stops at one that is no amount
      cases hfold : input.participants.foldlM (fun (p : Splits ι × ℤ) id => match exact.amount id with
          | some cents => Except.ok (p.1.insert id cents, p.2 + cents)
          | none => Except.error (SplitError.invalidExact id)) ((∅ : Splits ι), 0) with
      | error e =>
        constructor
        · intro h
          simp only [] at h
          rw [hfold] at h
          cases h
        · rintro ⟨⟨hsome, _⟩, _⟩
          rw [(foldlM_amount_fill exact.amount SplitError.invalidExact input.participants ∅ 0 _).mpr
            ⟨hsome, rfl⟩] at hfold
          cases hfold
      | ok out =>
        obtain ⟨hsome, rfl⟩ := (foldlM_amount_fill _ _ _ _ _ _).mp hfold
        simp only []
        rw [hfold]
        -- the amounts have to make up the total
        by_cases hsum : (input.participants.map fun id => (exact.amount id).getD 0).sum = total
        · simp only [zero_add, hsum, ne_eq, not_true_eq_false, if_false]
          constructor
          · intro h
            cases h
            exact ⟨⟨hsome, trivial⟩, rfl⟩
          · rintro ⟨_, rfl⟩
            rfl
        · simp only [zero_add, ne_eq, hsum, not_false_eq_true, if_true]
          constructor
          · intro h; cases h
          · rintro ⟨⟨_, h⟩, _⟩; cases h
  | percent =>
    cases hcfg : input.weightsBp with
    | none =>
      constructor
      · intro h; cases h
      · rintro ⟨_, h, _⟩; cases h
    | some weightsBp =>
      constructor
      · intro h; exact ⟨weightsBp, rfl, h⟩
      · rintro ⟨_, h, hs⟩; cases h; exact hs
  | room_weighted =>
    cases hcfg : input.weightsBp with
    | none =>
      constructor
      · intro h; cases h
      · rintro ⟨_, h, _⟩; cases h
    | some weightsBp =>
      constructor
      · intro h; exact ⟨weightsBp, rfl, h⟩
      · rintro ⟨_, h, hs⟩; cases h; exact hs

/-! ### The result -/

/-- What `computeSplits` returns follows the rule, on inputs that can be split only. -/
theorem computeSplits_rule {input : SplitInput ι} {splits : Splits ι}
    (h : computeSplits input = .ok splits) :
    input.WellFormed ∧ ∃ total, input.totalCents = .int total ∧ SplitRule input total splits := by
  obtain ⟨total, hint, ht, hmax, hne, hnd⟩ := computeSplits_checked h
  rw [computeSplits_eq hint ht hmax hne hnd] at h
  have hweights : ∀ weightsBp, input.mode = .percent ∨ input.mode = .room_weighted →
      input.weightsBp = some weightsBp →
      splitByWeights total input.paidBy input.participants weightsBp = .ok splits →
      Configured input.weightsBp input.participants 10000 ∧ SplitRule input total splits := by
    intro weightsBp hmode hcfg hs
    rw [hcfg]
    exact ⟨((splitByWeights_eq_ok hne).mp hs).1, splitRule_of_weights ht hne hnd hmode hcfg hs⟩
  cases hmode : input.mode with
  | equal =>
    simp only [hmode] at h
    obtain ⟨recipient, hrec, rfl⟩ := h
    obtain ⟨recipient', hrec', hr⟩ := remainderRecipient_spec input.paidBy hne
    rw [hrec] at hrec'
    cases hrec'
    -- each floor is the quotient, so the rest is the remainder
    have hlen : (0 : ℤ) < input.participants.length := by
      exact_mod_cast List.length_pos_iff.mpr hne
    have hfloor : ∀ id, input.floorShare total id = total / input.participants.length := by
      intro id; simp [SplitInput.floorShare, hmode]
    have hmod := Int.mul_ediv_add_emod total input.participants.length
    have h0 := Int.emod_nonneg total hlen.ne'
    have hlt := Int.emod_lt_of_pos total hlen
    rw [mul_comm] at hmod
    refine ⟨⟨total, hint, ht, hne, hnd, by simp [hmode]⟩, total, hint, ?_⟩
    have hleft0 : 0 ≤ total - total / input.participants.length * input.participants.length := by
      linarith
    have hleftlt : total - total / input.participants.length * input.participants.length <
        input.participants.length := by linarith
    refine splitRule_of_floors hnd hr ?_ ?_ hleft0 hleftlt ?_ ?_
    · intro id _
      rw [hfloor]
      exact Int.ediv_nonneg ht.le hlen.le
    · rw [List.map_congr_left fun id _ => hfloor id, List.map_const', List.sum_replicate]
      simp only [nsmul_eq_mul]
      ring
    · intro hm; rw [hmode] at hm; cases hm
    · intro k
      rw [credit_fill _ hr.member, hfloor]
  | exact =>
    simp only [hmode] at h
    obtain ⟨hconf, rfl⟩ := h
    obtain ⟨recipient, _, hr⟩ := remainderRecipient_spec input.paidBy hne
    -- nothing is left over, so any recipient will do
    obtain ⟨cfg, hcfg⟩ : ∃ cfg, input.exactCents = some cfg := by
      obtain ⟨cfg, _, hcfg, _⟩ := hconf
      exact ⟨cfg, hcfg⟩
    rw [hcfg] at hconf
    obtain ⟨hsome, hsum⟩ := (Configured.amounts hmax).mp hconf
    have hfloor : ∀ id ∈ input.participants,
        input.floorShare total id = (cfg.amount id).getD 0 := by
      intro id hid
      rw [Record.amount_eq_entryOf (hsome id hid), ← hcfg]
      simp [SplitInput.floorShare, hmode]
    refine ⟨⟨total, hint, ht, hne, hnd, by simp only [hmode, hcfg]; exact hconf⟩, total, hint, ?_⟩
    have hlen : (0 : ℤ) < input.participants.length := by
      exact_mod_cast List.length_pos_iff.mpr hne
    refine splitRule_of_floors hnd hr ?_ ?_ le_rfl hlen (fun _ => rfl) ?_
    · intro id hid
      obtain ⟨n, hn⟩ := Option.isSome_iff_exists.mp (hsome id hid)
      rw [hfloor id hid, hn]
      exact (Record.amount_eq_some.mp hn).2.1
    · rw [List.map_congr_left hfloor, hsum, add_zero]
    · intro k
      rw [Record.lookup_fill, hcfg]
      by_cases hk : k ∈ input.participants
      · simp [hk, hfloor k hk]
      · simp [hk]
  | percent =>
    simp only [hmode] at h
    obtain ⟨weightsBp, hcfg, hs⟩ := h
    obtain ⟨hconf, hrule⟩ := hweights weightsBp (Or.inl hmode) hcfg hs
    exact ⟨⟨total, hint, ht, hne, hnd, by simpa only [hmode] using hconf⟩, total, hint, hrule⟩
  | room_weighted =>
    simp only [hmode] at h
    obtain ⟨weightsBp, hcfg, hs⟩ := h
    obtain ⟨hconf, hrule⟩ := hweights weightsBp (Or.inr hmode) hcfg hs
    exact ⟨⟨total, hint, ht, hne, hnd, by simpa only [hmode] using hconf⟩, total, hint, hrule⟩

/-- Every input that can be split is. -/
theorem computeSplits_total {input : SplitInput ι} {total : ℤ} (hw : input.WellFormed)
    (hint : input.totalCents = .int total) (hmax : total ≤ maxSafeInteger) :
    ∃ splits, computeSplits input = .ok splits := by
  obtain ⟨total', hint', ht, hne, hnd, hcfg⟩ := hw
  rw [hint] at hint'
  cases hint'
  obtain ⟨recipient, hrec, _⟩ := remainderRecipient_spec input.paidBy hne
  simp only [computeSplits_eq hint ht hmax hne hnd]
  cases hmode : input.mode with
  | equal => exact ⟨_, recipient, hrec, rfl⟩
  | exact =>
    simp only [hmode] at hcfg
    exact ⟨_, hcfg, rfl⟩
  | percent =>
    simp only [hmode] at hcfg
    obtain ⟨weightsBp, amount, hw, _⟩ := id hcfg
    rw [hw] at hcfg
    exact ⟨_, weightsBp, hw, (splitByWeights_eq_ok hne).mpr ⟨hcfg, recipient, hrec, rfl⟩⟩
  | room_weighted =>
    simp only [hmode] at hcfg
    obtain ⟨weightsBp, amount, hw, _⟩ := id hcfg
    rw [hw] at hcfg
    exact ⟨_, weightsBp, hw, (splitByWeights_eq_ok hne).mpr ⟨hcfg, recipient, hrec, rfl⟩⟩

/-! ### Orders -/

theorem LeftoverTo.unique {participants participants' : List ι} {paidBy r r' : ι}
    (hperm : participants.Perm participants') (h : LeftoverTo participants paidBy r)
    (h' : LeftoverTo participants' paidBy r') : r = r' := by
  by_cases hp : paidBy ∈ participants
  · rw [h.payer hp, h'.payer (hperm.subset hp)]
  · have hp' : paidBy ∉ participants' := fun hmem => hp (hperm.symm.subset hmem)
    exact le_antisymm (h.least hp r' (hperm.symm.subset h'.member))
      (h'.least hp' r (hperm.subset h.member))

theorem lookup_reordered {r r' : Option (Record ι JsNumber)} (id : ι)
    (h : Option.Rel (fun r r' => r.entries.Perm r'.entries) r r') :
    r.bind (AList.lookup id) = r'.bind (AList.lookup id) := by
  cases h with
  | none => rfl
  | some hperm => exact AList.perm_lookup hperm

theorem Configured.reordered {r r' : Option (Record ι JsNumber)} {ids ids' : List ι} {sum : ℤ}
    (hr : Option.Rel (fun r r' => r.entries.Perm r'.entries) r r') (hids : ids.Perm ids')
    (h : Configured r ids sum) : Configured r' ids' sum := by
  obtain ⟨cfg, amount, rfl, hentry, hsum⟩ := h
  cases hr with
  | @some _ cfg' hperm =>
    refine ⟨cfg', amount, rfl, ?_, by rw [← hsum]; exact (hids.map amount).sum_eq.symm⟩
    intro id hid
    rw [← AList.perm_lookup hperm]
    exact hentry id (hids.symm.subset hid)

theorem SplitInput.WellFormed.reordered {input input' : SplitInput ι}
    (hre : input.Reorders input') (h : input.WellFormed) : input'.WellFormed := by
  obtain ⟨total, hint, ht, hne, hnd, hcfg⟩ := h
  refine ⟨total, hre.totalCents ▸ hint, ht, ?_, hre.participants.nodup_iff.mp hnd, ?_⟩
  · intro hnil
    have hperm := hre.participants
    rw [hnil] at hperm
    exact hne (List.perm_nil.mp hperm)
  · rw [← hre.mode]
    cases hmode : input.mode with
    | equal => trivial
    | exact =>
      simp only [hmode] at hcfg
      exact hcfg.reordered hre.exactCents hre.participants
    | percent =>
      simp only [hmode] at hcfg
      exact hcfg.reordered hre.weightsBp hre.participants
    | room_weighted =>
      simp only [hmode] at hcfg
      exact hcfg.reordered hre.weightsBp hre.participants

theorem SplitInput.floorShare_reordered {input input' : SplitInput ι}
    (hre : input.Reorders input') (total : ℤ) (id : ι) :
    input.floorShare total id = input'.floorShare total id := by
  unfold SplitInput.floorShare entryOf
  rw [hre.mode, hre.participants.length_eq, lookup_reordered id hre.exactCents,
    lookup_reordered id hre.weightsBp]

/-- The rule leaves one record of shares, up to the order of its keys. -/
theorem SplitRule.unique {input input' : SplitInput ι} (hre : input.Reorders input') {total : ℤ}
    {splits splits' : Splits ι} (hnd : input.participants.Nodup)
    (h : SplitRule input total splits) (h' : SplitRule input' total splits') :
    splits.entries.Perm splits'.entries := by
  obtain ⟨r, left, hr, _, _, _, hl⟩ := h.shares
  obtain ⟨r', left', hr', _, _, _, hl'⟩ := h'.shares
  have hrr : r = r' := by
    have hr'' : LeftoverTo input'.participants input.paidBy r' := by rw [hre.paidBy]; exact hr'
    exact LeftoverTo.unique hre.participants hr hr''
  subst hrr
  have htable : ∀ k, splits.lookup k = if k ∈ input.participants then
      some (input.floorShare total k + if k = r then left else 0) else none := by
    intro k
    by_cases hk : k ∈ input.participants
    · rw [if_pos hk, hl k hk]
    · rw [if_neg hk]
      exact AList.lookup_eq_none.mpr fun hmem => hk ((h.keys k).mp hmem)
  have htable' : ∀ k, splits'.lookup k = if k ∈ input.participants then
      some (input.floorShare total k + if k = r then left' else 0) else none := by
    intro k
    by_cases hk : k ∈ input.participants
    · rw [if_pos hk, hl' k (hre.participants.subset hk), SplitInput.floorShare_reordered hre]
    · rw [if_neg hk]
      exact AList.lookup_eq_none.mpr fun hmem =>
        hk (hre.participants.symm.subset ((h'.keys k).mp hmem))
  -- both leftovers make up the same total
  have hleft : left = left' := by
    have hs := h.sum
    have hs' := h'.sum
    rw [total_of_lookup hnd htable, sum_map_leftover hnd _ hr.member] at hs
    rw [total_of_lookup hnd htable', sum_map_leftover hnd _ hr.member] at hs'
    omega
  subst hleft
  refine List.lookup_ext splits.nodupKeys splits'.nodupKeys ?_
  intro k v
  have hsame : splits.lookup k = splits'.lookup k := (htable k).trans (htable' k).symm
  show v ∈ splits.lookup k ↔ v ∈ splits'.lookup k
  rw [hsame]

/-- H3: `computeSplits` rejects exactly the inputs that cannot be split,
    follows the rule on the others, and does not look at orders. -/
theorem computeSplits_meets_rule (input : SplitInput ι)
    (hmax : ∀ total, input.totalCents = .int total → total ≤ 10 ^ 10) :
    ((∃ e, computeSplits input = .error e) ↔ ¬ input.WellFormed) ∧
    (∀ splits, computeSplits input = .ok splits →
      ∃ total, input.totalCents = .int total ∧ SplitRule input total splits) ∧
    (∀ input' splits, input.Reorders input' → computeSplits input = .ok splits →
      ∃ splits', computeSplits input' = .ok splits' ∧ splits.entries.Perm splits'.entries) := by
  have hsafe : ∀ total, input.totalCents = .int total → total ≤ maxSafeInteger := by
    intro total hint
    exact (hmax total hint).trans (by decide)
  refine ⟨⟨?_, ?_⟩, ?_, ?_⟩
  · rintro ⟨e, he⟩ hw
    obtain ⟨total, hint, _⟩ := id hw
    obtain ⟨splits, hs⟩ := computeSplits_total hw hint (hsafe total hint)
    rw [he] at hs
    cases hs
  · intro hw
    cases hs : computeSplits input with
    | error e => exact ⟨e, rfl⟩
    | ok splits => exact absurd (computeSplits_rule hs).1 hw
  · intro splits hs
    exact (computeSplits_rule hs).2
  · intro input' splits hre hs
    obtain ⟨hw, total, hint, hrule⟩ := computeSplits_rule hs
    have hint' : input'.totalCents = .int total := hre.totalCents ▸ hint
    obtain ⟨splits', hs'⟩ := computeSplits_total (hw.reordered hre) hint' (hsafe total hint)
    obtain ⟨_, total', hint'', hrule'⟩ := computeSplits_rule hs'
    rw [hint'] at hint''
    cases hint''
    obtain ⟨_, _, _, _, hnd, _⟩ := hw
    exact ⟨splits', hs', hrule.unique hre hnd hrule'⟩

/-- Three people, ten dollars, and the payer eats along. -/
def dinner : SplitInput ℕ where
  totalCents := .int 1000
  paidBy := 2
  mode := .equal
  participants := [3, 2, 1]
  exactCents := none
  weightsBp := none

theorem computeSplits_meets_rule_dinner :
    ∃ splits, computeSplits dinner = .ok splits ∧ splits.lookup 2 = some 334 ∧
      splits.lookup 3 = some 333 ∧ SplitRule dinner 1000 splits := by
  obtain ⟨_, hrule, _⟩ := computeSplits_meets_rule dinner
    (by intro total h; cases h; decide)
  refine ⟨_, rfl, by decide, by decide, ?_⟩
  obtain ⟨total, hint, h⟩ := hrule _ rfl
  cases hint
  exact h
