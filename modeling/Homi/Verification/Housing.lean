import Homi.Framework.Owned
import Homi.Verification.Parties

/-! # Houses as compartments

  Every row of the database but users and idempotency keys is a row of one
  house: an invite, an expense or a payment carries the house, a split or a
  revision has that of its expense. No statement moves a row from one house
  to another, so the writes of a transaction can be judged one statement at
  a time.

  * `Housing`: what every committed database satisfies.
  * `Confined`: the writes stay with the rows of one house.
  * `Homes`: what any commit leaves, namely the house of every row.
-/

namespace Homi

open ReadCommitted Protocol

variable {env : Env} {h k u e : Uuid} {d d' : Db} {tx : DbTx} {w w' : Writes} {V : Type}

/-! ## Section 1: Rows and their houses -/

/-- The identifier has been drawn. -/
def Drawn (env : Env) (fresh : ℕ) (id : Uuid) : Prop := ∃ n < fresh, id = env.uuid n

/-- The ids are drawn, and the houses are spelled as the database spells
    them. -/
def Sited (env : Env) (house : V → Uuid) (fresh : ℕ) (T : Table Uuid V) : Prop :=
  ∀ id v, T.lookup id = some v → Drawn env fresh id ∧ toUuid (house v) = house v

/-- The expense is one of the house. -/
def Belongs (h : Uuid) (d : Db) (e : Uuid) : Prop :=
  ∃ row, d.expenses.lookup e = some row ∧ row.houseId = h

/-- The user is or was a member of the house. -/
def Dwells (h : Uuid) (d : Db) (u : Uuid) : Prop := ∃ m, d.houseMembers.lookup (h, u) = some m

/-- The split is that of a member, in an expense of the same house. -/
def Lives (h : Uuid) (d : Db) (s : Split) : Prop := Belongs h d s.expenseId ∧ Dwells h d s.userId

structure Housing (env : Env) (d : Db) : Prop where
  houses : ∀ id house, d.houses.lookup id = some house → Drawn env d.fresh id
  houseMembers : ∀ k m, d.houseMembers.lookup k = some m → toUuid k.2 = k.2
  rooms : Sited env Room.houseId d.fresh d.rooms
  invites : Sited env Invite.houseId d.fresh d.invites
  expenses : Sited env Expense.houseId d.fresh d.expenses
  billTemplates : Sited env BillTemplate.houseId d.fresh d.billTemplates
  payments : Sited env Payment.houseId d.fresh d.payments
  slots : ∀ rid o, d.expenseSplits.lookup rid = some o → rid < d.fresh
  splits : ∀ rid s, d.split rid = some s → ∃ h, Lives h d s

/-- Rows stay, with their houses. -/
structure Homes (d d' : Db) : Prop where
  houseMembers : Table.KeepsOwners HouseMember.isPlaceholder d.houseMembers d'.houseMembers
  invites : Table.KeepsOwners Invite.houseId d.invites d'.invites
  expenses : Table.KeepsOwners Expense.houseId d.expenses d'.expenses
  billTemplates : Table.KeepsOwners BillTemplate.houseId d.billTemplates d'.billTemplates
  payments : Table.KeepsOwners Payment.houseId d.payments d'.payments

section rows

theorem Drawn.later {m n : ℕ} {id : Uuid} (hid : Drawn env m id) (hle : m ≤ n) : Drawn env n id := by
  obtain ⟨i, hi, heq⟩ := hid
  exact ⟨i, lt_of_lt_of_le hi hle, heq⟩

/-- The next identifier is not the id of any row. -/
theorem Sited.free {house : V → Uuid} {fresh : ℕ} {T : Table Uuid V} (hT : Sited env house fresh T)
    {n : ℕ} (hn : fresh ≤ n) : T.lookup (env.uuid n) = none := by
  cases hrow : T.lookup (env.uuid n) with
  | none => rfl
  | some v =>
    obtain ⟨⟨i, hi, heq⟩, -⟩ := hT _ v hrow
    have hsame := env.uuid_inj heq
    omega

theorem Sited.later {house : V → Uuid} {m n : ℕ} {T : Table Uuid V} (hT : Sited env house m T)
    (hle : m ≤ n) : Sited env house n T := by
  intro id v hv
  obtain ⟨hid, hcanon⟩ := hT id v hv
  exact ⟨hid.later hle, hcanon⟩

theorem Housing.tick (hd : Housing env d) (n : ℕ) : Housing env (tick n d) := by
  have hle : d.fresh ≤ d.fresh + n := Nat.le_add_right _ _
  exact {
    houses := fun id house hrow => (hd.houses id house hrow).later hle
    houseMembers := hd.houseMembers
    rooms := hd.rooms.later hle
    invites := hd.invites.later hle
    expenses := hd.expenses.later hle
    billTemplates := hd.billTemplates.later hle
    payments := hd.payments.later hle
    slots := fun rid o ho => lt_of_lt_of_le (hd.slots rid o ho) hle
    splits := hd.splits }

theorem Homes.refl (d : Db) : Homes d d := ⟨.refl _, .refl _, .refl _, .refl _, .refl _⟩

theorem Homes.tick (n : ℕ) (d : Db) : Homes d (tick n d) := ⟨.refl _, .refl _, .refl _, .refl _, .refl _⟩

theorem Homes.trans {a b c : Db} (hab : Homes a b) (hbc : Homes b c) : Homes a c where
  houseMembers := hab.houseMembers.trans hbc.houseMembers
  invites := hab.invites.trans hbc.invites
  expenses := hab.expenses.trans hbc.expenses
  billTemplates := hab.billTemplates.trans hbc.billTemplates
  payments := hab.payments.trans hbc.payments

/-- The same writes on top of both. -/
theorem Homes.apply (hh : Homes d d') (w : Writes) : Homes (w.apply d) (w.apply d') where
  houseMembers := hh.houseMembers.patch _
  invites := hh.invites.patch _
  expenses := hh.expenses.patch _
  billTemplates := hh.billTemplates.patch _
  payments := hh.payments.patch _

theorem Belongs.stays (hb : Belongs h d e) (hh : Homes d d') : Belongs h d' e := by
  obtain ⟨row, hrow, hhouse⟩ := hb
  obtain ⟨row', hrow', heq⟩ := hh.expenses e row hrow
  exact ⟨row', hrow', heq.trans hhouse⟩

theorem Dwells.stays (hm : Dwells h d u) (hh : Homes d d') : Dwells h d' u := by
  obtain ⟨m, hrow⟩ := hm
  obtain ⟨m', hrow', -⟩ := hh.houseMembers _ m hrow
  exact ⟨m', hrow'⟩

theorem Lives.stays {s : Split} (hs : Lives h d s) (hh : Homes d d') : Lives h d' s :=
  ⟨hs.1.stays hh, hs.2.stays hh⟩

/-- An expense has one house. -/
theorem Belongs.unique (hb : Belongs h d e) (hb' : Belongs k d e) : h = k := by
  obtain ⟨row, hrow, rfl⟩ := hb
  obtain ⟨row', hrow', rfl⟩ := hb'
  rw [hrow] at hrow'
  cases hrow'
  rfl

end rows

/-! ## Section 2: Writes within one house -/

/-- The edits stay with the rows of `h`, none of which goes away. -/
structure AtHome (env : Env) (house : V → Uuid) (h : Uuid) (fresh : ℕ) (T : Table Uuid V)
    (es : Edits Uuid V) : Prop where
  own : Table.OnlyOf house h T es
  stays : T.Respects (Table.OwnerStep house) es
  drawn : ∀ id o, (id, o) ∈ es → Drawn env fresh id

/-- The writes `w` onto `d` stay with the rows of the house `h`. -/
structure Confined (env : Env) (h : Uuid) (w : Writes) (d : Db) : Prop where
  canonical : toUuid h = h
  houses : ∀ id o, (id, o) ∈ w.houses → id = h ∧ Drawn env d.fresh id
  houseMembers : ∀ k o, (k, o) ∈ w.houseMembers → k.1 = h ∧ toUuid k.2 = k.2
  members : d.houseMembers.Respects (Table.OwnerStep HouseMember.isPlaceholder) w.houseMembers
  rooms : Table.OnlyOf Room.houseId h d.rooms w.rooms
  roomIds : ∀ id o, (id, o) ∈ w.rooms → Drawn env d.fresh id
  invites : AtHome env Invite.houseId h d.fresh d.invites w.invites
  expenses : AtHome env Expense.houseId h d.fresh d.expenses w.expenses
  billTemplates : AtHome env BillTemplate.houseId h d.fresh d.billTemplates w.billTemplates
  payments : AtHome env Payment.houseId h d.fresh d.payments w.payments
  expenseSplits : ∀ rid o, (rid, o) ∈ w.expenseSplits → rid < d.fresh ∧
    (∀ s, o = some (some s) → Lives h (w.apply d) s) ∧ ∀ s, d.split rid = some s → Belongs h d s.expenseId
  expenseRevisions : ∀ r ∈ w.expenseRevisions, Belongs h (w.apply d) r.expenseId
  activityEvents : ∀ ev ∈ w.activityEvents, ev.houseId = h

section edits

variable {house : V → Uuid} {fresh fresh' : ℕ} {T T' : Table Uuid V} {es fs : Edits Uuid V}

theorem atHome_nil : AtHome env house h fresh T [] :=
  ⟨Table.onlyOf_nil, Table.respects_nil _ _, fun _ _ hmem => by cases hmem⟩

theorem AtHome.append (hs : AtHome env house h fresh T es)
    (hs' : AtHome env house h fresh (T.patch es) fs) : AtHome env house h fresh T (es ++ fs) where
  own := hs.own.append hs'.own
  stays := hs.stays.append Table.OwnerStep.refl (fun _ _ _ => Table.OwnerStep.trans) hs'.stays
  drawn id o hmem := (List.mem_append.mp hmem).elim (hs.drawn id o) (hs'.drawn id o)

theorem AtHome.congr (hs : AtHome env house h fresh T es) (hle : fresh ≤ fresh')
    (heq : ∀ id ∈ es.map Prod.fst, T'.lookup id = T.lookup id) : AtHome env house h fresh' T' es where
  own := hs.own.congr heq
  stays := hs.stays.congr heq
  drawn id o hmem := (hs.drawn id o hmem).later hle

theorem AtHome.keeps (hs : AtHome env house h fresh T es) : Table.KeepsOwners house T (T.patch es) :=
  hs.stays.patch Table.OwnerStep.refl

theorem AtHome.sited (hs : AtHome env house h fresh T es) (hh : toUuid h = h)
    (hT : Sited env house fresh T) : Sited env house fresh (T.patch es) := by
  intro id v hv
  rcases lookup_patch_cases hv with hold | hnew
  · exact hT id v hold
  · have hown : house v = h := (hs.own id _ hnew).2 v rfl
    refine ⟨hs.drawn id _ hnew, ?_⟩
    rw [hown]
    exact hh

/-- A new row. -/
theorem atHome_insert {id : Uuid} {v : V} (hfree : T.lookup id = none) (hv : house v = h)
    (hid : Drawn env fresh id) : AtHome env house h fresh T [(id, some v)] where
  own := by
    intro id' o hmem
    obtain ⟨rfl, rfl⟩ := Prod.mk.inj (List.mem_singleton.mp hmem)
    refine ⟨fun v' hv' => ?_, fun v' hv' => ?_⟩
    · rw [hfree] at hv'
      cases hv'
    · cases hv'
      exact hv
  stays := by
    intro id' o hmem v' hv'
    obtain ⟨rfl, rfl⟩ := Prod.mk.inj (List.mem_singleton.mp hmem)
    rw [hfree] at hv'
    cases hv'
  drawn id' o hmem := by
    obtain ⟨rfl, -⟩ := Prod.mk.inj (List.mem_singleton.mp hmem)
    exact hid

/-- The update of a row that is there. -/
theorem atHome_update {id : Uuid} {v v' : V} (hT : Sited env house fresh T) (hv : T.lookup id = some v)
    (hown : house v = h) (hsame : house v' = house v) : AtHome env house h fresh T [(id, some v')] where
  own := by
    intro id' o hmem
    obtain ⟨rfl, rfl⟩ := Prod.mk.inj (List.mem_singleton.mp hmem)
    refine ⟨fun v₀ hv₀ => ?_, fun v₀ hv₀ => ?_⟩
    · rw [hv] at hv₀
      cases hv₀
      exact hown
    · cases hv₀
      exact hsame.trans hown
  stays := by
    intro id' o hmem v₀ hv₀
    obtain ⟨rfl, rfl⟩ := Prod.mk.inj (List.mem_singleton.mp hmem)
    rw [hv] at hv₀
    cases hv₀
    exact ⟨v', rfl, hsame⟩
  drawn id' o hmem := by
    obtain ⟨rfl, -⟩ := Prod.mk.inj (List.mem_singleton.mp hmem)
    exact (hT _ v hv).1

end edits

/-! ## Section 3: Statements one after the other -/

section confined

theorem Confined.homes (hc : Confined env h w d) : Homes d (w.apply d) where
  houseMembers := hc.members.patch Table.OwnerStep.refl
  invites := hc.invites.keeps
  expenses := hc.expenses.keeps
  billTemplates := hc.billTemplates.keeps
  payments := hc.payments.keeps

/-- The house of an expense that is there before the writes. -/
theorem Confined.belongs (hc : Confined env h w d) {row : Expense} (hrow : d.expenses.lookup e = some row)
    (hb : Belongs h (w.apply d) e) : Belongs h d e := by
  obtain ⟨row', hrow', hhouse⟩ := hb
  exact ⟨row, hrow, hc.expenses.own.owner_eq hrow hrow' hhouse⟩

/-- A live split after the writes is an old one or a written one. -/
theorem split_apply_cases {rid : Rid} {s : Split} (hs : (w.apply d).split rid = some s) :
    d.split rid = some s ∧ rid ∉ w.expenseSplits.map Prod.fst ∨ (rid, some (some s)) ∈ w.expenseSplits := by
  rw [Db.split_eq_some] at hs
  by_cases hmem : rid ∈ w.expenseSplits.map Prod.fst
  · right
    have hs' : (d.expenseSplits.patch w.expenseSplits).lookup rid = some (some s) := hs
    rw [Table.lookup_patch] at hs'
    cases hedit : Table.lastEdit w.expenseSplits rid with
    | none => exact absurd hmem (Table.lastEdit_eq_none.mp hedit)
    | some o =>
      rw [hedit] at hs'
      have ho : o = some (some s) := hs'
      rw [← ho]
      exact Table.mem_of_lastEdit hedit
  · left
    refine ⟨Db.split_eq_some.mpr ?_, hmem⟩
    rw [← hs]
    exact (Table.lookup_patch_of_notMem hmem).symm

/-- The slots that are not written keep their splits. -/
theorem split_apply_of_notMem {rid : Rid} (hmem : rid ∉ w.expenseSplits.map Prod.fst) :
    (w.apply d).split rid = d.split rid := by
  unfold Db.split
  rw [show (w.apply d).expenseSplits.lookup rid = d.expenseSplits.lookup rid from
    Table.lookup_patch_of_notMem hmem]

theorem Confined.housing (hc : Confined env h w d) (hd : Housing env d) : Housing env (w.apply d) where
  houses id house hrow := by
    rcases lookup_patch_cases hrow with hold | hnew
    · exact hd.houses id house hold
    · exact (hc.houses id _ hnew).2
  houseMembers k m hrow := by
    rcases lookup_patch_cases hrow with hold | hnew
    · exact hd.houseMembers k m hold
    · exact (hc.houseMembers k _ hnew).2
  rooms id room hrow := by
    rcases lookup_patch_cases hrow with hold | hnew
    · exact hd.rooms id room hold
    · refine ⟨hc.roomIds id _ hnew, ?_⟩
      rw [(hc.rooms id _ hnew).2 room rfl]
      exact hc.canonical
  invites := hc.invites.sited hc.canonical hd.invites
  expenses := hc.expenses.sited hc.canonical hd.expenses
  billTemplates := hc.billTemplates.sited hc.canonical hd.billTemplates
  payments := hc.payments.sited hc.canonical hd.payments
  slots rid o ho := by
    rcases lookup_patch_cases ho with hold | hnew
    · exact hd.slots rid o hold
    · exact (hc.expenseSplits rid _ hnew).1
  splits rid s hs := by
    rcases split_apply_cases hs with ⟨hold, -⟩ | hnew
    · obtain ⟨k, hlives⟩ := hd.splits rid s hold
      exact ⟨k, hlives.stays hc.homes⟩
    · exact ⟨h, (hc.expenseSplits rid _ hnew).2.1 s rfl⟩

/-- One more statement, whose old splits are known to be the house's. -/
theorem Confined.append_of (hc : Confined env h w d) (hc' : Confined env h w' (w.apply d))
    (hold : ∀ rid o, (rid, o) ∈ w'.expenseSplits → ∀ s, d.split rid = some s → Belongs h d s.expenseId) :
    Confined env h (w.append w') d := by
  have happly : (w.append w').apply d = w'.apply (w.apply d) := LawfulStore.apply_append w w' d
  have hhomes := hc'.homes
  exact {
    canonical := hc.canonical
    houses := fun id o hmem => (List.mem_append.mp hmem).elim (hc.houses id o) (hc'.houses id o)
    houseMembers := fun k o hmem =>
      (List.mem_append.mp hmem).elim (hc.houseMembers k o) (hc'.houseMembers k o)
    members := hc.members.append Table.OwnerStep.refl (fun _ _ _ => Table.OwnerStep.trans) hc'.members
    rooms := hc.rooms.append hc'.rooms
    roomIds := fun id o hmem => (List.mem_append.mp hmem).elim (hc.roomIds id o) (hc'.roomIds id o)
    invites := hc.invites.append hc'.invites
    expenses := hc.expenses.append hc'.expenses
    billTemplates := hc.billTemplates.append hc'.billTemplates
    payments := hc.payments.append hc'.payments
    expenseSplits := by
      intro rid o hmem
      rw [happly]
      rcases List.mem_append.mp hmem with hmem | hmem
      · obtain ⟨hlt, hnew, hold⟩ := hc.expenseSplits rid o hmem
        exact ⟨hlt, fun s hs => (hnew s hs).stays hhomes, hold⟩
      · obtain ⟨hlt, hnew, -⟩ := hc'.expenseSplits rid o hmem
        exact ⟨hlt, hnew, hold rid o hmem⟩
    expenseRevisions := by
      intro r hmem
      rw [happly]
      rcases List.mem_append.mp hmem with hmem | hmem
      · exact (hc.expenseRevisions r hmem).stays hhomes
      · exact hc'.expenseRevisions r hmem
    activityEvents := fun ev hmem =>
      (List.mem_append.mp hmem).elim (hc.activityEvents ev) (hc'.activityEvents ev) }

/-- One more statement, judged by what it sees. -/
theorem Confined.append (hc : Confined env h w d) (hd : Housing env d) (hc' : Confined env h w' (w.apply d)) :
    Confined env h (w.append w') d := by
  apply hc.append_of hc'
  intro rid o hmem s hs
  by_cases hwritten : rid ∈ w.expenseSplits.map Prod.fst
  · obtain ⟨⟨_, o₀⟩, hmem₀, rfl⟩ := List.mem_map.mp hwritten
    exact (hc.expenseSplits _ o₀ hmem₀).2.2 s hs
  · -- the first statements did not write the slot, so its expense was there before
    have hsame : (w.apply d).split rid = some s := by
      rw [split_apply_of_notMem hwritten]
      exact hs
    obtain ⟨_, ⟨row, hrow, _⟩, _⟩ := hd.splits rid s hs
    exact hc.belongs hrow ((hc'.expenseSplits rid o hmem).2.2 s hsame)

theorem Confined.tick (hc : Confined env h w d) (n : ℕ) : Confined env h w (tick n d) := by
  have hle : d.fresh ≤ d.fresh + n := Nat.le_add_right _ _
  exact {
    canonical := hc.canonical
    houses := fun id o hmem => ⟨(hc.houses id o hmem).1, (hc.houses id o hmem).2.later hle⟩
    houseMembers := hc.houseMembers
    members := hc.members
    rooms := hc.rooms
    roomIds := fun id o hmem => (hc.roomIds id o hmem).later hle
    invites := hc.invites.congr hle fun _ _ => rfl
    expenses := hc.expenses.congr hle fun _ _ => rfl
    billTemplates := hc.billTemplates.congr hle fun _ _ => rfl
    payments := hc.payments.congr hle fun _ _ => rfl
    expenseSplits := fun rid o hmem =>
      ⟨lt_of_lt_of_le (hc.expenseSplits rid o hmem).1 hle, (hc.expenseSplits rid o hmem).2⟩
    expenseRevisions := hc.expenseRevisions
    activityEvents := hc.activityEvents }

end confined

/-! ## Section 4: The protocol -/

/-- What others do meanwhile. -/
structure HomesRely (tx : DbTx) (d d' : Db) : Prop where
  persist : Persist d d'
  homes : Homes d d'
  frame : Frame tx d d'
  fresh : d.fresh ≤ d'.fresh

/-- Whoever is no placeholder never leaves. -/
def Rooted (d : Db) : Prop :=
  ∀ k m, d.houseMembers.lookup k = some m → m.isPlaceholder = false → m.leftAt = none

def IsActive (h : Uuid) (d : Db) (u : Uuid) : Prop := (activeMember d h u).isSome = true

/-- What allows a call to write rows of the house `h` when it commits.

    * `founds`: the house is its own.
    * `guarded`: the path names the house, and the user is an active member.
    * `edits`, `disputes`, `resolves`: the path names an expense or a payment
      of the house, and the user is an active member.
    * `invited`: the token is that of an invite of the house that can be
      used, by a clock reading of the transaction.
    * `works`: a bill of the house is there. -/
inductive Permits (env : Env) (tx : DbTx) (d : Db) (h : Uuid) : Call → Prop where
  | founds (u : Uuid) (input : CreateHouseInput) (hnew : d.houses.lookup h = none) :
      Permits env tx d h (.createHouse u input)
  | guarded (c : Call) (k : JsString) (u : Uuid) (hcall : c.guard? = some (k, u)) (hk : h = toUuid k)
      (hactive : IsActive h d u) : Permits env tx d h c
  | edits (e : JsString) (u : Uuid) (key : JsString) (input : EditExpenseInput)
      (hrow : Belongs h d (toUuid e)) (hactive : IsActive h d u) :
      Permits env tx d h (.editExpense e u key input)
  | disputes (p : JsString) (u : Uuid) (row : Payment) (hrow : d.payments.lookup (toUuid p) = some row)
      (hhouse : row.houseId = h) (hactive : IsActive h d u) : Permits env tx d h (.disputePayment p u)
  | resolves (p : JsString) (u : Uuid) (row : Payment) (hrow : d.payments.lookup (toUuid p) = some row)
      (hhouse : row.houseId = h) (hactive : IsActive h d u) : Permits env tx d h (.resolvePayment p u)
  | invited (token : JsString) (u i : Uuid) (invite : Invite) (now : Millis)
      (hrow : d.invites.lookup i = some invite) (hhouse : invite.houseId = h)
      (htoken : invite.tokenHash = env.hashToken token) (hclock : .clock now ∈ tx.notes)
      (husable : invite.usable now) : Permits env tx d h (.acceptInvite token u)
  | works (now : Millis) (b : Uuid) (t : BillTemplate) (hrow : d.billTemplates.lookup b = some t)
      (hhouse : t.houseId = h) : Permits env tx d h (.postDueBills now)

def Call.signsUp : Call → Bool
  | .signUp _ _ => true
  | _ => false

/-- The commit stays within one house, and is allowed to write there. -/
def StaysWithin (env : Env) (c : Call) (tx : DbTx) (d : Db) : Prop :=
  ∃ h, Confined env h tx.writes d ∧ Permits env tx d h c

def homesProtocol (env : Env) : DbProtocol where
  inv d := LedgerBase env d ∧ Housing env d ∧ Rooted d
  rely := HomesRely
  guar c _ tx d := c.signsUp = false → c.HasAccount d → StaysWithin env c tx d
  post _ _ _ := True
  allows _ _ _ _ _ := True
  stops _ _ := True

section protocol

theorem HomesRely.trans {a b c : Db} (hr : HomesRely tx a b) (hr' : HomesRely tx b c) : HomesRely tx a c where
  persist := hr.persist.trans hr'.persist
  homes := hr.homes.trans hr'.homes
  frame := hr.frame.trans hr'.frame
  fresh := hr.fresh.trans hr'.fresh

/-- A member with an account is an active one. -/
theorem Dwells.active (hm : Dwells h d u) (haccount : hasAccount d u = true) (hp : People env d)
    (hrooted : Rooted d) : IsActive h d u := by
  obtain ⟨m, hrow⟩ := hm
  have hleft : m.leftAt = none := hrooted _ m hrow (hp.member_of_account haccount hrow).1
  unfold IsActive activeMember
  rw [hrow]
  simp [hleft]

theorem Rooted.after {c : HomiCommit} (hrooted : Rooted c.before) (hk : Known env c) : Rooted c.after := by
  intro k m hm hreal
  cases hold : c.before.houseMembers.lookup k with
  | none => exact hk.step.toPersist.arrivals k m hold hm hreal
  | some m₀ =>
    obtain ⟨m', hm', hsame, -, hstay⟩ := hk.step.toPersist.members k m₀ hold
    rw [hm] at hm'
    cases hm'
    have hreal₀ : m₀.isPlaceholder = false := hsame ▸ hreal
    exact hstay hreal₀ (hrooted k m₀ hold hreal₀)

theorem Confined.keep (hc : Confined env h tx.writes d) (hr : HomesRely tx d d') :
    Confined env h tx.writes d' := by
  have hhomes : Homes (tx.writes.apply d) (tx.writes.apply d') := hr.homes.apply _
  have hown : ∀ key : LockKey, key ∈ tx.writes.written → Db.Agree key d d' :=
    fun key hkey => hr.frame key (Or.inl hkey)
  exact {
    canonical := hc.canonical
    houses := fun id o hmem => ⟨(hc.houses id o hmem).1, (hc.houses id o hmem).2.later hr.fresh⟩
    houseMembers := hc.houseMembers
    members := hc.members.congr fun k hk => hown (.member k.1 k.2) (Writes.mem_written.mpr hk)
    rooms := hc.rooms.congr fun id hid => hown (.room id) (Writes.mem_written.mpr hid)
    roomIds := fun id o hmem => (hc.roomIds id o hmem).later hr.fresh
    invites := hc.invites.congr hr.fresh fun id hid => hown (.invite id) (Writes.mem_written.mpr hid)
    expenses := hc.expenses.congr hr.fresh fun id hid => hown (.expense id) (Writes.mem_written.mpr hid)
    billTemplates :=
      hc.billTemplates.congr hr.fresh fun id hid => hown (.template id) (Writes.mem_written.mpr hid)
    payments := hc.payments.congr hr.fresh fun id hid => hown (.payment id) (Writes.mem_written.mpr hid)
    expenseSplits := by
      intro rid o hmem
      obtain ⟨hlt, hnew, hold⟩ := hc.expenseSplits rid o hmem
      refine ⟨lt_of_lt_of_le hlt hr.fresh, fun s hs => (hnew s hs).stays hhomes, fun s hs => ?_⟩
      have hsame : d'.expenseSplits.lookup rid = d.expenseSplits.lookup rid :=
        hown (.split rid) (Writes.mem_written.mpr (List.mem_map.mpr ⟨(rid, o), hmem, rfl⟩))
      rw [Db.split, hsame] at hs
      exact (hold s hs).stays hr.homes
    expenseRevisions := fun r hmem => (hc.expenseRevisions r hmem).stays hhomes
    activityEvents := hc.activityEvents }

/-- The fact stays true while rows keep their houses. -/
def Along (F : Db → Prop) : Prop := ∀ d d', Homes d d' → F d → F d'

/-- The writes so far stay with the rows of `h`, and the transaction sees
    that `F`. -/
def Staying (env : Env) (h : Uuid) (F : Db → Prop) (tx : DbTx) (d : Db) : Prop :=
  Confined env h tx.writes d ∧ F (tx.commit d)

variable {F G : Db → Prop}

theorem Along.and (hF : Along F) (hG : Along G) : Along fun d => F d ∧ G d :=
  fun d d' hh hd => ⟨hF d d' hh hd.1, hG d d' hh hd.2⟩

theorem along_true : Along fun _ => True := fun _ _ _ _ => trivial

theorem along_dwells (h u : Uuid) : Along fun d => Dwells h d u := fun _ _ hh hm => hm.stays hh

theorem along_belongs (h e : Uuid) : Along fun d => Belongs h d e := fun _ _ hh hb => hb.stays hh

/-- What a transaction sees after one more statement. -/
theorem Tx.commit_add (tx : DbTx) (ef : Effect Writes LockKey Note) (d : Db) :
    DbTx.commit (tx.add ef) (tick ef.ids d) = ef.writes.apply (tick ef.ids (tx.commit d)) :=
  LawfulStore.apply_append tx.writes ef.writes (tick ef.ids d)

theorem Staying.add_of (hA : Staying env h F tx d) (hF : Along F) {ef : Effect Writes LockKey Note}
    (hef : Confined env h ef.writes (tick ef.ids (tx.commit d)))
    (happ : Confined env h (tx.add ef).writes (tick ef.ids d)) :
    Staying env h F (tx.add ef) (tick ef.ids d) := by
  refine ⟨happ, ?_⟩
  rw [Tx.commit_add]
  exact hF _ _ ((Homes.tick ef.ids (tx.commit d)).trans hef.homes) hA.2

theorem Staying.add (hA : Staying env h F tx d) (hF : Along F) (hd : Housing env d)
    {ef : Effect Writes LockKey Note} (hef : Confined env h ef.writes (tick ef.ids (tx.commit d))) :
    Staying env h F (tx.add ef) (tick ef.ids d) :=
  hA.add_of hF hef ((hA.1.tick ef.ids).append (hd.tick ef.ids) hef)

/-- The writes stay with the rows of `h` on top of any database. -/
def Writes.Neutral (env : Env) (h : Uuid) (w : Writes) : Prop := ∀ D, Confined env h w D

theorem confined_nothing (hh : toUuid h = h) : Confined env h {} d where
  canonical := hh
  houses _ _ hmem := by cases hmem
  houseMembers _ _ hmem := by cases hmem
  members := Table.respects_nil _ _
  rooms := Table.onlyOf_nil
  roomIds _ _ hmem := by cases hmem
  invites := atHome_nil
  expenses := atHome_nil
  billTemplates := atHome_nil
  payments := atHome_nil
  expenseSplits _ _ hmem := by cases hmem
  expenseRevisions _ hmem := by cases hmem
  activityEvents _ hmem := by cases hmem

theorem neutral_nothing (hh : toUuid h = h) : Writes.Neutral env h {} := fun _ => confined_nothing hh

theorem neutral_event (hh : toUuid h = h) {ev : ActivityEvent} (hev : ev.houseId = h) :
    Writes.Neutral env h { activityEvents := [ev] } := fun _ =>
  { confined_nothing hh with
    activityEvents := fun ev' hmem => by
      rw [List.mem_singleton.mp hmem]
      exact hev
    expenseSplits := fun _ _ hmem => by cases hmem
    expenseRevisions := fun _ hmem => by cases hmem }

theorem neutral_keys (hh : toUuid h = h) (es : Edits KeyId KeyRow) :
    Writes.Neutral env h { idempotencyKeys := es } := fun _ =>
  { confined_nothing hh with
    expenseSplits := fun _ _ hmem => by cases hmem
    expenseRevisions := fun _ hmem => by cases hmem }

theorem neutral_users (hh : toUuid h = h) (es : Edits Uuid User) :
    Writes.Neutral env h { users := es } := fun _ =>
  { confined_nothing hh with
    expenseSplits := fun _ _ hmem => by cases hmem
    expenseRevisions := fun _ hmem => by cases hmem }

theorem stable_staying (hF : Along F) : (homesProtocol env).Stable (Staying env h F) := by
  intro tx d d' hr _ hA
  have hr' : HomesRely tx d d' := hr
  exact ⟨hA.1.keep hr', hF _ _ (hr'.homes.apply _) hA.2⟩

theorem passive_staying (hF : Along F) :
    (homesProtocol env).Passive (Writes.Neutral env h) (Staying env h F) where
  stable := stable_staying hF
  step _ d ef hq hA := hA.add_of hF (hq _) ((hA.1.tick ef.ids).append_of (hq _)
    fun rid o hmem => ((hq (tick ef.ids d)).expenseSplits rid o hmem).2.2)

end protocol

end Homi
