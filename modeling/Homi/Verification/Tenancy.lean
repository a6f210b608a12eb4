import Homi.Verification.Housing

/-! # Transactions within one house

  Each helper of the services stays with the rows of one house: from writes
  that do so far, and what the transaction sees of the house, to writes that
  do afterwards. The claim of a placeholder names no house in its updates of
  `expense_splits`: a placeholder is a member of one house, and members have
  splits only in the expenses of their houses.
-/

namespace Homi

open ReadCommitted Protocol

variable {env : Env} {h k u e : Uuid} {d d' D : Db} {tx : DbTx} {w : Writes} {F : Db → Prop} {α β : Type}

/-! ## Section 1: Writes to one table -/

section tables

theorem confined_houseMembers (hh : toUuid h = h) {es : Edits (Uuid × Uuid) HouseMember}
    (hkeys : ∀ k o, (k, o) ∈ es → k.1 = h ∧ toUuid k.2 = k.2)
    (hrows : D.houseMembers.Respects (Table.OwnerStep HouseMember.isPlaceholder) es) :
    Confined env h { houseMembers := es } D :=
  { confined_nothing hh with
    houseMembers := hkeys
    members := hrows
    expenseSplits := fun _ _ hmem => by cases hmem
    expenseRevisions := fun _ hmem => by cases hmem }

theorem confined_rooms (hh : toUuid h = h) {es : Edits Uuid Room}
    (hown : Table.OnlyOf Room.houseId h D.rooms es) (hids : ∀ id o, (id, o) ∈ es → Drawn env D.fresh id) :
    Confined env h { rooms := es } D :=
  { confined_nothing hh with
    rooms := hown
    roomIds := hids
    expenseSplits := fun _ _ hmem => by cases hmem
    expenseRevisions := fun _ hmem => by cases hmem }

theorem confined_invites (hh : toUuid h = h) {es : Edits Uuid Invite}
    (hes : AtHome env Invite.houseId h D.fresh D.invites es) : Confined env h { invites := es } D :=
  { confined_nothing hh with
    invites := hes
    expenseSplits := fun _ _ hmem => by cases hmem
    expenseRevisions := fun _ hmem => by cases hmem }

theorem confined_expenses (hh : toUuid h = h) {es : Edits Uuid Expense}
    (hes : AtHome env Expense.houseId h D.fresh D.expenses es) : Confined env h { expenses := es } D :=
  { confined_nothing hh with
    expenses := hes
    expenseSplits := fun _ _ hmem => by cases hmem
    expenseRevisions := fun _ hmem => by cases hmem }

theorem confined_billTemplates (hh : toUuid h = h) {es : Edits Uuid BillTemplate}
    (hes : AtHome env BillTemplate.houseId h D.fresh D.billTemplates es) :
    Confined env h { billTemplates := es } D :=
  { confined_nothing hh with
    billTemplates := hes
    expenseSplits := fun _ _ hmem => by cases hmem
    expenseRevisions := fun _ hmem => by cases hmem }

theorem confined_payments (hh : toUuid h = h) {es : Edits Uuid Payment}
    (hes : AtHome env Payment.houseId h D.fresh D.payments es) : Confined env h { payments := es } D :=
  { confined_nothing hh with
    payments := hes
    expenseSplits := fun _ _ hmem => by cases hmem
    expenseRevisions := fun _ hmem => by cases hmem }

theorem confined_revisions (hh : toUuid h = h) {rs : List Revision}
    (hrs : ∀ r ∈ rs, Belongs h D r.expenseId) : Confined env h { expenseRevisions := rs } D :=
  { confined_nothing hh with
    expenseSplits := fun _ _ hmem => by cases hmem
    expenseRevisions := hrs }

/-- The slot holds a split of an expense of the house, or did before it was
    deleted. -/
def SlotOf (h : Uuid) (D : Db) (rid : Rid) : Prop :=
  ∃ o, D.expenseSplits.lookup rid = some o ∧ ∀ s, o = some s → Belongs h D s.expenseId

theorem SlotOf.belongs {rid : Rid} {s : Split} (hslot : SlotOf h D rid) (hs : D.split rid = some s) :
    Belongs h D s.expenseId := by
  obtain ⟨o, ho, hb⟩ := hslot
  rw [Db.split_eq_some, ho] at hs
  exact hb s (Option.some.inj hs)

theorem slotOf_split {rid : Rid} {s : Split} (hs : D.split rid = some s) (hb : Belongs h D s.expenseId) :
    SlotOf h D rid := by
  refine ⟨some s, Db.split_eq_some.mp hs, fun s' heq => ?_⟩
  cases heq
  exact hb

/-- Splits of the house that are deleted or written over. -/
theorem confined_slots (hh : toUuid h = h) (hD : Housing env D) {es : Edits Rid (Option Split)}
    (hslots : ∀ rid o, (rid, o) ∈ es → SlotOf h D rid)
    (hnew : ∀ rid s, (rid, some (some s)) ∈ es → Lives h D s) : Confined env h { expenseSplits := es } D :=
  { confined_nothing hh with
    expenseSplits := by
      intro rid o hmem
      have hslot := hslots rid o hmem
      obtain ⟨row, hrow, hb⟩ := hslot
      refine ⟨hD.slots rid row hrow, fun s hs => ?_, fun s hs => SlotOf.belongs ⟨row, hrow, hb⟩ hs⟩
      subst hs
      exact hnew rid s hmem
    expenseRevisions := fun _ hmem => by cases hmem }

end tables

/-! ## Section 2: Statements -/

section statements

/-- One statement, judged by what it sees, with what its result says of
    what is seen after it. `S` is what else is known of the transaction. -/
theorem triple_staying_from (hF : Along F) {S : DbTx → Db → Prop} (hS : (homesProtocol env).Stable S)
    {act : View Db → Effect Writes LockKey Note} {res : View Db → Except Err α} {G : α → Db → Prop}
    (hact : ∀ (tx : DbTx) d now a, S tx d → Staying env h F tx d → People env d → Housing env (tx.commit d) →
      res (tx.view d now) = .ok a →
      Confined env h (act (tx.view d now)).writes (tick (act (tx.view d now)).ids (tx.commit d)) ∧
      G a ((act (tx.view d now)).writes.apply (tick (act (tx.view d now)).ids (tx.commit d)))) :
    (homesProtocol env).Triple (fun tx d => Staying env h F tx d ∧ S tx d) (.exec act res)
      fun a => Staying env h fun D => F D ∧ G a D := by
  refine triple_exec ((stable_staying hF).and hS) fun (tx : DbTx) d now a hA hi hres => ?_
  have hview : Housing env (tx.commit d) := hA.1.1.housing hi.2.1
  obtain ⟨hconfined, hG⟩ := hact tx d now a hA.2 hA.1 hi.1.people hview hres
  obtain ⟨hadd, hFadd⟩ := hA.1.add hF hi.2.1 hconfined
  refine ⟨hadd, hFadd, ?_⟩
  rw [Tx.commit_add]
  exact hG

theorem triple_staying (hF : Along F) {act : View Db → Effect Writes LockKey Note}
    {res : View Db → Except Err α} {G : α → Db → Prop}
    (hact : ∀ v a, Housing env v.db → toUuid h = h → F v.db → res v = .ok a →
      Confined env h (act v).writes (tick (act v).ids v.db) ∧
      G a ((act v).writes.apply (tick (act v).ids v.db))) :
    (homesProtocol env).Triple (Staying env h F) (.exec act res)
      fun a => Staying env h fun D => F D ∧ G a D :=
  triple_weaken (triple_staying_from hF (S := fun _ _ => True) (stable_const _)
    fun tx d now a _ hA _ hD hres => hact (tx.view d now) a hD hA.1.canonical hA.2 hres)
    (fun _ _ hA => ⟨hA, trivial⟩) fun _ _ _ hB => hB

/-- A statement with nothing to remember. -/
theorem triple_staying_write (hF : Along F) {act : View Db → Effect Writes LockKey Note}
    {res : View Db → Except Err α}
    (hact : ∀ v a, Housing env v.db → toUuid h = h → F v.db → res v = .ok a →
      Confined env h (act v).writes (tick (act v).ids v.db)) :
    (homesProtocol env).Triple (Staying env h F) (.exec act res) fun _ => Staying env h F :=
  triple_weaken (triple_staying hF (G := fun _ _ => True) fun v a hD hh hf hres =>
    ⟨hact v a hD hh hf hres, trivial⟩) (fun _ _ hA => hA) fun _ _ _ hB => ⟨hB.1, hB.2.1⟩

/-- A statement that only reads. -/
theorem triple_staying_read_from (hF : Along F) {S : DbTx → Db → Prop} (hS : (homesProtocol env).Stable S)
    {act : View Db → Effect Writes LockKey Note} {res : View Db → Except Err α} {G : α → Db → Prop}
    (hw : ∀ v, (act v).writes = {}) (hids : ∀ v, (act v).ids = 0)
    (hres : ∀ (tx : DbTx) d now a, S tx d → Staying env h F tx d → People env d → Housing env (tx.commit d) →
      res (tx.view d now) = .ok a → G a (tx.commit d)) :
    (homesProtocol env).Triple (fun tx d => Staying env h F tx d ∧ S tx d) (.exec act res)
      fun a => Staying env h fun D => F D ∧ G a D := by
  refine triple_staying_from hF hS fun tx d now a hs hA hp hD ha => ?_
  rw [hw, hids]
  refine ⟨confined_nothing hA.1.canonical, ?_⟩
  have hsame : Writes.apply {} (tick 0 (tx.commit d)) = tx.commit d := by
    rw [LawfulStore.tick_zero]
    exact LawfulStore.apply_nothing (tx.commit d)
  rw [hsame]
  exact hres tx d now a hs hA hp hD ha

theorem triple_staying_read (hF : Along F) {act : View Db → Effect Writes LockKey Note}
    {res : View Db → Except Err α} {G : α → Db → Prop} (hw : ∀ v, (act v).writes = {})
    (hids : ∀ v, (act v).ids = 0)
    (hres : ∀ v a, Housing env v.db → F v.db → res v = .ok a → G a v.db) :
    (homesProtocol env).Triple (Staying env h F) (.exec act res)
      fun a => Staying env h fun D => F D ∧ G a D :=
  triple_weaken (triple_staying_read_from hF (S := fun _ _ => True) (stable_const _) hw hids
    fun tx d now a _ hA _ hD ha => hres (tx.view d now) a hD hA.2 ha)
    (fun _ _ hA => ⟨hA, trivial⟩) fun _ _ _ hB => hB

/-- A select is a statement that only reads and never fails. -/
theorem select_eq_exec (res : View Db → α) :
    (.select res : DbTxn α) = .exec (fun _ => { writes := {} }) fun v => .ok (res v) := rfl

theorem triple_staying_select (hF : Along F) {res : View Db → α} {G : α → Db → Prop}
    (hres : ∀ v, Housing env v.db → F v.db → G (res v) v.db) :
    (homesProtocol env).Triple (Staying env h F) (.select res : DbTxn α)
      fun a => Staying env h fun D => F D ∧ G a D := by
  rw [select_eq_exec]
  refine triple_staying_read hF (fun _ => rfl) (fun _ => rfl) fun v a hD hf ha => ?_
  cases ha
  exact hres v hD hf

/-- Helpers that write beside the rows of houses. -/
theorem triple_beside (hF : Along F) {m : DbTxn α} (hm : m.Only (Writes.Neutral env h)) :
    (homesProtocol env).Triple (Staying env h F) m fun _ => Staying env h F :=
  triple_passive (passive_staying hF) hm

end statements

/-! ## Section 3: Expenses and their splits -/

section ledger

variable {houseId : JsString} {splits : Splits JsString}

/-- The list has members of the house. -/
def Peopled (h : Uuid) (ms : List ActiveMember) (D : Db) : Prop :=
  ∀ m ∈ ms, toUuid m.userId = m.userId ∧ Dwells h D m.userId

/-- The shares are those of members of the house. -/
def SharedIn (h : Uuid) (splits : Splits JsString) (D : Db) : Prop :=
  ∀ u a, splits.lookup u = some a → Dwells h D (toUuid u)

theorem along_peopled (h : Uuid) (ms : List ActiveMember) : Along (Peopled h ms) :=
  fun _ _ hh hms m hmem => ⟨(hms m hmem).1, (hms m hmem).2.stays hh⟩

theorem along_sharedIn (h : Uuid) (splits : Splits JsString) : Along (SharedIn h splits) :=
  fun _ _ hh hs u a hu => (hs u a hu).stays hh

theorem lockActiveMembers_peopled (hF : Along F) (hh : toUuid h = h) (hid : toUuid houseId = h)
    {ids : Option (List JsString)} :
    (homesProtocol env).Triple (Staying env h F) (lockActiveMembers houseId ids)
      fun ms => Staying env h fun D => F D ∧ Peopled h ms D := by
  refine triple_bind (triple_beside hF (Txn.only_select (neutral_nothing hh))) fun found => ?_
  refine triple_staying_read hF (fun _ => rfl) (fun _ => rfl) fun v ms hD _ hres m hmem => ?_
  cases hres
  obtain ⟨f, -, hactive⟩ := List.mem_filterMap.mp hmem
  obtain ⟨heq, row, hrow, -⟩ := activeMember_eq_some hactive
  rw [hid] at hrow
  rw [heq]
  exact ⟨hD.houseMembers _ row hrow, row, hrow⟩

/-- Members that are given to `resolveSplits` have to be of the house
    already. -/
theorem resolveSplits_shared (hF : Along F) (hh : toUuid h = h) (hid : toUuid houseId = h)
    {input : ResolveSplitsInput} {pre : Option (List ActiveMember)}
    (hpre : ∀ ms, pre = some ms → ∀ D, F D → Peopled h ms D) :
    (homesProtocol env).Triple (Staying env h F) (resolveSplits houseId input pre)
      fun splits => Staying env h fun D => F D ∧ SharedIn h splits D := by
  have hmembers : (homesProtocol env).Triple (Staying env h F)
      (postingMembers houseId input.mode (input.participants ++ [input.paidBy]).eraseDups pre)
      fun ms => Staying env h fun D => F D ∧ Peopled h ms D := by
    unfold postingMembers
    cases pre with
    | some ms => exact triple_pure fun _ _ hA => ⟨hA.1, hA.2, hpre ms rfl _ hA.2⟩
    | none => exact lockActiveMembers_peopled hF hh hid
  refine triple_bind hmembers fun ms => ?_
  split
  · exact triple_throw _
  · next hinvolved =>
    split
    · exact triple_throw _
    · refine triple_bind (triple_beside (hF.and (along_peopled h ms))
        (only_postingWeights (neutral_nothing hh))) fun weightsBp => ?_
      refine triple_liftSplit fun splits hok tx d hA => ⟨hA.1, hA.2.1, ?_⟩
      obtain ⟨_, total, htotal, hrule⟩ := computeSplits_rule hok
      intro u a hu
      have hpart : u ∈ input.participants := (hrule.keys u).mp (AList.lookup_isSome.mp (by rw [hu]; rfl))
      have hfound : ∃ m, byId ms u = some m := by
        by_contra hnone
        refine hinvolved (List.any_eq_true.mpr ⟨u, ?_, ?_⟩)
        · rw [List.mem_eraseDups]
          exact List.mem_append_left _ hpart
        · simpa [Option.eq_none_iff_forall_ne_some] using hnone
      obtain ⟨m, hm⟩ := hfound
      obtain ⟨hmem, rfl⟩ := byId_eq_some hm
      obtain ⟨hcanon, hdwells⟩ := hA.2.2 m hmem
      rw [hcanon]
      exact hdwells

theorem insertSplits_stays (hF : Along F) (hb : ∀ D, F D → Belongs h D e)
    (hs : ∀ D, F D → SharedIn h splits D) :
    (homesProtocol env).Triple (Staying env h F) (insertSplits e splits) fun _ => Staying env h F := by
  refine triple_staying_write hF fun v _ hD hh hf _ => ?_
  refine { confined_nothing hh with
    expenseSplits := ?_
    expenseRevisions := fun _ hmem => by cases hmem }
  intro rid o hmem
  obtain ⟨⟨s, i⟩, hrow, heq⟩ := List.mem_map.mp hmem
  obtain ⟨rfl, rfl⟩ := Prod.mk.inj heq
  rw [List.mem_zipIdx_iff_getElem?] at hrow
  have hlt := (List.getElem?_eq_some_iff.mp hrow).1
  refine ⟨Nat.add_lt_add_left hlt _, fun s' hs' => ?_, fun s' hs' => ?_⟩
  · cases hs'
    obtain ⟨⟨u, a⟩, hshare, rfl⟩ := List.mem_map.mp (List.mem_of_getElem? hrow)
    have hlives : Lives h v.db ⟨e, toUuid u, a⟩ := ⟨hb _ hf, hs _ hf u a (Table.mem_rows.mp hshare)⟩
    exact hlives
  · -- the slot is new
    have hold := hD.slots _ _ (Db.split_eq_some.mp hs')
    exact absurd hold (Nat.not_lt.mpr (Nat.le_add_right _ _))

theorem insertExpense_stays (hF : Along F) (hh : toUuid h = h) {startedAt : Millis}
    {spec : ExpenseSpec} (hid : toUuid spec.houseId = h) (hs : ∀ D, F D → SharedIn h splits D) :
    (homesProtocol env).Triple (Staying env h F) (insertExpense env startedAt spec splits)
      fun _ => Staying env h F := by
  refine triple_bind (triple_staying hF (G := fun id D => Belongs h D id) fun v id hD _ _ hres => ?_) fun id => ?_
  · have heq : id = env.uuid v.db.fresh := by
      split at hres
      · cases hres
      · split at hres
        · split at hres
          · cases hres
          · cases hres
            rfl
        · cases hres
          rfl
    rw [heq]
    refine ⟨confined_expenses hh (atHome_insert (hD.expenses.free le_rfl) hid ?_), spec.row startedAt, ?_, hid⟩
    · exact ⟨v.db.fresh, Nat.lt_succ_self _, rfl⟩
    · show (v.db.expenses.patch [(env.uuid v.db.fresh, some (spec.row startedAt))]).lookup _ = _
      rw [Table.lookup_patch_singleton, if_pos rfl]
  · refine triple_bind (insertSplits_stays (hF.and (along_belongs h id)) (fun _ hf => hf.2) fun _ hf =>
      hs _ hf.1) fun _ => triple_pure fun _ _ hA => ⟨hA.1, hA.2.1⟩

theorem updateExpense_stays (hF : Along F) (hb : ∀ D, F D → Belongs h D e) {input : EditExpenseInput} :
    (homesProtocol env).Triple (Staying env h F) (updateExpense e input) fun _ => Staying env h F := by
  refine triple_staying_write hF fun v _ hD hh hf _ => ?_
  obtain ⟨row, hrow, hhouse⟩ := hb _ hf
  dsimp only
  rw [hrow]
  exact confined_expenses hh (atHome_update hD.expenses hrow hhouse rfl)

/-! ### Slots

    A statement that writes over splits finds them in one step and writes
    them in the next. -/

theorem SlotOf.keep {rid : Rid} (hslot : SlotOf h (tx.commit d) rid) (hr : HomesRely tx d d') :
    SlotOf h (tx.commit d') rid := by
  obtain ⟨o, ho, hb⟩ := hslot
  have hhomes : Homes (tx.commit d) (tx.commit d') := hr.homes.apply _
  have ho' : (d.expenseSplits.patch tx.writes.expenseSplits).lookup rid = some o := ho
  unfold SlotOf
  rw [show (tx.commit d').expenseSplits.lookup rid =
    (d'.expenseSplits.patch tx.writes.expenseSplits).lookup rid from rfl, Table.lookup_patch]
  rw [Table.lookup_patch] at ho'
  cases hedit : Table.lastEdit tx.writes.expenseSplits rid with
  | some written =>
    rw [hedit] at ho'
    exact ⟨o, ho', fun s hs => (hb s hs).stays hhomes⟩
  | none =>
    rw [hedit] at ho'
    obtain ⟨hdead, hlive⟩ := hr.persist.rows rid
    cases o with
    | none => exact ⟨none, hdead ho', fun s hs => by cases hs⟩
    | some s =>
      rcases hlive s ho' with hgone | ⟨s', hs', heq⟩
      · exact ⟨none, hgone, fun s hs => by cases hs⟩
      · refine ⟨some s', hs', fun s₁ hs₁ => ?_⟩
        cases hs₁
        rw [heq]
        exact (hb s rfl).stays hhomes

theorem stable_slots (found : List (Rid × β)) :
    (homesProtocol env).Stable fun tx d => ∀ x ∈ found, SlotOf h (DbTx.commit tx d) x.1 :=
  fun _ _ _ hr _ hslots x hmem => SlotOf.keep (hslots x hmem) hr

/-- The update of rows that were found to be of the house. -/
theorem triple_rewrite (hF : Along F) (hh : toUuid h = h) {found : List (Rid × β)}
    {act : View Db → Effect Writes LockKey Note} {res : View Db → Except Err α}
    (es : View Db → Edits Rid (Option Split)) (hw : ∀ v, (act v).writes = { expenseSplits := es v })
    (hids : ∀ v, (act v).ids = 0) (hfound : ∀ v rid o, (rid, o) ∈ es v → ∃ x ∈ found, x.1 = rid)
    (hnew : ∀ v rid s, Housing env v.db → F v.db → (rid, some (some s)) ∈ es v →
      (∃ s₀, v.db.split rid = some s₀ ∧ s.expenseId = s₀.expenseId) ∧ Dwells h v.db s.userId) :
    (homesProtocol env).Triple
      (fun tx d => Staying env h F tx d ∧ ∀ x ∈ found, SlotOf h (DbTx.commit tx d) x.1) (.exec act res)
      fun _ => Staying env h F := by
  refine triple_weaken (triple_staying_from hF (stable_slots found) (G := fun _ _ => True)
    fun tx d now _ hslots hA _ hD _ => ⟨?_, trivial⟩) (fun _ _ hA => hA) fun _ _ _ hB => ⟨hB.1, hB.2.1⟩
  rw [hw, hids, LawfulStore.tick_zero]
  have hslot : ∀ rid o, (rid, o) ∈ es (tx.view d now) → SlotOf h (tx.commit d) rid := by
    intro rid o hmem
    obtain ⟨x, hx, rfl⟩ := hfound _ rid o hmem
    exact hslots x hx
  refine confined_slots hh hD hslot fun rid s hmem => ?_
  obtain ⟨⟨s₀, hs₀, heq⟩, hdwells⟩ := hnew (tx.view d now) rid s hD hA.2 hmem
  refine ⟨?_, hdwells⟩
  rw [heq]
  exact (hslot rid _ hmem).belongs hs₀

theorem deleteSplitsOf_stays (hF : Along F) (hh : toUuid h = h) (hb : ∀ D, F D → Belongs h D e) :
    (homesProtocol env).Triple (Staying env h F) (deleteSplitsOf e) fun _ => Staying env h F := by
  refine triple_bind (B := fun found tx d => Staying env h F tx d ∧ ∀ x ∈ found, SlotOf h (DbTx.commit tx d) x.1)
    ?_ fun found => triple_rewrite hF hh _ (fun _ => rfl) (fun _ => rfl) ?_ ?_
  · refine triple_select (stable_staying hF) fun (tx : DbTx) d now hA hi => ⟨hA, ?_⟩
    rintro ⟨rid, s⟩ hmem
    obtain ⟨hs, heq⟩ := Db.mem_splitsOf.mp hmem
    exact slotOf_split hs (heq ▸ hb _ hA.2)
  · intro v rid o hmem
    obtain ⟨x, hx, heq⟩ := List.mem_filterMap.mp hmem
    obtain ⟨_, _, heq⟩ := Option.map_eq_some_iff.mp heq
    exact ⟨x, hx, (Prod.mk.inj heq).1⟩
  · intro v rid s _ _ hmem
    obtain ⟨x, hx, heq⟩ := List.mem_filterMap.mp hmem
    obtain ⟨_, _, heq⟩ := Option.map_eq_some_iff.mp heq
    cases (Prod.mk.inj heq).2

end ledger

/-! ## Section 4: Members and rooms -/

section members

variable {set : Millis → HouseMember → HouseMember} {matching : HouseMember → Bool}

/-- The update of a member that is there. -/
theorem confined_member {m m' : HouseMember} (hh : toUuid h = h) (hD : Housing env D)
    (hm : D.houseMembers.lookup (h, u) = some m) (hsame : m'.isPlaceholder = m.isPlaceholder) :
    Confined env h { houseMembers := [((h, u), some m')] } D := by
  refine confined_houseMembers hh (fun k o hmem => ?_) fun k o hmem m₀ hm₀ => ?_
  · obtain ⟨rfl, -⟩ := Prod.mk.inj (List.mem_singleton.mp hmem)
    exact ⟨rfl, hD.houseMembers _ m hm⟩
  · obtain ⟨rfl, rfl⟩ := Prod.mk.inj (List.mem_singleton.mp hmem)
    rw [hm] at hm₀
    cases hm₀
    exact ⟨m', rfl, hsame⟩

/-- A new member. -/
theorem confined_join {m : HouseMember} (hh : toUuid h = h) (hu : toUuid u = u)
    (hfree : D.houseMembers.lookup (h, u) = none) :
    Confined env h { houseMembers := [((h, u), some m)] } D := by
  refine confined_houseMembers hh (fun k o hmem => ?_) fun k o hmem m₀ hm₀ => ?_
  · obtain ⟨rfl, -⟩ := Prod.mk.inj (List.mem_singleton.mp hmem)
    exact ⟨rfl, hu⟩
  · obtain ⟨rfl, rfl⟩ := Prod.mk.inj (List.mem_singleton.mp hmem)
    rw [hfree] at hm₀
    cases hm₀

/-- Updates of members that are there. -/
theorem confined_memberUpdates (hh : toUuid h = h) (hD : Housing env D)
    {es : Edits (Uuid × Uuid) HouseMember}
    (hes : ∀ k o, (k, o) ∈ es → k.1 = h ∧ ∃ m m', D.houseMembers.lookup k = some m ∧ o = some m' ∧
      m'.isPlaceholder = m.isPlaceholder) : Confined env h { houseMembers := es } D := by
  refine confined_houseMembers hh (fun k o hmem => ?_) fun k o hmem m₀ hm₀ => ?_
  · obtain ⟨hk, m, -, hm, -, -⟩ := hes k o hmem
    exact ⟨hk, hD.houseMembers _ m hm⟩
  · obtain ⟨-, m, m', hm, rfl, hsame⟩ := hes k o hmem
    rw [hm] at hm₀
    cases hm₀
    exact ⟨m', rfl, hsame⟩

theorem insertMember_stays (hF : Along F) (hu : ∀ D, F D → toUuid u = u) {m : HouseMember} :
    (homesProtocol env).Triple (Staying env h F) (insertMember h u m) fun _ => Staying env h F := by
  refine triple_staying_write hF fun v _ _ hh hf hres => confined_join hh (hu _ hf) ?_
  have hfree : v.db.houseMembers.lookup (h, u) = none := by
    by_contra hne
    rw [if_pos (Option.isSome_iff_ne_none.mpr hne)] at hres
    cases hres
  exact hfree

theorem updateMember_stays (hF : Along F) (hset : ∀ now m, (set now m).isPlaceholder = m.isPlaceholder) :
    (homesProtocol env).Triple (Staying env h F) (updateMember h u matching set) fun _ => Staying env h F := by
  refine triple_staying_write hF fun v _ hD hh _ _ => ?_
  dsimp only
  split
  · next m hm =>
    split
    · exact confined_member hh hD hm (hset _ m)
    · exact confined_nothing hh
  · exact confined_nothing hh

theorem moveMember_stays (hF : Along F) (hset : ∀ now m, (set now m).isPlaceholder = m.isPlaceholder)
    {roomId : Option Uuid} :
    (homesProtocol env).Triple (Staying env h F) (moveMember h u roomId matching set)
      fun _ => Staying env h F := by
  refine triple_staying_write hF fun v _ hD hh _ _ => ?_
  dsimp only
  split
  · next m hm => exact confined_member hh hD (Option.eq_some_of_filter_eq_some hm) (hset _ m)
  · exact confined_nothing hh

theorem vacateRooms_stays (hF : Along F) (hh : toUuid h = h) :
    (homesProtocol env).Triple (Staying env h F) (vacateRooms h) fun _ => Staying env h F := by
  refine triple_bind (triple_staying_select hF (G := fun found _ => ∀ k ∈ found, k.1 = h) fun v _ _ k hmem =>
    of_decide_eq_true (List.mem_filter.mp hmem).2) fun found => ?_
  refine triple_weaken (triple_staying_write (hF.and fun _ _ _ hfound => hfound) fun v _ hD _ hf _ =>
    confined_memberUpdates hh hD fun k o hmem => ?_) (fun _ _ hA => hA) fun _ _ _ hB => ⟨hB.1, hB.2.1⟩
  obtain ⟨k', hk', heq⟩ := List.mem_filterMap.mp hmem
  obtain ⟨m, hm, hrow⟩ := Option.map_eq_some_iff.mp heq
  obtain ⟨rfl, rfl⟩ := Prod.mk.inj hrow
  exact ⟨hf.2 k' hk', m, _, hm, rfl, rfl⟩

theorem assignRooms_stays (hF : Along F) (hh : toUuid h = h) {l : List ((Uuid × Room) × RoomInput)} :
    (homesProtocol env).Triple (Staying env h F) (assignRooms h l) fun _ => Staying env h F := by
  induction l with
  | nil => exact triple_pure fun _ _ hA => hA
  | cons x l ih =>
    refine triple_bind (triple_staying_write hF fun v _ hD _ _ _ =>
      confined_memberUpdates hh hD fun k o hmem => ?_) fun _ => ih
    obtain ⟨u, -, heq⟩ := List.mem_filterMap.mp hmem
    obtain ⟨m, hm, hrow⟩ := Option.map_eq_some_iff.mp heq
    obtain ⟨rfl, rfl⟩ := Prod.mk.inj hrow
    exact ⟨rfl, m, _, hm, rfl, rfl⟩

theorem deleteRooms_stays (hF : Along F) (hh : toUuid h = h) :
    (homesProtocol env).Triple (Staying env h F) (deleteRooms h) fun _ => Staying env h F := by
  refine triple_bind (triple_beside hF (Txn.only_select (neutral_nothing hh))) fun found => ?_
  have hrow : ∀ (D : Db) id o, (id, o) ∈ (found.filterMap fun id =>
      ((D.rooms.lookup id).filter fun room => room.houseId = h).map fun _ => (id, (none : Option Room))) →
      o = none ∧ ∃ room, D.rooms.lookup id = some room ∧ room.houseId = h := by
    intro D id o hmem
    obtain ⟨id', -, heq⟩ := List.mem_filterMap.mp hmem
    obtain ⟨room, hroom, hrest⟩ := Option.map_eq_some_iff.mp heq
    obtain ⟨rfl, rfl⟩ := Prod.mk.inj hrest
    obtain ⟨hlook, hown⟩ := Option.filter_eq_some_iff.mp hroom
    exact ⟨rfl, room, hlook, of_decide_eq_true hown⟩
  refine triple_staying_write hF fun v _ hD _ _ _ => confined_rooms hh (fun id o hmem => ?_) fun id o hmem => ?_
  · obtain ⟨rfl, room, hlook, hown⟩ := hrow v.db id o hmem
    refine ⟨fun room' hroom' => ?_, fun _ hnone => by cases hnone⟩
    have hsame : v.db.rooms.lookup id = some room' := hroom'
    rw [hlook] at hsame
    cases hsame
    exact hown
  · obtain ⟨-, room, hlook, -⟩ := hrow v.db id o hmem
    exact (hD.rooms id room hlook).1

theorem insertRooms_stays (hF : Along F) (hh : toUuid h = h) {rooms : List RoomInput} :
    (homesProtocol env).Triple (Staying env h F) (insertRooms env h rooms) fun _ => Staying env h F := by
  have hrow : ∀ (D : Db) id o, (id, o) ∈ (rooms.zipIdx.map fun x =>
      (env.uuid (D.fresh + x.2), (⟨h, x.1.name, x.1.weightBp⟩ : Room))).map (fun x => (x.1, some x.2)) →
      ∃ i < rooms.length, id = env.uuid (D.fresh + i) ∧ ∃ room : Room, o = some room ∧ room.houseId = h := by
    intro D id o hmem
    obtain ⟨⟨_, room⟩, hcreated, heq⟩ := List.mem_map.mp hmem
    obtain ⟨rfl, rfl⟩ := Prod.mk.inj heq
    obtain ⟨⟨r, i⟩, hr, heq'⟩ := List.mem_map.mp hcreated
    obtain ⟨rfl, rfl⟩ := Prod.mk.inj heq'
    rw [List.mem_zipIdx_iff_getElem?] at hr
    exact ⟨i, (List.getElem?_eq_some_iff.mp hr).1, rfl, _, rfl, rfl⟩
  refine triple_staying_write hF fun v _ hD _ _ _ => confined_rooms hh (fun id o hmem => ?_) fun id o hmem => ?_
  · obtain ⟨i, -, rfl, room, rfl, hown⟩ := hrow v.db id o hmem
    refine ⟨fun room' hroom' => ?_, fun room' heq => ?_⟩
    · have hnone : v.db.rooms.lookup (env.uuid (v.db.fresh + i)) = none := hD.rooms.free (Nat.le_add_right _ _)
      have hsome : v.db.rooms.lookup (env.uuid (v.db.fresh + i)) = some room' := hroom'
      rw [hnone] at hsome
      cases hsome
    · cases heq
      exact hown
  · obtain ⟨i, hi, rfl, -⟩ := hrow v.db id o hmem
    exact ⟨v.db.fresh + i, Nat.add_lt_add_left hi _, rfl⟩

end members

/-! ## Section 5: Claims -/

section claim

variable {p c : Uuid}

/-- The splits of a placeholder are in expenses of its house. -/
theorem guest_splits (hp : People env d) (hD : Housing env (tx.commit d)) (hc : Confined env h tx.writes d)
    (hguest : d.IsPlaceholder h p) {rid : Rid} {s : Split} (hs : (rid, s) ∈ (tx.commit d).splitsOfUser p) :
    (tx.commit d).split rid = some s ∧ s.userId = p ∧ Belongs h (tx.commit d) s.expenseId := by
  obtain ⟨hlive, huser⟩ := List.mem_filter.mp hs
  rw [Db.mem_splitRows] at hlive
  have heq : s.userId = p := of_decide_eq_true huser
  refine ⟨hlive, heq, ?_⟩
  obtain ⟨k, hb, m, hm⟩ := hD.splits rid s hlive
  obtain ⟨m₀, hm₀, hreal⟩ := hguest
  rw [heq] at hm
  -- its other membership would have been there before, as the writes are of `h`
  have hk : k = h := by
    rcases lookup_patch_cases hm with hold | hnew
    · exact hp.home h k p m₀ m hm₀ hold hreal
    · exact (hc.houseMembers _ _ hnew).1
  rw [← hk]
  exact hb

theorem passive_guest (q : Writes → Prop) :
    (homesProtocol env).Passive q fun _ d => d.IsPlaceholder h p where
  stable := by
    rintro tx d d' hr - ⟨m, hm, hreal⟩
    have hr' : HomesRely tx d d' := hr
    obtain ⟨m', hm', hsame, -⟩ := hr'.persist.members _ m hm
    exact ⟨m', hm', hsame.trans hreal⟩
  step _ _ _ _ hguest := hguest

/-- What nobody breaks is carried along. -/
theorem triple_carry {P : DbProtocol} {A S : DbTx → Db → Prop} {B : α → DbTx → Db → Prop}
    (hS : P.Passive (fun _ => True) S) {m : DbTxn α} (hm : P.Triple (fun tx d => A tx d ∧ S tx d) m B) :
    P.Triple (fun tx d => A tx d ∧ S tx d) m fun a tx d => B a tx d ∧ S tx d :=
  triple_weaken (triple_and hm (triple_passive hS (Txn.only_true m))) (fun _ _ hA => ⟨hA, hA.2⟩)
    fun _ _ _ hB => hB

/-- The query before such an update. -/
theorem triple_find (hF : Along F) {act : View Db → Effect Writes LockKey Note}
    {res : View Db → Except Err (List (Rid × Split))} (hw : ∀ v, (act v).writes = {})
    (hids : ∀ v, (act v).ids = 0)
    (hfound : ∀ v found, (∀ rid s, (rid, s) ∈ v.db.splitsOfUser p →
        v.db.split rid = some s ∧ s.userId = p ∧ Belongs h v.db s.expenseId) → res v = .ok found →
      ∀ x ∈ found, SlotOf h v.db x.1) :
    (homesProtocol env).Triple (fun tx d => Staying env h F tx d ∧ d.IsPlaceholder h p) (.exec act res)
      fun found tx d => Staying env h F tx d ∧ ∀ x ∈ found, SlotOf h (DbTx.commit tx d) x.1 :=
  triple_weaken (triple_staying_read_from hF (passive_guest fun _ => True).stable hw hids
    (G := fun found D => ∀ x ∈ found, SlotOf h D x.1) fun tx d now found hguest hA hp hD hres =>
      hfound (tx.view d now) found (fun _ _ hs => guest_splits hp hD hA.1 hguest hs) hres)
    (fun _ _ hA => hA) fun _ _ _ hB => ⟨⟨hB.1, hB.2.1⟩, hB.2.2⟩

theorem selectFolded_stays (hF : Along F) :
    (homesProtocol env).Triple (fun tx d => Staying env h F tx d ∧ d.IsPlaceholder h p) (selectFolded p c)
      fun folded => Staying env h fun D => F D ∧ ∀ x ∈ folded, Belongs h D x.1 := by
  refine triple_staying_read_from hF (passive_guest fun _ => True).stable (fun _ => rfl) (fun _ => rfl)
    fun tx d now folded hguest hA hp hD hres => ?_
  cases hres
  rintro ⟨e, row⟩ hmem
  obtain ⟨-, hboth⟩ := List.mem_filter.mp hmem
  obtain ⟨htheirs, -⟩ := Bool.and_eq_true_iff.mp hboth
  obtain ⟨⟨rid, s⟩, hs, huser⟩ := List.any_eq_true.mp htheirs
  obtain ⟨hlive, rfl⟩ := Db.mem_splitsOf.mp hs
  have hmine : (rid, s) ∈ (tx.commit d).splitsOfUser p :=
    List.mem_filter.mpr ⟨Db.mem_splitRows.mpr hlive, huser⟩
  exact (guest_splits hp hD hA.1 hguest hmine).2.2

theorem along_all {ι : Type} {l : List ι} {G : ι → Db → Prop} (hG : ∀ x, Along (G x)) :
    Along fun D => ∀ x ∈ l, G x D := fun d d' hh hd x hmem => hG x d d' hh (hd x hmem)

theorem reviseFolded_stays (hF : Along F) (hh : toUuid h = h) {folded : List (Uuid × Expense)}
    (hb : ∀ D, F D → ∀ x ∈ folded, Belongs h D x.1) :
    (homesProtocol env).Triple (Staying env h F) (reviseFolded h c folded) fun _ => Staying env h F := by
  unfold reviseFolded
  by_cases hnil : folded = []
  · rw [if_pos hnil]
    exact triple_pure fun _ _ hA => hA
  · rw [if_neg hnil]
    refine triple_bind (triple_beside hF (Txn.only_select (neutral_nothing hh))) fun splits => ?_
    refine triple_bind (triple_staying_write hF fun v _ _ _ hf _ => confined_revisions hh fun r hmem => ?_)
      fun _ => ?_
    · obtain ⟨x, hx, rfl⟩ := List.mem_map.mp hmem
      exact hb _ hf x hx
    · refine triple_beside hF (only_logAll fun event hmem => neutral_event hh ?_)
      obtain ⟨x, -, rfl⟩ := List.mem_map.mp hmem
      exact hh

theorem foldSplits_stays (hF : Along F) (hh : toUuid h = h) (hc : ∀ D, F D → Dwells h D c) :
    (homesProtocol env).Triple (fun tx d => Staying env h F tx d ∧ d.IsPlaceholder h p) (foldSplits p c)
      fun _ => Staying env h F := by
  refine triple_bind (triple_find hF (fun _ => rfl) (fun _ => rfl) ?_) fun pairs =>
    triple_rewrite hF hh _ (fun _ => rfl) (fun _ => rfl) ?_ ?_
  · intro v found htheirs hres
    cases hres
    rintro ⟨rid, theirs⟩ hmem
    obtain ⟨⟨rid', mine⟩, hmine, hpair⟩ := List.mem_flatMap.mp hmem
    obtain ⟨⟨rid'', theirs'⟩, hfound, heq⟩ := List.mem_map.mp hpair
    obtain ⟨rfl, rfl⟩ := Prod.mk.inj heq
    obtain ⟨hsplit, hsame⟩ := List.mem_filter.mp hfound
    have hexpense : theirs'.expenseId = mine.expenseId := of_decide_eq_true hsame
    have hlive : v.db.split rid' = some mine := Db.mem_splitRows.mp (List.mem_filter.mp hmine).1
    refine slotOf_split hlive ?_
    rw [← hexpense]
    exact (htheirs rid'' theirs' hsplit).2.2
  · intro v rid o hmem
    obtain ⟨⟨rid', mine, theirs⟩, hmatched, heq⟩ := List.mem_map.mp hmem
    obtain ⟨x, hx, hmap⟩ := List.mem_filterMap.mp hmatched
    obtain ⟨_, _, hmap⟩ := Option.map_eq_some_iff.mp hmap
    obtain ⟨rfl, -⟩ := Prod.mk.inj hmap
    exact ⟨x, hx, (Prod.mk.inj heq).1⟩
  · intro v rid s _ hf hmem
    obtain ⟨⟨rid', mine, theirs⟩, hmatched, heq⟩ := List.mem_map.mp hmem
    obtain ⟨x, hx, hmap⟩ := List.mem_filterMap.mp hmatched
    obtain ⟨mine', hmine, hmap⟩ := Option.map_eq_some_iff.mp hmap
    obtain ⟨rfl, hrest⟩ := Prod.mk.inj hmap
    obtain ⟨rfl, -⟩ := Prod.mk.inj hrest
    obtain ⟨rfl, hrow⟩ := Prod.mk.inj heq
    cases hrow
    have hlive := Option.eq_some_of_filter_eq_some hmine
    have huser : mine'.userId = c := by simpa using Option.filter_eq_some_iff.mp hmine |>.2
    refine ⟨⟨mine', hlive, rfl⟩, ?_⟩
    show Dwells h v.db mine'.userId
    rw [huser]
    exact hc _ hf

theorem sweepSplits_stays (hF : Along F) (hh : toUuid h = h) :
    (homesProtocol env).Triple (fun tx d => Staying env h F tx d ∧ d.IsPlaceholder h p) (sweepSplits p c)
      fun _ => Staying env h F := by
  refine triple_bind (triple_find hF (fun _ => rfl) (fun _ => rfl) ?_) fun found =>
    triple_rewrite hF hh _ (fun _ => rfl) (fun _ => rfl) ?_ ?_
  · intro v found htheirs hres
    cases hres
    rintro ⟨rid, s⟩ hmem
    obtain ⟨hlive, -, hb⟩ := htheirs rid s (List.mem_filter.mp hmem).1
    exact slotOf_split hlive hb
  · intro v rid o hmem
    obtain ⟨x, hx, heq⟩ := List.mem_map.mp hmem
    exact ⟨x, (List.mem_filter.mp hx).1, (Prod.mk.inj heq).1⟩
  · intro v rid s _ _ hmem
    obtain ⟨x, hx, heq⟩ := List.mem_map.mp hmem
    cases (Prod.mk.inj heq).2

theorem reidentifySplits_stays (hF : Along F) (hh : toUuid h = h) (hc : ∀ D, F D → Dwells h D c) :
    (homesProtocol env).Triple (fun tx d => Staying env h F tx d ∧ d.IsPlaceholder h p) (reidentifySplits p c)
      fun _ => Staying env h F := by
  refine triple_bind (B := fun found tx d => Staying env h F tx d ∧ ∀ x ∈ found, SlotOf h (DbTx.commit tx d) x.1)
    ?_ fun found => triple_rewrite hF hh _ (fun _ => rfl) (fun _ => rfl) ?_ ?_
  · rw [select_eq_exec]
    refine triple_find hF (fun _ => rfl) (fun _ => rfl) fun v found htheirs hres => ?_
    cases hres
    rintro ⟨rid, s⟩ hmem
    obtain ⟨hlive, -, hb⟩ := htheirs rid s hmem
    exact slotOf_split hlive hb
  · intro v rid o hmem
    obtain ⟨⟨rid', s⟩, hmatched, heq⟩ := List.mem_map.mp hmem
    obtain ⟨x, hx, hmap⟩ := List.mem_filterMap.mp hmatched
    obtain ⟨_, _, hmap⟩ := Option.map_eq_some_iff.mp hmap
    obtain ⟨rfl, -⟩ := Prod.mk.inj hmap
    exact ⟨x, hx, (Prod.mk.inj heq).1⟩
  · intro v rid s _ hf hmem
    obtain ⟨⟨rid', s'⟩, hmatched, heq⟩ := List.mem_map.mp hmem
    obtain ⟨x, hx, hmap⟩ := List.mem_filterMap.mp hmatched
    obtain ⟨s₀, hs₀, hmap⟩ := Option.map_eq_some_iff.mp hmap
    obtain ⟨rfl, rfl⟩ := Prod.mk.inj hmap
    obtain ⟨rfl, hrow⟩ := Prod.mk.inj heq
    cases hrow
    exact ⟨⟨s₀, Option.eq_some_of_filter_eq_some hs₀, rfl⟩, hc _ hf⟩

theorem claimHistory_stays (hF : Along F) (hh : toUuid h = h) (hc : ∀ D, F D → Dwells h D c) :
    (homesProtocol env).Triple (fun tx d => Staying env h F tx d ∧ d.IsPlaceholder h p)
      (claimHistory h p c) fun _ => Staying env h F := by
  have hguest := @passive_guest env h p fun _ => True
  refine triple_bind (triple_carry hguest (selectFolded_stays hF)) fun folded => ?_
  have hfolded : Along fun D => F D ∧ ∀ x ∈ folded, Belongs h D x.1 :=
    hF.and (along_all fun x => along_belongs h x.1)
  refine triple_bind (triple_carry hguest (triple_weaken (reviseFolded_stays hfolded hh fun _ hf => hf.2)
    (fun _ _ hA => hA.1) fun _ _ _ hB => hB)) fun events => ?_
  refine triple_weaken (A := fun tx d => Staying env h F tx d ∧ d.IsPlaceholder h p) ?_
    (fun _ _ hA => ⟨⟨hA.1.1, hA.1.2.1⟩, hA.2⟩) fun _ _ _ hB => hB
  refine triple_bind (triple_carry hguest (foldSplits_stays hF hh hc)) fun _ => ?_
  refine triple_bind (triple_carry hguest (sweepSplits_stays hF hh)) fun _ => ?_
  refine triple_bind (reidentifySplits_stays hF hh hc) fun _ => ?_
  refine triple_bind (updateMember_stays hF fun _ _ => rfl) fun _ => ?_
  exact triple_bind (triple_beside hF (only_softDeleteUser (neutral_users hh))) fun _ =>
    triple_pure fun _ _ hA => hA

end claim

/-! ## Section 6: Calls behind the guard -/

section guarded

variable {houseId : JsString} {startedAt : Millis}

/-- The transaction stays with the rows of `h`, from what it sees at first. -/
def StaysIn (env : Env) (h : Uuid) (F : Db → Prop) (m : DbTxn α) : Prop :=
  (homesProtocol env).Triple (Staying env h F) m fun _ => Staying env h F

/-- A first part, and a rest that relies on what is still seen. -/
theorem StaysIn.bind {m : DbTxn β} {rest : β → DbTxn α} (hm : StaysIn env h F m)
    (hrest : ∀ b, StaysIn env h F (rest b)) : StaysIn env h F (m >>= rest) := triple_bind hm hrest

theorem staysIn_beside (hF : Along F) {m : DbTxn α} (hm : m.Only (Writes.Neutral env h)) : StaysIn env h F m :=
  triple_beside hF hm

theorem staysIn_pure {a : α} : StaysIn env h F (pure a : DbTxn α) := triple_pure fun _ _ hA => hA

theorem staysIn_log (hF : Along F) (hh : toUuid h = h) {event : ActivityInput} (hev : toUuid event.houseId = h) :
    StaysIn env h F (log event) := staysIn_beside hF (only_log (neutral_event hh hev))

theorem staysIn_store (hF : Along F) (hh : toUuid h = h) {id : KeyId} {hash : JsString} {r : StoredResponse} :
    StaysIn env h F (store id hash r) := staysIn_beside hF (only_store (neutral_keys hh))

theorem createPlaceholder_stays {u : Uuid} {name : JsString} :
    StaysIn env (toUuid houseId) (fun _ => True) (createPlaceholderTx env houseId u name startedAt) := by
  have hh := toUuid_toUuid houseId
  have h0 := @neutral_nothing env _ hh
  refine StaysIn.bind (staysIn_beside along_true (only_requireAdmin h0)) fun _ => ?_
  refine triple_bind (triple_staying along_true (G := fun id _ => toUuid id = id) fun v id _ _ _ hres => ?_)
    fun id => ?_
  · cases hres
    exact ⟨neutral_users hh _ _, env.toUuid_uuid _⟩
  · have hid : Along fun _ => True ∧ toUuid id = id := fun _ _ _ hf => hf
    refine triple_bind (insertMember_stays hid fun _ hf => hf.2) fun _ => ?_
    refine triple_bind (staysIn_log hid hh rfl) fun _ => triple_pure fun _ _ hA => ⟨hA.1, trivial⟩

theorem setDisplayName_stays {u : Uuid} {name : Option JsString} :
    StaysIn env (toUuid houseId) (fun _ => True) (setDisplayNameTx houseId u name startedAt) := by
  have hh := toUuid_toUuid houseId
  have h0 := @neutral_nothing env _ hh
  refine StaysIn.bind (staysIn_beside along_true (Txn.only_exec fun _ => h0)) fun current => ?_
  split
  · exact staysIn_pure
  · exact StaysIn.bind (updateMember_stays along_true fun _ _ => rfl) fun _ =>
      StaysIn.bind (staysIn_log along_true hh rfl) fun _ => staysIn_pure

theorem setRooms_stays {u : Uuid} {rooms : List RoomInput} :
    StaysIn env (toUuid houseId) (fun _ => True) (setRoomsTx env houseId u rooms startedAt) := by
  have hh := toUuid_toUuid houseId
  have h0 := @neutral_nothing env _ hh
  refine StaysIn.bind (staysIn_beside along_true (only_requireAdmin h0)) fun _ =>
    StaysIn.bind (staysIn_beside along_true (Txn.only_exec fun _ => h0)) fun found =>
    StaysIn.bind (staysIn_beside along_true only_reject) fun _ => ?_
  refine StaysIn.bind (vacateRooms_stays along_true hh) fun _ =>
    StaysIn.bind (deleteRooms_stays along_true hh) fun _ =>
    StaysIn.bind (insertRooms_stays along_true hh) fun created =>
    StaysIn.bind (assignRooms_stays along_true hh) fun _ => ?_
  exact StaysIn.bind (staysIn_log along_true hh rfl) fun _ => staysIn_pure

theorem createInvite_stays {u : Uuid} {placeholder : Option Uuid} {expiresAt : Millis} :
    StaysIn env (toUuid houseId) (fun _ => True)
      (createInviteTx env (toUuid houseId) u placeholder expiresAt) := by
  have hh := toUuid_toUuid houseId
  refine StaysIn.bind (staysIn_beside along_true (only_checkBound (neutral_nothing hh))) fun _ => ?_
  refine triple_staying_write along_true fun v _ hD _ _ _ => confined_invites hh ?_
  exact atHome_insert (hD.invites.free le_rfl) rfl ⟨v.db.fresh, Nat.lt_succ_self _, rfl⟩

theorem createExpense_stays {u : Uuid} {input : CreateExpenseInput} {id : KeyId} {hash : JsString} :
    StaysIn env (toUuid houseId) (fun _ => True)
      (createExpenseTx env houseId u input (store id hash) startedAt) := by
  have hh := toUuid_toUuid houseId
  have h0 := @neutral_nothing env _ hh
  refine StaysIn.bind (staysIn_beside along_true (only_selectHouse h0)) fun house =>
    StaysIn.bind (staysIn_beside along_true only_reject) fun _ => ?_
  refine triple_bind (triple_mapError (resolveSplits_shared along_true hh rfl fun _ hnone => by cases hnone))
    fun splits => ?_
  have hshared : Along fun D => True ∧ SharedIn (toUuid houseId) splits D :=
    along_true.and (along_sharedIn _ splits)
  refine triple_bind (insertExpense_stays hshared hh rfl fun _ hf => hf.2) fun r => ?_
  exact triple_bind (staysIn_log hshared hh rfl) fun _ =>
    triple_bind (staysIn_store hshared hh) fun _ => triple_pure fun _ _ hA => ⟨hA.1, trivial⟩

theorem recordPayment_stays {u : Uuid} {input : RecordPaymentInput} {id : KeyId} {hash : JsString} :
    StaysIn env (toUuid houseId) (fun _ => True)
      (recordPaymentTx env houseId u input (store id hash) startedAt) := by
  have hh := toUuid_toUuid houseId
  have h0 := @neutral_nothing env _ hh
  refine StaysIn.bind (staysIn_beside along_true (only_selectHouse h0)) fun house =>
    StaysIn.bind (staysIn_beside along_true only_reject) fun _ =>
    StaysIn.bind (staysIn_beside along_true (Txn.only_mapError (only_lockActingMember h0))) fun _ => ?_
  refine StaysIn.bind (triple_staying_write along_true fun v _ hD _ _ _ => confined_payments hh ?_) fun p => ?_
  · exact atHome_insert (hD.payments.free le_rfl) rfl ⟨v.db.fresh, Nat.lt_succ_self _, rfl⟩
  · exact StaysIn.bind (staysIn_log along_true hh rfl) fun _ =>
      StaysIn.bind (staysIn_store along_true hh) fun _ => staysIn_pure

theorem createBill_stays {u : Uuid} {input : CreateBillInput} {id : KeyId} {hash : JsString} :
    StaysIn env (toUuid houseId) (fun _ => True)
      (createBillTx env houseId u input (store id hash) startedAt) := by
  have hh := toUuid_toUuid houseId
  have h0 := @neutral_nothing env _ hh
  refine StaysIn.bind (staysIn_beside along_true (only_selectHouse h0)) fun house =>
    StaysIn.bind (staysIn_beside along_true (Txn.only_mapError (only_lockActingMember h0))) fun _ =>
    StaysIn.bind (staysIn_beside along_true (only_clock h0)) fun now =>
    StaysIn.bind (staysIn_beside along_true only_liftSchedule) fun nextRun => ?_
  refine StaysIn.bind (triple_staying_write along_true fun v _ hD _ _ _ => confined_billTemplates hh ?_)
    fun b => ?_
  · exact atHome_insert (hD.billTemplates.free le_rfl) rfl ⟨v.db.fresh, Nat.lt_succ_self _, rfl⟩
  · exact StaysIn.bind (staysIn_log along_true hh rfl) fun _ =>
      StaysIn.bind (staysIn_store along_true hh) fun _ => staysIn_pure

/-- The template is one of the house. -/
def TemplateOf (h b : Uuid) (D : Db) : Prop := ∃ t, D.billTemplates.lookup b = some t ∧ t.houseId = h

theorem along_templateOf (h b : Uuid) : Along (TemplateOf h b) := by
  rintro D D' hh ⟨t, ht, hown⟩
  obtain ⟨t', ht', hsame⟩ := hh.billTemplates b t ht
  exact ⟨t', ht', hsame.trans hown⟩

/-- The update of a template of the house. -/
theorem confined_template {b : Uuid} {t : BillTemplate} (hh : toUuid h = h) (hD : Housing env D)
    (hb : TemplateOf h b D) (ht : t.houseId = h) :
    Confined env h { billTemplates := [(b, some t)] } D := by
  obtain ⟨t₀, ht₀, hown⟩ := hb
  exact confined_billTemplates hh (atHome_update hD.billTemplates ht₀ hown (ht.trans hown.symm))

theorem setActive_stays {b : JsString} {u : Uuid} {active : Bool} :
    StaysIn env (toUuid houseId) (fun _ => True) (setActiveTx env houseId b u active startedAt) := by
  have hh := toUuid_toUuid houseId
  have h0 := @neutral_nothing env _ hh
  refine triple_bind (triple_staying_read along_true (fun _ => rfl) (fun _ => rfl)
    (G := fun bill D => bill.houseId = toUuid houseId ∧ TemplateOf (toUuid houseId) (toUuid b) D)
    fun v bill _ _ hres => ?_) fun bill => ?_
  · dsimp only at hres
    split at hres
    · next t ht =>
      cases hres
      obtain ⟨hlook, hown⟩ := Option.filter_eq_some_iff.mp ht
      exact ⟨of_decide_eq_true hown, bill, hlook, of_decide_eq_true hown⟩
    · cases hres
  · have hbill : Along fun D => True ∧ bill.houseId = toUuid houseId ∧
        TemplateOf (toUuid houseId) (toUuid b) D :=
      fun D D' hhomes hf => ⟨trivial, hf.2.1, along_templateOf _ _ D D' hhomes hf.2.2⟩
    refine triple_bind (staysIn_beside hbill (Txn.only_select h0)) fun role =>
      triple_bind (staysIn_beside hbill only_reject) fun _ => ?_
    split
    · exact triple_pure fun _ _ hA => ⟨hA.1, trivial⟩
    · refine triple_bind (staysIn_beside hbill (only_resumedNextRun h0)) fun nextRun =>
        triple_bind (triple_staying_write hbill fun v _ hD _ hf _ =>
          confined_template hh hD hf.2.2 hf.2.1) fun updated => ?_
      exact triple_bind (staysIn_log hbill hh rfl) fun _ => triple_pure fun _ _ hA => ⟨hA.1, trivial⟩

end guarded

end Homi
