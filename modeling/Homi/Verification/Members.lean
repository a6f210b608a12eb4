import Homi.Verification.Accepts

/-! # Users, houses and members under the ledger protocol

  The calls beside expenses, bills and claims that write what the ledger
  protocol speaks about: new users and memberships, names and rooms of
  members, and new invites.
-/

namespace Homi

open ReadCommitted Protocol

variable {env : Env} {merged unread : Prop} {α : Type} {tx : DbTx} {d d' : Db} {now : ℕ}

/-! ## Section 1: New rows -/

/-- A transaction that inserts `user` and `member`, when they are there. -/
structure Arrival (env : Env) (user : Option (Uuid × User))
    (member : Option ((Uuid × Uuid) × HouseMember)) (tx : DbTx) (d : Db) : Prop where
  users : tx.writes.users = Table.newRows user
  houseMembers : tx.writes.houseMembers = Table.newRows member
  invites : tx.writes.invites = []
  expenses : tx.writes.expenses = []
  expenseSplits : tx.writes.expenseSplits = []
  expenseRevisions : tx.writes.expenseRevisions = []
  id : ∀ u r, user = some (u, r) → ∃ n < d.fresh, u = env.uuid n
  userFree : ∀ u r, user = some (u, r) → d.users.lookup u = none
  memberFree : ∀ k m, member = some (k, m) → d.houseMembers.lookup k = none

/-- A new membership is that of a user with an account, or that of a new
    user without one. -/
structure Fits (user : Option (Uuid × User)) (d : Db) (u : Uuid) (m : HouseMember) : Prop where
  unclaimed : m.claimedBy = none
  active : m.leftAt = none
  who : (m.isPlaceholder = false ∧ hasAccount d u = true) ∨
    (m.isPlaceholder = true ∧ ∃ r, user = some (u, r) ∧ r.email = none)

/-- The end of a transaction that inserts users and memberships. -/
def Arrived (env : Env) (tx : DbTx) (d : Db) : Prop :=
  ∃ user member, Arrival env user member tx d ∧ ∀ k m, member = some (k, m) → Fits user d k.2 m

section arrival

variable {user : Option (Uuid × User)} {member : Option ((Uuid × Uuid) × HouseMember)}
  {u : Uuid} {r : User} {k : Uuid × Uuid} {m : HouseMember}

theorem arrival_empty : Arrival env none none Tx.empty d :=
  ⟨rfl, rfl, rfl, rfl, rfl, rfl, fun _ _ h => (by cases h), fun _ _ h => (by cases h),
    fun _ _ h => (by cases h)⟩

theorem passive_arrival :
    (ledgerProtocol env merged unread).Passive Writes.Quiet (Arrival env user member) where
  stable := by
    intro tx d d' hr _ hA
    refine { hA with id := ?_, userFree := ?_, memberFree := ?_ }
    · intro u r hu
      obtain ⟨n, hn, hid⟩ := hA.id u r hu
      exact ⟨n, lt_of_lt_of_le hn hr.fresh, hid⟩
    · rintro u r rfl
      have hsame : d'.users.lookup u = d.users.lookup u :=
        hr.frame (.user u) (Or.inl (Writes.mem_written.mpr (by rw [hA.users]; simp [Table.newRows])))
      rw [hsame]
      exact hA.userFree u r rfl
    · rintro ⟨h, u⟩ m rfl
      have hsame : d'.houseMembers.lookup (h, u) = d.houseMembers.lookup (h, u) :=
        hr.frame (.member h u)
          (Or.inl (Writes.mem_written.mpr (by rw [hA.houseMembers]; simp [Table.newRows])))
      rw [hsame]
      exact hA.memberFree _ m rfl
  step := by
    intro tx d e hq hA
    refine ⟨?_, ?_, ?_, ?_, ?_, ?_, ?_, hA.userFree, hA.memberFree⟩
    · simp [Writes.append, hq.users, hA.users]
    · simp [Writes.append, hq.houseMembers, hA.houseMembers]
    · simp [Writes.append, hq.invites, hA.invites]
    · simp [Writes.append, hq.expenses, hA.expenses]
    · simp [Writes.append, hq.expenseSplits, hA.expenseSplits]
    · simp [Writes.append, hq.expenseRevisions, hA.expenseRevisions]
    · intro u r hu
      obtain ⟨n, hn, hid⟩ := hA.id u r hu
      exact ⟨n, Nat.lt_of_lt_of_le hn (Nat.le_add_right _ _), hid⟩

theorem Arrival.user_iff (hA : Arrival env user member tx d) :
    (tx.commit d).users.lookup u = some r ↔ d.users.lookup u = some r ∨ user = some (u, r) := by
  show (d.users.patch tx.writes.users).lookup u = some r ↔ _
  rw [hA.users]
  exact Table.lookup_patch_newRows hA.userFree

theorem Arrival.member_iff (hA : Arrival env user member tx d) :
    (tx.commit d).houseMembers.lookup k = some m ↔
      d.houseMembers.lookup k = some m ∨ member = some (k, m) := by
  show (d.houseMembers.patch tx.writes.houseMembers).lookup k = some m ↔ _
  rw [hA.houseMembers]
  exact Table.lookup_patch_newRows hA.memberFree

/-- A new user is no member of any house yet. -/
theorem Arrival.not_member (hA : Arrival env user member tx d) (hp : People env d)
    (hu : user = some (u, r)) {h : Uuid} : d.houseMembers.lookup (h, u) ≠ some m := by
  intro hm
  obtain ⟨r', hr', _⟩ := hp.user h u m hm
  rw [hA.userFree u r hu] at hr'
  cases hr'

/-- A placeholder's new membership is the only one of its user. -/
theorem Fits.alone (hF : Fits user d u m) (hA : Arrival env user member tx d) (hp : People env d)
    {h : Uuid} {m' : HouseMember} (hm' : d.houseMembers.lookup (h, u) = some m')
    (hpl : m.isPlaceholder = true ∨ m'.isPlaceholder = true) : False := by
  rcases hF.who with ⟨hreal, haccount⟩ | ⟨_, r, hu, _⟩
  · rcases hpl with hpl | hpl
    · rw [hreal] at hpl; cases hpl
    · rw [(hp.member_of_account haccount hm').1] at hpl; cases hpl
  · exact hA.not_member hp hu hm'

theorem Arrival.people (hA : Arrival env user member tx d) (hp : People env d)
    (hF : ∀ k m, member = some (k, m) → Fits user d k.2 m) : People env (tx.commit d) := by
  refine ⟨?_, ?_, ?_, ?_, ?_, ?_⟩
  · intro u r hr
    rcases hA.user_iff.mp hr with hr | hu
    · exact hp.ids u r hr
    · exact hA.id u r hu
  · intro h u m hm
    rcases hA.member_iff.mp hm with hm | hm
    · obtain ⟨r, hr, hiff⟩ := hp.user h u m hm
      exact ⟨r, hA.user_iff.mpr (Or.inl hr), hiff⟩
    · rcases (hF _ m hm).who with ⟨hreal, haccount⟩ | ⟨hpl, r, hu, hemail⟩
      · obtain ⟨r, hr, hne⟩ := hasAccount_iff.mp haccount
        exact ⟨r, hA.user_iff.mpr (Or.inl hr), iff_of_false (by simp [hreal]) hne⟩
      · exact ⟨r, hA.user_iff.mpr (Or.inr hu), iff_of_true hpl hemail⟩
  · intro h h' u m m' hm hm' hpl
    rcases hA.member_iff.mp hm with hm | hm <;> rcases hA.member_iff.mp hm' with hm' | hm'
    · exact hp.home h h' u m m' hm hm' hpl
    · exact ((hF _ m' hm').alone hA hp hm (Or.inr hpl)).elim
    · exact ((hF _ m hm).alone hA hp hm' (Or.inl hpl)).elim
    · rw [hm] at hm'
      cases hm'
      rfl
  · intro h u m hm hpl
    rcases hA.member_iff.mp hm with hm | hm
    · exact hp.left h u m hm hpl
    · simp [(hF _ m hm).unclaimed, (hF _ m hm).active]
  · intro h u m hm hcl
    rcases hA.member_iff.mp hm with hm | hm
    · exact hp.claimed h u m hm hcl
    · rw [(hF _ m hm).unclaimed] at hcl
      cases hcl
  · intro h u m c hm hcl
    rcases hA.member_iff.mp hm with hm | hm
    · obtain ⟨r, hr, hne⟩ := hp.claimer h u m c hm hcl
      exact ⟨r, hA.user_iff.mpr (Or.inl hr), hne⟩
    · rw [(hF _ m hm).unclaimed] at hcl
      cases hcl

theorem Arrived.guar {c : Call} (hc : c.isAccept = false) (hA : Arrived env tx d)
    (hb : LedgerBase env d) : LedgerGuar env merged unread c tx d := by
  obtain ⟨user, member, hA, hF⟩ := hA
  refine LedgerGuar.of_people hc hb hA.expenses hA.expenseSplits hA.expenseRevisions ?_ ?_ ?_ ?_
    (hA.people hb.people hF) ?_
  · exact fun u r hr => ⟨r, hA.user_iff.mpr (Or.inl hr), rfl⟩
  · exact fun k m hm => ⟨m, hA.member_iff.mpr (Or.inl hm), rfl, fun _ h => h, fun _ h => h⟩
  · intro k m hnone hm _
    rcases hA.member_iff.mp hm with hm | hm
    · rw [hnone] at hm
      cases hm
    · exact (hF k m hm).active
  · intro k m hm
    rcases hA.member_iff.mp hm with hm | hm
    · exact Or.inr ⟨m, hm, rfl⟩
    · exact Or.inl (hF k m hm).unclaimed
  · intro i invite hmem
    rw [hA.invites] at hmem
    cases hmem

theorem stable_arrived : (ledgerProtocol env merged unread).Stable (Arrived env) := by
  rintro tx d d' hr hi ⟨user, member, hA, hF⟩
  refine ⟨user, member, passive_arrival.stable tx d d' hr hi hA, ?_⟩
  intro k m hm
  refine ⟨(hF k m hm).unclaimed, (hF k m hm).active, ?_⟩
  rcases (hF k m hm).who with ⟨hreal, haccount⟩ | hnew
  · exact Or.inl ⟨hreal, hasAccount_rely haccount hr.toPersist⟩
  · exact Or.inr hnew

end arrival

section arrivals

variable {c : Call} {startedAt : Millis}

theorem triple_insertUser {m : Option ((Uuid × Uuid) × HouseMember)} {row : User}
    {locks : View Db → Locks LockKey} {res : View Db → Except Err Uuid}
    (hres : ∀ v u, res v = .ok u → u = env.uuid v.db.fresh) :
    (ledgerProtocol env merged unread).Triple (Arrival env none m)
      (Txn.exec (fun v =>
        { locks := locks v, writes := { users := [(env.uuid v.db.fresh, some row)] }, ids := 1 }) res :
        DbTxn Uuid)
      fun u => Arrival env (some (u, row)) m := by
  refine triple_exec passive_arrival.stable ?_
  intro tx d now u hA hi hu
  obtain rfl := hres _ u hu
  have hfree : d.users.lookup (env.uuid d.fresh) = none := by
    by_contra hne
    obtain ⟨r, hr⟩ := Option.ne_none_iff_exists'.mp hne
    obtain ⟨n, hn, hid⟩ := hi.1.people.ids _ r hr
    exact lt_irrefl _ (env.uuid_inj hid ▸ hn)
  refine ⟨?_, ?_, ?_, ?_, ?_, ?_, ?_, ?_, hA.memberFree⟩
  · simp [Writes.append, hA.users, Table.newRows]
  · simp [Writes.append, hA.houseMembers]
  · simp [Writes.append, hA.invites]
  · simp [Writes.append, hA.expenses]
  · simp [Writes.append, hA.expenseSplits]
  · simp [Writes.append, hA.expenseRevisions]
  · rintro _ _ ⟨⟩
    exact ⟨d.fresh, Nat.lt_succ_self _, rfl⟩
  · rintro _ _ ⟨⟩
    exact hfree

theorem triple_insertMember {user : Option (Uuid × User)} {h u : Uuid} {m : HouseMember} :
    (ledgerProtocol env merged unread).Triple (Arrival env user none) (insertMember h u m)
      fun _ => Arrival env user (some ((h, u), m)) := by
  refine triple_exec passive_arrival.stable ?_
  intro tx d now _ hA hi hres
  have hview : (tx.view d now).db.houseMembers = d.houseMembers :=
    view_houseMembers hA.houseMembers
  rw [hview] at hres
  refine ⟨?_, ?_, ?_, ?_, ?_, ?_, hA.id, hA.userFree, ?_⟩
  · simp [Writes.append, hA.users]
  · simp [Writes.append, hA.houseMembers, Table.newRows]
  · simp [Writes.append, hA.invites]
  · simp [Writes.append, hA.expenses]
  · simp [Writes.append, hA.expenseSplits]
  · simp [Writes.append, hA.expenseRevisions]
  · rintro _ _ ⟨⟩
    show d.houseMembers.lookup (h, u) = none
    by_contra hne
    rw [if_pos (Option.isSome_iff_ne_none.mpr hne)] at hres
    cases hres

theorem signUp_body (hc : c.isAccept = false) {email name : JsString} :
    LedgerBody env merged unread c (fun _ => True) (signUpTx env email name)
      fun _ => Arrived env where
  triple := by
    refine triple_weaken (triple_insertUser (m := none) ?_) ?_ ?_
    · intro v u hu
      split at hu
      · cases hu
      · cases hu
        rfl
    · rintro _ _ ⟨rfl, _⟩
      exact arrival_empty
    · exact fun u tx d hA => ⟨_, none, hA, fun _ _ h => (by cases h)⟩
  stable := fun _ => stable_arrived
  guar := fun _ _ _ hA hb => hA.guar hc hb

theorem createHouse_body (hc : c.isAccept = false) {u : Uuid} {input : CreateHouseInput} :
    LedgerBody env merged unread c (fun d => hasAccount d u = true)
      (createHouseTx env u input startedAt) fun _ => Arrived env where
  triple := by
    have hkeep : (ledgerProtocol env merged unread).Passive Writes.Quiet
        fun tx d => Arrival env none none tx d ∧ hasAccount d u = true :=
      passive_arrival.and (passive_account _)
    refine triple_weaken (A := fun tx d => Arrival env none none tx d ∧ hasAccount d u = true) ?_ ?_
      fun _ _ _ hB => hB
    · refine triple_bind (triple_passive hkeep (Txn.only_exec fun _ => ⟨rfl, rfl, rfl, rfl, rfl, rfl⟩))
        fun id => triple_bind (triple_and triple_insertMember
          (triple_passive (passive_account fun _ => True) (only_insertMember fun _ => trivial))) fun _ => ?_
      refine triple_bind (triple_passive (passive_arrival.and (passive_account _))
        (only_log ⟨rfl, rfl, rfl, rfl, rfl, rfl⟩)) fun event => triple_pure ?_
      rintro tx d ⟨hA, haccount⟩
      refine ⟨none, _, hA, ?_⟩
      rintro _ _ ⟨⟩
      exact ⟨rfl, rfl, Or.inl ⟨rfl, haccount⟩⟩
    · rintro _ _ ⟨rfl, haccount⟩
      exact ⟨arrival_empty, haccount⟩
  stable := fun _ => stable_arrived
  guar := fun _ _ _ hA hb => hA.guar hc hb

theorem createPlaceholder_body (hc : c.isAccept = false) {h name : JsString} {u : Uuid} :
    LedgerBody env merged unread c (fun _ => True) (createPlaceholderTx env h u name startedAt)
      fun _ => Arrived env where
  triple := by
    refine triple_weaken (A := Arrival env none none) ?_ ?_ fun _ _ _ hB => hB
    · refine triple_bind (triple_passive passive_arrival (only_requireAdmin Writes.quiet_nothing))
        fun _ => triple_bind (triple_insertUser ?_) fun v => triple_bind triple_insertMember fun _ =>
        triple_bind (triple_passive passive_arrival (only_log ⟨rfl, rfl, rfl, rfl, rfl, rfl⟩))
          fun event => triple_pure ?_
      · rintro v _ ⟨⟩
        rfl
      · intro tx d hA
        refine ⟨_, _, hA, ?_⟩
        rintro _ _ ⟨⟩
        exact ⟨rfl, rfl, Or.inr ⟨rfl, _, rfl, rfl⟩⟩
    · rintro _ _ ⟨rfl, _⟩
      exact arrival_empty
  stable := fun _ => stable_arrived
  guar := fun _ _ _ hA hb => hA.guar hc hb

end arrivals

/-! ## Section 2: Names and rooms -/

/-- A transaction that updates memberships, and in them nothing that the
    ledger looks at. -/
structure Kept (tx : DbTx) (d : Db) : Prop where
  quiet : Writes.Quiet { tx.writes with houseMembers := [] }
  members : d.houseMembers.Respects MemberKept tx.writes.houseMembers

section kept

variable {c : Call} {startedAt : Millis}

theorem kept_empty : Kept Tx.empty d := ⟨Writes.quiet_nothing, Table.respects_nil _ _⟩

theorem stable_kept : (ledgerProtocol env merged unread).Stable Kept := by
  intro tx d d' hr _ hA
  refine ⟨hA.quiet, hA.members.congr ?_⟩
  rintro ⟨h, u⟩ hmem
  exact hr.frame (.member h u) (Or.inl (Writes.mem_written.mpr hmem))

theorem passive_kept : (ledgerProtocol env merged unread).Passive Writes.Quiet Kept where
  stable := stable_kept
  step := by
    intro tx d e hq hA
    refine ⟨?_, ?_⟩
    · have hnone : { (tx.add e).writes with houseMembers := [] } =
          Writes.append { tx.writes with houseMembers := [] } e.writes := by
        simp [Writes.append, hq.houseMembers]
      rw [hnone]
      exact hA.quiet.append hq
    · rw [Tx.add_writes, Writes.append_eq, Writes.append, hq.houseMembers, List.append_nil]
      exact hA.members

/-- One update of memberships. -/
theorem triple_kept {res : View Db → Except Err α}
    {edits : View Db → Edits (Uuid × Uuid) HouseMember}
    (h : ∀ v : View Db, v.db.houseMembers.Respects MemberKept (edits v)) :
    (ledgerProtocol env merged unread).Triple Kept
      (Txn.exec (fun v => { writes := { houseMembers := edits v } }) res : DbTxn α)
      fun _ => Kept := by
  refine triple_exec stable_kept ?_
  intro tx d now _ hA hi _
  refine ⟨?_, ?_⟩
  · have hsame : { (tx.add { writes := { houseMembers := edits (tx.view d now) } }).writes with
        houseMembers := [] } = { tx.writes with houseMembers := [] } := by simp [Writes.append]
    rw [hsame]
    exact hA.quiet
  · exact hA.members.append MemberKept.refl (fun _ _ _ => MemberKept.trans) (h _)

theorem memberKept_set {m m' : HouseMember} (hp : m'.isPlaceholder = m.isPlaceholder)
    (hc : m'.claimedBy = m.claimedBy) (hl : m'.leftAt = m.leftAt) :
    MemberKept (some m) (some m') := by
  refine ⟨fun h => (by cases h), ?_⟩
  rintro _ ⟨⟩
  exact ⟨m', rfl, hp, hc, hl⟩

theorem setDisplayName_body (hc : c.isAccept = false) {h : JsString} {u : Uuid}
    {name : Option JsString} :
    LedgerBody env merged unread c (fun _ => True) (setDisplayNameTx h u name startedAt)
      fun _ => Kept where
  triple := by
    refine triple_weaken (A := Kept) ?_ (fun _ _ hA => by rw [hA.1]; exact kept_empty) fun _ _ _ hB => hB
    refine triple_bind (triple_passive passive_kept (only_read Writes.quiet_nothing)) fun current => ?_
    split
    · exact triple_pure fun _ _ hA => hA
    · refine triple_bind (triple_kept ?_) fun _ => triple_bind (triple_passive passive_kept
        (only_log ⟨rfl, rfl, rfl, rfl, rfl, rfl⟩)) fun _ => triple_pure fun _ _ hA => hA
      intro v k o hmem
      split at hmem
      · next m hm =>
        obtain ⟨rfl, rfl⟩ := Prod.mk.inj (List.mem_singleton.mp hmem)
        rw [hm]
        exact memberKept_set rfl rfl rfl
      · cases hmem
  stable := fun _ => stable_kept
  guar := fun _ _ _ hA hb => LedgerGuar.of_kept hc hb hA.quiet.users hA.quiet.invites
    hA.quiet.expenses hA.quiet.expenseSplits hA.quiet.expenseRevisions hA.members

theorem triple_vacateRooms {h : Uuid} :
    (ledgerProtocol env merged unread).Triple Kept (vacateRooms h) fun _ => Kept := by
  refine triple_bind (triple_passive passive_kept (Txn.only_select Writes.quiet_nothing)) fun found =>
    triple_kept ?_
  intro v k o hmem
  obtain ⟨k', _, hk⟩ := List.mem_filterMap.mp hmem
  obtain ⟨m, hm, heq⟩ := Option.map_eq_some_iff.mp hk
  obtain ⟨rfl, rfl⟩ := Prod.mk.inj heq
  rw [hm]
  exact memberKept_set rfl rfl rfl

theorem triple_assignRooms {h : Uuid} {l : List ((Uuid × Room) × RoomInput)} :
    (ledgerProtocol env merged unread).Triple Kept (assignRooms h l) fun _ => Kept := by
  induction l with
  | nil => exact triple_pure fun _ _ hA => hA
  | cons x l ih =>
    refine triple_bind (triple_kept ?_) fun _ => ih
    intro v k o hmem
    obtain ⟨u, _, hk⟩ := List.mem_filterMap.mp hmem
    obtain ⟨m, hm, heq⟩ := Option.map_eq_some_iff.mp hk
    obtain ⟨rfl, rfl⟩ := Prod.mk.inj heq
    rw [hm]
    exact memberKept_set rfl rfl rfl

theorem setRooms_body (hc : c.isAccept = false) {h : JsString} {u : Uuid} {rooms : List RoomInput} :
    LedgerBody env merged unread c (fun _ => True) (setRoomsTx env h u rooms startedAt)
      fun _ => Kept where
  triple := by
    refine triple_weaken (A := Kept) ?_ (fun _ _ hA => by rw [hA.1]; exact kept_empty) fun _ _ _ hB => hB
    have hquiet : ∀ es, Writes.Quiet { rooms := es } := fun _ => ⟨rfl, rfl, rfl, rfl, rfl, rfl⟩
    refine triple_bind (triple_passive passive_kept (only_requireAdmin Writes.quiet_nothing)) fun _ =>
      triple_bind (triple_passive passive_kept (Txn.only_select Writes.quiet_nothing)) fun found =>
      triple_bind (triple_passive passive_kept only_reject) fun _ =>
      triple_bind triple_vacateRooms fun _ =>
      triple_bind (triple_passive passive_kept (only_deleteRooms Writes.quiet_nothing hquiet)) fun _ =>
      triple_bind (triple_passive passive_kept (only_insertRooms hquiet)) fun created =>
      triple_bind triple_assignRooms fun _ => triple_bind (triple_passive passive_kept
        (only_log ⟨rfl, rfl, rfl, rfl, rfl, rfl⟩)) fun _ => triple_pure fun _ _ hA => hA
  stable := fun _ => stable_kept
  guar := fun _ _ _ hA hb => LedgerGuar.of_kept hc hb hA.quiet.users hA.quiet.invites
    hA.quiet.expenses hA.quiet.expenseSplits hA.quiet.expenseRevisions hA.members

end kept

/-! ## Section 3: Invites -/

/-- A transaction that inserts invites. Those that are bound are bound to a
    placeholder that it has locked. -/
structure Inviting (tx : DbTx) (d : Db) : Prop where
  quiet : Writes.Quiet { tx.writes with invites := [] }
  bound : ∀ i invite, (i, some invite) ∈ tx.writes.invites →
    ∀ p, invite.placeholderUserId = some p → Locked invite.houseId p tx d

section inviting

variable {c : Call}

theorem stable_inviting : (ledgerProtocol env merged unread).Stable Inviting :=
  fun _ _ _ hr _ hA => ⟨hA.quiet, fun i invite hmem p hp => (hA.bound i invite hmem p hp).rely hr⟩

theorem triple_lockUnclaimed {h p : Uuid} :
    (ledgerProtocol env merged unread).Triple (fun tx _ => tx = Tx.empty) (lockUnclaimed h p)
      fun _ tx d => tx.writes = {} ∧ Locked h p tx d := by
  refine triple_exec (stable_const _) ?_
  rintro _ d now _ rfl hi hres
  have hview : ((Tx.empty : DbTx).view d now).db = d := LawfulStore.apply_nothing d
  dsimp only at hres
  rw [hview] at hres
  refine ⟨rfl, ?_⟩
  cases hfound : (d.houseMembers.lookup (h, p)).filter fun m => m.isPlaceholder && m.leftAt = none with
  | none => rw [hfound] at hres; cases hres
  | some m =>
    rw [hfound] at hres
    dsimp only at hres
    split at hres
    · next hunclaimed =>
      obtain ⟨hm, hboth⟩ := Option.filter_eq_some_iff.mp hfound
      rw [Bool.and_eq_true, decide_eq_true_eq] at hboth
      refine ⟨owns_of_lock _ _ ?_, m, hm, hboth.1, hunclaimed, hboth.2⟩
      simp [hview, hfound]
    · cases hres

theorem triple_insertInvite {h u : Uuid} {bound : Option Uuid} {expiresAt : Millis} :
    (ledgerProtocol env merged unread).Triple
      (fun tx d => tx.writes = {} ∧ ∀ p, bound = some p → Locked h p tx d)
      (insertInvite env h u bound expiresAt) fun _ => Inviting := by
  refine triple_exec ?_ ?_
  · exact fun tx d d' hr _ hA => ⟨hA.1, fun p hp => (hA.2 p hp).rely hr⟩
  · rintro tx d now _ ⟨hw, hL⟩ hi _
    refine ⟨?_, ?_⟩
    · simp [hw, Writes.append]
      exact Writes.quiet_nothing
    · intro i invite hmem p hp
      simp only [Tx.add_writes, Writes.append_eq, hw, Writes.append, List.nil_append,
        List.mem_singleton] at hmem
      obtain ⟨rfl, hinvite⟩ := Prod.mk.inj hmem
      cases hinvite
      exact (hL p hp).add _

theorem createInvite_body (hc : c.isAccept = false) {h u : Uuid} {bound : Option Uuid}
    {expiresAt : Millis} :
    LedgerBody env merged unread c (fun _ => True) (createInviteTx env h u bound expiresAt)
      fun _ => Inviting where
  triple := by
    refine triple_weaken (triple_bind (B := fun _ tx d => tx.writes = {} ∧
      ∀ p, bound = some p → Locked h p tx d) ?_ fun _ => triple_insertInvite) (fun _ _ hA => hA.1)
      fun _ _ _ hB => hB
    cases bound with
    | none => exact triple_pure fun tx d hA => ⟨by rw [hA]; rfl, fun _ hp => (by cases hp)⟩
    | some p =>
      refine triple_weaken triple_lockUnclaimed (fun _ _ hA => hA) ?_
      rintro _ tx d ⟨hw, hL⟩
      refine ⟨hw, ?_⟩
      rintro _ ⟨⟩
      exact hL
  stable := fun _ => stable_inviting
  guar := by
    intro _ tx d hA hb
    have husers : (tx.commit d).users = d.users := by simp [Writes.apply, show tx.writes.users = [] from hA.quiet.users]
    have hmembers : (tx.commit d).houseMembers = d.houseMembers := by
      simp [Writes.apply, show tx.writes.houseMembers = [] from hA.quiet.houseMembers]
    refine LedgerGuar.of_people hc hb hA.quiet.expenses hA.quiet.expenseSplits
      hA.quiet.expenseRevisions ?_ ?_ ?_ ?_ (hb.people.of_kept husers rfl ?_) ?_
    · rw [husers]; exact fun _ => UserStep.refl _
    · rw [hmembers]; exact fun _ => MemberStep.refl _
    · rw [ArriveActive, hmembers]; exact fun _ _ h h' _ => by rw [h] at h'; cases h'
    · rw [NoNewClaim, hmembers]; exact fun k m hm => Or.inr ⟨m, hm, rfl⟩
    · rw [hmembers]; exact fun _ => MemberKept.refl _
    · intro i invite hmem _ p hp
      obtain ⟨m, hm, _, hunclaimed, _⟩ := (hA.bound i invite hmem p hp).unclaimed
      exact ⟨m, hm, hunclaimed⟩

end inviting

end Homi
