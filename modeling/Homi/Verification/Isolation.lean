import Homi.Verification.Configurations
import Homi.Verification.Tenancy

/-! # House isolation

  No request reaches into a house that it has no title to, and no request
  reaches into two houses. The guard of a route checks this for most calls;
  expenses, payments and invites are named by ids of their own, and the
  transaction looks their houses up before it writes.
-/

namespace Homi

open ReadCommitted Protocol

variable {env : Env} {h k u e : Uuid} {d d' D : Db} {tx : DbTx} {w : Writes} {F : Db → Prop} {α β : Type}
  {startedAt : Millis}

/-! ## Section 1: Looking a house up -/

/-- The writes stay with the rows of some house, of which `S` is known. -/
def Landed (env : Env) (S : Uuid → DbTx → Db → Prop) (tx : DbTx) (d : Db) : Prop :=
  ∃ h, Confined env h tx.writes d ∧ S h tx d

section landing

variable {S : Uuid → DbTx → Db → Prop}

theorem stable_landed (hS : ∀ h, (homesProtocol env).Stable (S h)) :
    (homesProtocol env).Stable (Landed env S) := by
  intro tx d d' hr hi hA
  obtain ⟨h, hconfined, hs⟩ := hA
  have hr' : HomesRely tx d d' := hr
  exact ⟨h, hconfined.keep hr', hS h tx d d' hr hi hs⟩

theorem passive_untouched : (homesProtocol env).Passive Writes.Blank fun tx _ => tx.writes.Blank :=
  ⟨stable_const _, (@passive_blank env).step⟩

theorem blank_add (hblank : tx.writes.Blank) {ef : Effect Writes LockKey Note} (hef : ef.writes.Blank) :
    (tx.add ef).writes.Blank := by
  rw [Tx.add_writes, show tx.writes = {} from hblank, show ef.writes = {} from hef]
  rfl

/-- A fact about the database that stays true while rows keep their houses. -/
theorem passive_along (hF : Along F) (q : Writes → Prop) : (homesProtocol env).Passive q fun _ d => F d where
  stable tx d d' hr _ hf := by
    have hr' : HomesRely tx d d' := hr
    exact hF d d' hr'.homes hf
  step _ d ef _ hf := hF d _ (Homes.tick ef.ids d) hf

/-- What the transaction sees before its first write. -/
theorem commit_blank (hblank : tx.writes.Blank) (d : Db) : tx.commit d = d := by
  show tx.writes.apply d = d
  rw [show tx.writes = {} from hblank]
  exact LawfulStore.apply_nothing d

theorem staying_blank (hblank : tx.writes.Blank) (hh : toUuid h = h) (hf : F d) : Staying env h F tx d := by
  refine ⟨?_, ?_⟩
  · rw [show tx.writes = {} from hblank]
    exact confined_nothing hh
  · rw [commit_blank hblank]
    exact hf

/-- The rest of a transaction, once its house is known. -/
theorem triple_landed {P : DbTx → Db → Prop} (hP : (homesProtocol env).Passive (fun _ => True) P)
    {G : Db → Prop} {m : DbTxn α} (hm : (homesProtocol env).Triple (fun tx d => Staying env h F tx d ∧ P tx d) m
      fun _ => Staying env h G) (hS : ∀ tx d, P tx d → S h tx d) :
    (homesProtocol env).Triple (fun tx d => Staying env h F tx d ∧ P tx d) m fun _ => Landed env S :=
  triple_weaken (triple_carry hP hm) (fun _ _ hA => hA) fun _ tx d hB => ⟨h, hB.1.1, hS tx d hB.2⟩

end landing

/-! ## Section 2: Expenses and payments -/

section ledger

variable {id : KeyId} {hash : JsString}

/-- The expense and the user are of the house. -/
def ExpenseTitle (e u h : Uuid) (_ : DbTx) (d : Db) : Prop := Belongs h d e ∧ Dwells h d u

/-- The payment is one of the house. -/
def PaymentOf (h p : Uuid) (D : Db) : Prop := ∃ row, D.payments.lookup p = some row ∧ row.houseId = h

/-- The payment and the user are of the house. -/
def PaymentTitle (p u h : Uuid) (_ : DbTx) (d : Db) : Prop := PaymentOf h p d ∧ Dwells h d u

theorem along_paymentOf (h p : Uuid) : Along (PaymentOf h p) := by
  intro D D' hh hp
  obtain ⟨row, hrow, hown⟩ := hp
  obtain ⟨row', hrow', hsame⟩ := hh.payments p row hrow
  exact ⟨row', hrow', hsame.trans hown⟩

theorem passive_expenseTitle {q : Writes → Prop} : (homesProtocol env).Passive q (ExpenseTitle e u h) :=
  passive_along ((along_belongs h e).and (along_dwells h u)) q

theorem passive_paymentTitle {p : Uuid} {q : Writes → Prop} : (homesProtocol env).Passive q (PaymentTitle p u h) :=
  passive_along ((along_paymentOf h p).and (along_dwells h u)) q

/-- An active member dwells in the house. -/
theorem dwells_of_active (hne : activeMember d h u ≠ none) : Dwells h d u := by
  obtain ⟨m, hm⟩ := Option.ne_none_iff_exists'.mp hne
  obtain ⟨-, row, hrow, -⟩ := activeMember_eq_some hm
  exact ⟨row, hrow⟩

/-- The query for the membership of the user, before the first write, and
    the check of what it finds. -/
theorem triple_selectActive {P : Db → Prop} (hP : Along P) {err : Err} {m : DbTxn α} {B : α → DbTx → Db → Prop}
    (hm : (homesProtocol env).Triple (fun tx d => tx.writes.Blank ∧ P d ∧ Dwells h d u) m B) :
    (homesProtocol env).Triple (fun tx d => tx.writes.Blank ∧ P d)
      ((.select fun v => activeMember v.db h u) >>= fun found => reject (found = none) err >>= fun _ => m) B := by
  refine triple_bind (B := fun found tx d => (tx.writes.Blank ∧ P d) ∧ (found ≠ none → Dwells h d u))
    ?_ fun found => triple_bind (triple_reject err) fun _ => triple_weaken hm
      (fun _ _ hA => ⟨hA.1.1.1, hA.1.1.2, hA.1.2 hA.2⟩) fun _ _ _ hB => hB
  refine triple_select (passive_untouched.and (passive_along hP Writes.Blank)).stable
    fun (tx : DbTx) d now hA _ => ⟨hA, fun hne => ?_⟩
  rw [view_blank hA.1] at hne
  exact dwells_of_active hne

theorem lockExpense_lands :
    (homesProtocol env).Triple (fun tx _ => tx.writes.Blank) (lockExpense e)
      fun expense tx d => toUuid expense.houseId = expense.houseId ∧ tx.writes.Blank ∧
        Belongs expense.houseId d e := by
  refine triple_exec passive_untouched.stable fun (tx : DbTx) d now expense hblank hi hres => ?_
  rw [view_blank hblank] at hres
  split at hres
  · next row hrow =>
    split at hres
    · cases hres
      exact ⟨(hi.2.1.expenses e _ hrow).2, blank_add hblank rfl, _, hrow, rfl⟩
    · cases hres
  · cases hres

/-- An edit, from where the expense is locked and the editor is known. -/
theorem editExpense_lands {expenseId : JsString} {input : EditExpenseInput} :
    (homesProtocol env).Triple (fun tx _ => tx.writes.Blank)
      (editExpenseTx expenseId u input (store id hash) startedAt)
      fun _ => Landed env (ExpenseTitle (toUuid expenseId) u) := by
  refine triple_bind lockExpense_lands fun expense tx d hA => ?_
  obtain ⟨hh, hA⟩ := hA
  have h0 := @neutral_nothing env _ hh
  have hb := along_belongs expense.houseId (toUuid expenseId)
  refine triple_selectActive hb (triple_weaken (triple_landed (F := fun D => Belongs expense.houseId D
    (toUuid expenseId)) (G := fun D => Belongs expense.houseId D (toUuid expenseId)) passive_expenseTitle
    (triple_weaken ?_ (fun _ _ hA => hA.1) fun _ _ _ hB => hB) fun _ _ hs => hs)
    (fun _ _ hA => ⟨staying_blank hA.1 hh hA.2.1, hA.2.1, hA.2.2⟩) fun _ _ _ hB => hB) tx d hA
  refine triple_bind (staysIn_beside hb (Txn.only_select h0)) fun previousSplits => ?_
  refine triple_bind (triple_staying_write hb fun v _ _ _ hf _ => confined_revisions hh fun r hmem => ?_)
    fun _ => ?_
  · rw [List.mem_singleton.mp hmem]
    exact hf
  refine triple_bind (triple_mapError (resolveSplits_shared hb hh hh fun _ hnone => by cases hnone))
    fun splits => ?_
  have hshared : Along fun D => Belongs expense.houseId D (toUuid expenseId) ∧ SharedIn expense.houseId splits D :=
    hb.and (along_sharedIn _ splits)
  refine triple_bind (updateExpense_stays hshared fun _ hf => hf.1) fun updated =>
    triple_bind (deleteSplitsOf_stays hshared hh fun _ hf => hf.1) fun _ =>
    triple_bind (insertSplits_stays hshared (fun _ hf => hf.1) fun _ hf => hf.2) fun _ => ?_
  exact triple_bind (staysIn_log hshared hh hh) fun _ =>
    triple_bind (staysIn_store hshared hh) fun _ => triple_pure fun _ _ hA => ⟨hA.1, hA.2.1⟩

theorem lockPayment_lands {p : Uuid} :
    (homesProtocol env).Triple (fun tx _ => tx.writes.Blank) (lockPayment p)
      fun payment tx d => toUuid payment.houseId = payment.houseId ∧ tx.writes.Blank ∧
        PaymentOf payment.houseId p d := by
  refine triple_exec passive_untouched.stable fun (tx : DbTx) d now payment hblank hi hres => ?_
  rw [view_blank hblank] at hres
  split at hres
  · next row hrow =>
    cases hres
    exact ⟨(hi.2.1.payments p _ hrow).2, blank_add hblank rfl, _, hrow, rfl⟩
  · cases hres

/-- What disputing and resolving start from. -/
theorem paymentForRecipient_lands {paymentId : JsString} {forbidden : JsString} :
    (homesProtocol env).Triple (fun tx _ => tx.writes.Blank) (paymentForRecipient paymentId u forbidden)
      fun payment tx d => toUuid payment.houseId = payment.houseId ∧
        Staying env payment.houseId (PaymentOf payment.houseId (toUuid paymentId)) tx d ∧
        PaymentTitle (toUuid paymentId) u payment.houseId tx d := by
  refine triple_bind lockPayment_lands fun payment tx d hA => ?_
  obtain ⟨hh, hA⟩ := hA
  refine triple_selectActive (along_paymentOf payment.houseId (toUuid paymentId)) ?_ tx d hA
  refine triple_bind (triple_reject _) fun _ => triple_pure fun tx d hA => ?_
  obtain ⟨⟨hblank, hp, hdwells⟩, -⟩ := hA
  exact ⟨hh, staying_blank hblank hh hp, hp, hdwells⟩

theorem updatePayment_stays {p : Uuid} {status : PaymentStatus} {closed : Err}
    {set : Millis → Payment → Payment} (hset : ∀ now row, (set now row).houseId = row.houseId) :
    StaysIn env h (PaymentOf h p) (updatePayment p status closed set) := by
  refine triple_staying_write (along_paymentOf h p) fun v _ hD hh hf _ => ?_
  obtain ⟨row, hrow, hown⟩ := hf
  dsimp only
  rw [hrow]
  dsimp only
  split
  · exact confined_payments hh (atHome_update hD.payments hrow hown (hset _ row))
  · exact confined_nothing hh

theorem disputePayment_lands {paymentId : JsString} :
    (homesProtocol env).Triple (fun tx _ => tx.writes.Blank) (disputePaymentTx paymentId u startedAt)
      fun _ => Landed env (PaymentTitle (toUuid paymentId) u) := by
  refine triple_bind paymentForRecipient_lands fun payment tx d hA => ?_
  obtain ⟨hh, hA⟩ := hA
  have h0 := @neutral_nothing env _ hh
  have hp := along_paymentOf payment.houseId (toUuid paymentId)
  refine triple_landed (G := PaymentOf payment.houseId (toUuid paymentId)) passive_paymentTitle
    (triple_weaken ?_ (fun _ _ hA => hA.1) fun _ _ _ hB => hB) (fun _ _ hs => hs) tx d hA
  refine triple_bind (staysIn_beside hp only_reject) fun _ =>
    triple_bind (staysIn_beside hp (only_clock h0)) fun now =>
    triple_bind (staysIn_beside hp only_reject) fun _ =>
    triple_bind (updatePayment_stays fun _ _ => rfl) fun disputed => ?_
  exact triple_bind (staysIn_log hp hh hh) fun _ => triple_pure fun _ _ hA => hA

theorem resolvePayment_lands {paymentId : JsString} :
    (homesProtocol env).Triple (fun tx _ => tx.writes.Blank) (resolvePaymentTx paymentId u startedAt)
      fun _ => Landed env (PaymentTitle (toUuid paymentId) u) := by
  refine triple_bind paymentForRecipient_lands fun payment tx d hA => ?_
  obtain ⟨hh, hA⟩ := hA
  have hp := along_paymentOf payment.houseId (toUuid paymentId)
  refine triple_landed (G := PaymentOf payment.houseId (toUuid paymentId)) passive_paymentTitle
    (triple_weaken ?_ (fun _ _ hA => hA.1) fun _ _ _ hB => hB) (fun _ _ hs => hs) tx d hA
  refine triple_bind (staysIn_beside hp only_reject) fun _ =>
    triple_bind (updatePayment_stays fun _ _ => rfl) fun resolved => ?_
  exact triple_bind (staysIn_log hp hh hh) fun _ => triple_pure fun _ _ hA => hA

end ledger

/-! ## Section 3: Invites -/

section invites

variable {i : Uuid} {invite : Invite} {token : JsString}

/-- The invite is one of the house. -/
def InviteOf (h i : Uuid) (D : Db) : Prop := ∃ row, D.invites.lookup i = some row ∧ row.houseId = h

/-- The transaction has found the invite of the token, and holds it. -/
def InviteTitle (env : Env) (token : JsString) (h : Uuid) (tx : DbTx) (d : Db) : Prop :=
  ∃ i invite now, tx.Owns (.invite i) ∧ d.invites.lookup i = some invite ∧ invite.houseId = h ∧
    invite.tokenHash = env.hashToken token ∧ .clock now ∈ tx.notes ∧ invite.usable now

theorem along_inviteOf (h i : Uuid) : Along (InviteOf h i) := by
  intro D D' hh hi
  obtain ⟨row, hrow, hown⟩ := hi
  obtain ⟨row', hrow', hsame⟩ := hh.invites i row hrow
  exact ⟨row', hrow', hsame.trans hown⟩

theorem passive_inviteTitle {q : Writes → Prop} :
    (homesProtocol env).Passive q (InviteTitle env token h) where
  stable := by
    intro tx d d' hr _ htitle
    obtain ⟨i, invite, now, hown, hrow, hrest⟩ := htitle
    have hr' : HomesRely tx d d' := hr
    have hsame : d'.invites.lookup i = d.invites.lookup i := hr'.frame _ hown.holds
    exact ⟨i, invite, now, hown, hsame.trans hrow, hrest⟩
  step := by
    intro tx d ef _ htitle
    obtain ⟨i, invite, now, hown, hrow, hhouse, htoken, hclock, husable⟩ := htitle
    exact ⟨i, invite, now, owns_add _ _ hown, hrow, hhouse, htoken, List.mem_append_left _ hclock, husable⟩

theorem lockInvite_lands :
    (homesProtocol env).Triple (fun tx _ => tx.writes.Blank) (lockInvite env token)
      fun found tx d => toUuid found.2.houseId = found.2.houseId ∧ tx.writes.Blank ∧
        InviteOf found.2.houseId found.1 d ∧ InviteTitle env token found.2.houseId tx d := by
  refine triple_exec passive_untouched.stable fun (tx : DbTx) d now found hblank hi hres => ?_
  dsimp only at hres ⊢
  rw [view_blank hblank] at hres ⊢
  cases hfind : d.invites.rows.find? fun x => x.2.tokenHash = env.hashToken token with
  | none =>
    rw [hfind] at hres
    cases hres
  | some x =>
    rw [hfind] at hres
    dsimp only at hres
    split at hres
    · next husable =>
      cases hres
      have hrow : d.invites.lookup x.1 = some x.2 := Table.mem_rows.mp (List.mem_of_find?_eq_some hfind)
      have htoken : x.2.tokenHash = env.hashToken token := by simpa using List.find?_some hfind
      refine ⟨(hi.2.1.invites x.1 x.2 hrow).2, blank_add hblank rfl, ⟨x.2, hrow, rfl⟩, x.1, x.2, _, ?_, hrow, rfl,
        htoken, List.mem_append_right _ (List.mem_singleton_self _), husable⟩
      exact Or.inr (List.mem_append_right _ (List.mem_singleton_self _))
    · cases hres

/-- The row of the user, when there is one. -/
theorem selectExisting_lands {P : DbTx → Db → Prop} (hP : (homesProtocol env).Passive Writes.Blank P) :
    (homesProtocol env).Triple (fun tx d => tx.writes.Blank ∧ P tx d) (selectExisting h u)
      fun existing tx d => (tx.writes.Blank ∧ P tx d) ∧ ((∃ m, existing = some m) → Dwells h d u) := by
  refine triple_exec_passive (passive_untouched.and hP) (fun _ => rfl)
    fun (tx : DbTx) d now existing hA _ hres => ?_
  intro hex
  obtain ⟨m, rfl⟩ := hex
  have hrow : (tx.view d now).db.houseMembers.lookup (h, u) = some m := Except.ok.inj hres
  rw [view_blank hA.1] at hrow
  exact ⟨m, hrow⟩

/-- The placeholder that is bound to the invite is one of its house. -/
theorem lockBound_lands {P : DbTx → Db → Prop} (hP : (homesProtocol env).Passive Writes.Blank P) :
    (homesProtocol env).Triple (fun tx d => tx.writes.Blank ∧ P tx d) (lockBound invite)
      fun _ tx d => (tx.writes.Blank ∧ P tx d) ∧
        ∀ p, invite.placeholderUserId = some p → d.IsPlaceholder invite.houseId p := by
  unfold lockBound
  cases hbound : invite.placeholderUserId with
  | none => exact triple_pure fun _ _ hA => ⟨hA, fun p hp => by cases hp⟩
  | some p =>
    refine triple_exec_passive (passive_untouched.and hP) (fun _ => rfl)
      fun (tx : DbTx) d now room hA _ hres => ?_
    dsimp only at hres
    rw [view_blank hA.1] at hres
    intro p' hp'
    cases hp'
    cases hfound : (d.houseMembers.lookup (invite.houseId, p)).filter HouseMember.isPlaceholder with
    | none =>
      rw [hfound] at hres
      cases hres
    | some m =>
      obtain ⟨hm, hguest⟩ := Option.filter_eq_some_iff.mp hfound
      exact ⟨m, hm, hguest⟩

/-- The user is a member afterwards. -/
theorem joinHouse_stays (hF : Along F) (hu : toUuid u = u) {roomId : Option Uuid} :
    (homesProtocol env).Triple (Staying env h F) (joinHouse h u roomId startedAt)
      fun _ => Staying env h fun D => F D ∧ Dwells h D u := by
  refine triple_staying hF fun v inserted _ hh _ _ => ?_
  dsimp only
  by_cases hconflict : (v.db.houseMembers.lookup (h, u)).isSome
  · rw [if_pos hconflict, LawfulStore.tick_zero]
    refine ⟨confined_nothing hh, ?_⟩
    obtain ⟨m, hm⟩ := Option.isSome_iff_exists.mp hconflict
    have hsame : Writes.apply {} v.db = v.db := LawfulStore.apply_nothing v.db
    rw [hsame]
    exact ⟨m, hm⟩
  · rw [if_neg hconflict, LawfulStore.tick_zero]
    have hfree : v.db.houseMembers.lookup (h, u) = none := by simpa using hconflict
    exact ⟨confined_join hh hu hfree, _, (Table.lookup_patch_singleton ..).trans (if_pos rfl)⟩

theorem becomeMember_stays (hF : Along F) (hu : toUuid u = u) {existing : Option HouseMember}
    {roomId : Option Uuid} (hex : (∃ m, existing = some m) → ∀ D, F D → Dwells invite.houseId D u) :
    (homesProtocol env).Triple (Staying env invite.houseId F) (becomeMember invite u existing roomId startedAt)
      fun _ => Staying env invite.houseId fun D => F D ∧ Dwells invite.houseId D u := by
  unfold becomeMember
  cases existing with
  | none =>
    refine triple_bind (joinHouse_stays hF hu) fun inserted => ?_
    split
    · exact triple_pure fun _ _ hA => hA
    · exact triple_pure fun _ _ hA => hA
  | some m =>
    have hdwells : ∀ D, F D → Dwells invite.houseId D u := hex ⟨m, rfl⟩
    dsimp only
    by_cases hleft : m.leftAt = none
    · rw [if_pos hleft]
      exact triple_pure fun _ _ hA => ⟨hA.1, hA.2, hdwells _ hA.2⟩
    · rw [if_neg hleft]
      refine triple_bind (B := fun _ => Staying env invite.houseId F) ?_ fun _ =>
        triple_pure fun _ _ hA => ⟨hA.1, hA.2, hdwells _ hA.2⟩
      apply moveMember_stays hF
      intro now m
      rfl

theorem claimBound_stays (hF : Along F) (hh : toUuid invite.houseId = invite.houseId) {roomId : Option Uuid}
    (hu : ∀ D, F D → Dwells invite.houseId D u) :
    (homesProtocol env).Triple (fun tx d => Staying env invite.houseId F tx d ∧
        ∀ p, invite.placeholderUserId = some p → d.IsPlaceholder invite.houseId p)
      (claimBound invite u roomId) fun _ => Staying env invite.houseId F := by
  unfold claimBound
  cases hbound : invite.placeholderUserId with
  | none => exact triple_pure fun _ _ hA => hA.1
  | some p =>
    refine triple_weaken (A := fun tx d => Staying env invite.houseId F tx d ∧ d.IsPlaceholder invite.houseId p)
      ?_ (fun _ _ hA => ⟨hA.1, hA.2 p rfl⟩) fun _ _ _ hB => hB
    have hroom : StaysIn env invite.houseId F (inheritRoom invite.houseId u roomId) := by
      unfold inheritRoom
      split
      · apply moveMember_stays hF
        intro now m
        rfl
      · exact staysIn_pure
    refine triple_bind (triple_carry (passive_guest fun _ => True)
      (triple_weaken hroom (fun _ _ hA => hA.1) fun _ _ _ hB => hB)) fun _ => ?_
    refine triple_bind (claimHistory_stays hF hh hu) fun events => ?_
    exact triple_bind (staysIn_log hF hh hh) fun _ => staysIn_pure

theorem consumeUse_stays (hF : Along F) (hi : ∀ D, F D → InviteOf h i D) : StaysIn env h F (consumeUse i) := by
  refine triple_staying_write hF fun v _ hD hh hf _ => ?_
  obtain ⟨row, hrow, hown⟩ := hi _ hf
  dsimp only
  rw [hrow]
  exact confined_invites hh (atHome_update hD.invites hrow hown rfl)

theorem acceptInvite_lands (hu : toUuid u = u) :
    (homesProtocol env).Triple (fun tx _ => tx.writes.Blank) (acceptInviteTx env token u startedAt)
      fun _ => Landed env (InviteTitle env token) := by
  refine triple_bind lockInvite_lands fun found tx d hA => ?_
  obtain ⟨i, invite⟩ := found
  obtain ⟨hh, hA⟩ := hA
  have h0 := @neutral_nothing env _ hh
  have hstart : (homesProtocol env).Passive Writes.Blank fun (tx : DbTx) d =>
      InviteOf invite.houseId i d ∧ InviteTitle env token invite.houseId tx d :=
    (passive_along (along_inviteOf invite.houseId i) _).and passive_inviteTitle
  refine triple_bind (selectExisting_lands hstart) (fun existing => ?_) tx d hA
  have hmember : Along fun D => (∃ m, existing = some m) → Dwells invite.houseId D u :=
    fun _ _ hhomes hd hex => (hd hex).stays hhomes
  have hknown := hstart.and (passive_along hmember Writes.Blank)
  split
  · exact triple_pure fun tx d hA => ⟨invite.houseId, (staying_blank (F := fun _ => True) hA.1.1 hh trivial).1,
      hA.1.2.2⟩
  refine triple_bind (triple_weaken (lockBound_lands hknown) (fun _ _ hA => ⟨hA.1.1, hA.1.2, hA.2⟩)
    fun _ _ _ hB => hB) fun room => ?_
  -- from here on the transaction writes
  have hF := (along_inviteOf invite.houseId i).and hmember
  have hguests : (homesProtocol env).Passive (fun _ => True) fun (_ : DbTx) d =>
      ∀ p, invite.placeholderUserId = some p → d.IsPlaceholder invite.houseId p :=
    .all fun p => ⟨fun tx d d' hr hi hp heq => (passive_guest fun _ => True).stable tx d d' hr hi (hp heq),
      fun _ _ _ _ hp => hp⟩
  have hinvite : (homesProtocol env).Passive (fun _ => True) (InviteTitle env token invite.houseId) :=
    passive_inviteTitle
  refine triple_weaken (triple_landed (F := fun D => InviteOf invite.houseId i D ∧
      ((∃ m, existing = some m) → Dwells invite.houseId D u)) (G := fun _ => True)
    (hguests.and hinvite) ?_ fun _ _ hs => hs.2)
    (fun tx d hA => ⟨staying_blank hA.1.1 hh ⟨hA.1.2.1.1, hA.1.2.2⟩, hA.2, hA.1.2.1.2⟩) fun _ _ _ hB => hB
  refine triple_weaken (A := fun tx d => Staying env invite.houseId (fun D => InviteOf invite.houseId i D ∧
      ((∃ m, existing = some m) → Dwells invite.houseId D u)) tx d ∧
      ∀ p, invite.placeholderUserId = some p → d.IsPlaceholder invite.houseId p) ?_
    (fun _ _ hA => ⟨hA.1, hA.2.1⟩) fun _ _ _ hB => hB
  refine triple_bind (triple_carry hguests (triple_weaken (becomeMember_stays hF hu fun hex D hf => hf.2 hex)
    (fun _ _ hA => hA.1) fun _ _ _ hB => hB)) fun member => ?_
  cases member with
  | none => exact triple_pure fun _ _ hA => ⟨hA.1.1, trivial⟩
  | some already =>
    have hG := hF.and (along_dwells invite.houseId u)
    refine triple_bind (claimBound_stays hG hh fun _ hf => hf.2) fun claimed =>
      triple_bind (consumeUse_stays hG fun _ hf => hf.1.1) fun _ =>
      triple_bind (staysIn_beside hG ?_) fun joined => triple_pure fun _ _ hA => ⟨hA.1, trivial⟩
    unfold logJoined
    split
    · exact trivial
    · refine only_logAll fun event hmem => neutral_event hh ?_
      rw [List.mem_singleton.mp hmem]
      exact hh

end invites

/-! ## Section 4: New houses and due bills -/

section worker

/-- The house is not there yet, and the transaction has made it. -/
def FounderTitle (h : Uuid) (tx : DbTx) (d : Db) : Prop := tx.Owns (.house h) ∧ d.houses.lookup h = none

theorem passive_founderTitle {q : Writes → Prop} : (homesProtocol env).Passive q (FounderTitle h) where
  stable := by
    intro tx d d' hr _ htitle
    have hr' : HomesRely tx d d' := hr
    have hsame : d'.houses.lookup h = d.houses.lookup h := hr'.frame _ htitle.1.holds
    exact ⟨htitle.1, hsame.trans htitle.2⟩
  step _ _ _ _ htitle := ⟨owns_add _ _ htitle.1, htitle.2⟩

theorem confined_house {house : House} (hh : toUuid h = h) (hid : Drawn env D.fresh h) :
    Confined env h { houses := [(h, some house)] } D :=
  { confined_nothing hh with
    houses := by
      intro id o hmem
      obtain ⟨rfl, -⟩ := Prod.mk.inj (List.mem_singleton.mp hmem)
      exact ⟨rfl, hid⟩
    expenseSplits := fun _ _ hmem => by cases hmem
    expenseRevisions := fun _ hmem => by cases hmem }

theorem createHouse_lands (hu : toUuid u = u) {input : CreateHouseInput} :
    (homesProtocol env).Triple (fun tx _ => tx.writes.Blank) (createHouseTx env u input startedAt)
      fun _ => Landed env FounderTitle := by
  refine triple_bind (B := fun id tx d => toUuid id = id ∧ Staying env id (fun _ => True) tx d ∧
    FounderTitle id tx d) ?_ fun id tx d hA => ?_
  · refine triple_exec passive_untouched.stable fun (tx : DbTx) d now id hblank hi hres => ?_
    cases hres
    rw [view_blank hblank]
    have hh : toUuid (env.uuid d.fresh) = env.uuid d.fresh := env.toUuid_uuid _
    refine ⟨hh, (staying_blank hblank hh trivial).add along_true hi.2.1 ?_, ?_, ?_⟩
    · exact confined_house hh ⟨d.fresh, Nat.lt_succ_self _, rfl⟩
    · apply Or.inl
      rw [Tx.add_writes, show tx.writes = {} from hblank]
      exact Writes.mem_written.mpr (List.mem_singleton_self _)
    · -- no house has the new id
      show d.houses.lookup (env.uuid d.fresh) = none
      rw [Option.eq_none_iff_forall_ne_some]
      intro house hhouse
      obtain ⟨n, hn, heq⟩ := hi.2.1.houses _ house hhouse
      have hsame := env.uuid_inj heq
      omega
  · obtain ⟨hh, hA⟩ := hA
    refine triple_landed (G := fun _ => True) passive_founderTitle (triple_weaken ?_ (fun _ _ hA => hA.1)
      fun _ _ _ hB => hB) (fun _ _ hs => hs) tx d hA
    refine triple_bind (insertMember_stays along_true fun _ _ => hu) fun _ => ?_
    exact triple_bind (staysIn_log along_true hh hh) fun _ => triple_pure fun _ _ hA => hA

variable {bill : DueBill}

theorem advanceBill_stays {b : Uuid} {nextRun : JsString} {matching : BillTemplate → Bool} :
    StaysIn env h (TemplateOf h b) (advanceBill b nextRun matching) := by
  refine triple_staying_write (along_templateOf h b) fun v _ hD hh hf _ => ?_
  obtain ⟨t₀, ht₀, hown⟩ := hf
  dsimp only
  split
  · next t ht =>
    have hlook : v.db.billTemplates.lookup b = some t := Option.eq_some_of_filter_eq_some ht
    rw [ht₀] at hlook
    cases hlook
    exact confined_template hh hD ⟨t₀, ht₀, hown⟩ hown
  · exact confined_nothing hh

theorem pauseTx_stays {reason : JsString} (hh : toUuid bill.template.houseId = bill.template.houseId) :
    StaysIn env bill.template.houseId (TemplateOf bill.template.houseId bill.id) (pauseTx bill reason) := by
  have hF := along_templateOf bill.template.houseId bill.id
  refine StaysIn.bind (triple_staying_write hF fun v _ hD _ hf _ => ?_) fun updated => ?_
  · obtain ⟨t₀, ht₀, hown⟩ := hf
    dsimp only
    split
    · next t ht =>
      have hlook : v.db.billTemplates.lookup bill.id = some t := Option.eq_some_of_filter_eq_some ht
      rw [ht₀] at hlook
      cases hlook
      exact confined_template hh hD ⟨t₀, ht₀, hown⟩ hown
    · exact confined_nothing hh
  · split
    · exact StaysIn.bind (staysIn_beside hF (Txn.only_exec fun _ => neutral_event hh hh)) fun _ => staysIn_pure
    · exact staysIn_pure

theorem postOneTx_stays {period advanced : JsString}
    (hh : toUuid bill.template.houseId = bill.template.houseId) :
    StaysIn env bill.template.houseId (TemplateOf bill.template.houseId bill.id)
      (postOneTx env bill period advanced) := by
  have h0 := @neutral_nothing env _ hh
  have hF := along_templateOf bill.template.houseId bill.id
  refine triple_bind (staysIn_beside hF (only_begin h0)) fun startedAt =>
    triple_bind (lockActiveMembers_peopled hF hh hh) fun members => ?_
  have hpeople := hF.and (along_peopled bill.template.houseId members)
  refine triple_bind (staysIn_beside hpeople only_reject) fun _ =>
    triple_bind (staysIn_beside hpeople only_reject) fun _ => ?_
  refine triple_bind (resolveSplits_shared hpeople hh hh fun ms hms D hf => ?_) fun splits => ?_
  · cases hms
    exact hf.2
  have hshared := hpeople.and (along_sharedIn bill.template.houseId splits)
  refine triple_bind (insertExpense_stays hshared hh hh fun _ hf => hf.2) fun r =>
    triple_bind (staysIn_beside hshared (Txn.only_exec fun _ => neutral_event hh hh)) fun _ => ?_
  refine triple_bind (triple_weaken advanceBill_stays (fun _ _ hA => ⟨hA.1, hA.2.1.1⟩) fun _ _ _ hB => hB)
    fun _ => triple_pure fun _ _ hA => hA

end worker

/-! ## Section 5: Calls -/

section calls

variable {c : Call}

/-- A transaction that lands in some house is allowed to write there. -/
theorem keeps_landed {S : Uuid → DbTx → Db → Prop}
    (hS : ∀ h, (homesProtocol env).Passive (fun _ => True) (S h))
    (hpermits : ∀ h tx d, S h tx d → (homesProtocol env).inv d → c.HasAccount d → Permits env tx d h c)
    {fn : Millis → DbTxn α}
    (hfn : ∀ startedAt, (homesProtocol env).Triple (fun tx _ => tx.writes.Blank) (fn startedAt)
      fun _ => Landed env S) : Keeps (homesProtocol env) c (begin >>= fn) := by
  intro next hnext seen d
  refine safe_of_triple (triple_bind (triple_begin passive_untouched.stable) hfn) rfl
    (fun _ => stable_landed fun h => (hS h).stable) (fun _ tx d hA hi _ haccount => ?_)
    (fun a _ _ _ _ => hnext (.ok a) _ _) fun err d => hnext (.error err) _ d
  obtain ⟨h, hconfined, hs⟩ := hA
  exact ⟨h, hconfined, hpermits h tx d hs hi haccount⟩

/-- From where the user is a member of the house, the program keeps to the
    protocol. -/
def MemberSafe (env : Env) (c : Call) (h u : Uuid) (prog : DbProg) : Prop :=
  ∀ seen d, Dwells h d u → (homesProtocol env).Safe c prog seen Tx.empty d

theorem memberSafe_closed : Closed (MemberSafe env c h u) where
  done _ _ _ _ := trivial
  query next hnext seen d hdwells d' now hr _ _ := by
    have hr' : HomesRely Tx.empty d d' := hr
    exact hnext _ _ _ (hdwells.stays hr'.homes)

theorem memberSafe_emitAll {hints : List Hint} {next : DbProg} (hnext : MemberSafe env c h u next) :
    MemberSafe env c h u (.emitAll hints next) := by
  induction hints with
  | nil => exact hnext
  | cons hint hints ih =>
    intro seen d hdwells d' hr _
    have hr' : HomesRely Tx.empty d d' := hr
    exact ih seen d' (hdwells.stays hr'.homes)

theorem memberSafe_bare {houseId : JsString} (hc : c.guard? = some (houseId, u)) (huser : c.user? = some u)
    {m : DbTxn α} (hm : StaysIn env (toUuid houseId) (fun _ => True) m) :
    PassesBare (MemberSafe env c (toUuid houseId) u) m := by
  intro next hnext seen d hdwells
  have hfact := @passive_along env _ (along_dwells (toUuid houseId) u) fun _ => True
  have hbody := triple_and hm (triple_passive hfact (Txn.only_true m))
  refine safe_of_triple_fact hfact hbody
    ⟨staying_blank rfl (toUuid_toUuid houseId) trivial, hdwells⟩ hdwells
    (fun _ => (stable_staying along_true).and hfact.stable) (fun _ tx d hA hi _ haccount => ?_)
    (fun a tx d hA hd _ => ?_) fun err d hd => hnext _ _ _ hd
  · have hactive := hA.2.active (haccount u huser) hi.1.people hi.2.2
    exact ⟨toUuid houseId, hA.1.1, .guarded c houseId u hc rfl hactive⟩
  · exact hnext _ _ _ (hd.stays hA.1.1.homes)

theorem memberSafe_passes {houseId : JsString} (hc : c.guard? = some (houseId, u)) (huser : c.user? = some u)
    {fn : Millis → DbTxn (α × List ActivityInput)}
    (hfn : ∀ startedAt, StaysIn env (toUuid houseId) (fun _ => True) (fn startedAt)) :
    Passes (MemberSafe env c (toUuid houseId) u) fn := by
  intro next hnext
  have h0 := @neutral_nothing env _ (toUuid_toUuid houseId)
  refine memberSafe_bare hc huser (StaysIn.bind (staysIn_beside along_true (only_begin h0)) hfn) _ fun r => ?_
  cases r with
  | ok r => exact memberSafe_emitAll (hnext _)
  | error err => exact hnext _

/-- Whoever gets past the guard is a member. -/
theorem guard_safe {houseId : JsString} {next : DbProg}
    (hnext : MemberSafe env c (toUuid houseId) u next) (seen d : Db) :
    (homesProtocol env).Safe c (houseMemberGuard houseId u next) seen Tx.empty d := by
  unfold houseMemberGuard
  split
  · intro d' now _ _ _
    dsimp only
    by_cases hactive : (activeMember ((Tx.empty : DbTx).view d' now).db (toUuid houseId) u).isSome
    · rw [if_pos hactive]
      refine hnext _ _ (dwells_of_active ?_)
      have hview : ((Tx.empty : DbTx).view d' now).db = d' := LawfulStore.apply_nothing d'
      rw [hview] at hactive
      exact Option.isSome_iff_ne_none.mp hactive
    · rw [if_neg hactive]
      trivial
  · trivial

/-- What lets a call start: the ids of users are spelled as the database
    spells them. -/
theorem canonical_user (hp : People env d) (haccount : hasAccount d u = true) : toUuid u = u := by
  obtain ⟨user, huser, -⟩ := hasAccount_iff.mp haccount
  obtain ⟨n, -, rfl⟩ := hp.ids u user huser
  exact env.toUuid_uuid n

/-- The bill of a scan is one of its house. -/
structure AtSite (bill : DueBill) (d : Db) : Prop where
  canonical : toUuid bill.template.houseId = bill.template.houseId
  template : TemplateOf bill.template.houseId bill.id d

theorem along_atSite (bill : DueBill) : Along (AtSite bill) :=
  fun d d' hh hb => ⟨hb.canonical, along_templateOf _ _ d d' hh hb.template⟩

/-- From where the bills of the scan are those of their houses, the program
    keeps to the protocol. -/
def RunSafe (env : Env) (bills : List DueBill) (prog : DbProg) : Prop :=
  ∀ now seen d, (∀ bill ∈ bills, AtSite bill d) →
    (homesProtocol env).Safe (.postDueBills now) prog seen Tx.empty d

theorem runSafe_bare {bills : List DueBill} {bill : DueBill} (hbill : bill ∈ bills) {m : DbTxn α}
    (hm : toUuid bill.template.houseId = bill.template.houseId →
      StaysIn env bill.template.houseId (TemplateOf bill.template.houseId bill.id) m) :
    PassesBare (RunSafe env bills) m := by
  intro next hnext now seen d hbills
  have hall : Along fun d => ∀ bill ∈ bills, AtSite bill d := along_all along_atSite
  have hfact := @passive_along env _ hall fun _ => True
  obtain ⟨hh, htemplate⟩ := hbills bill hbill
  refine safe_of_triple_fact hfact (triple_and (hm hh) (triple_passive hfact (Txn.only_true m)))
    ⟨staying_blank rfl hh htemplate, hbills⟩ hbills
    (fun _ => (stable_staying (along_templateOf _ _)).and hfact.stable) (fun _ tx d hA _ _ _ => ?_)
    (fun a tx d hA hd _ => ?_) fun err d hd => hnext _ now _ _ hd
  · obtain ⟨t, ht, hown⟩ := (hA.2 bill hbill).template
    exact ⟨bill.template.houseId, hA.1.1, .works now bill.id t ht hown⟩
  · exact hnext _ now _ _ (hall _ _ hA.1.1.homes hd)

theorem postDueBills_homes (now : Millis) :
    Always (homesProtocol env) (.postDueBills now) (postDueBills env now) := by
  intro seen d
  unfold postDueBills
  split
  · trivial
  · next latest _ =>
    intro d' now' hr hi _
    have hscan : ∀ bill ∈ dueBills d' latest, AtSite bill d' := by
      intro bill hbill
      have hrow := scanned_template hbill
      exact ⟨(hi.2.1.billTemplates _ _ hrow).2, bill.template, hrow, rfl⟩
    have hrun : RunSafe env (dueBills d' latest) (postBills env now (dueBills d' latest) {}) := by
      refine passes_postBills (fun _ _ _ _ _ => trivial) fun bill hbill => (billRules_of_keeps
        (fun _ _ _ _ _ => trivial) ?_ ?_ ?_ ?_).due
      · intro hint next hnext now seen d hb d' hr _
        have hr' : HomesRely Tx.empty d d' := hr
        exact hnext now _ _ (along_all along_atSite d d' hr'.homes hb)
      · exact fun _ _ => runSafe_bare hbill postOneTx_stays
      · exact fun _ _ => runSafe_bare hbill fun _ => advanceBill_stays
      · exact fun _ => runSafe_bare hbill pauseTx_stays
    exact hrun now _ _ hscan

/-- The transactions behind the guard stay in its house. -/
theorem handles_guarded {houseId : JsString} (hc : c.guard? = some (houseId, u)) :
    Handles (MemberSafe env c (toUuid houseId) u) env c := by
  cases c <;> cases hc
  case createPlaceholder name => exact memberSafe_passes rfl rfl fun _ => createPlaceholder_stays
  case setDisplayName name => exact memberSafe_passes rfl rfl fun _ => setDisplayName_stays
  case setRooms rooms => exact memberSafe_passes rfl rfl fun _ => setRooms_stays
  case createInvite p => exact fun expiresAt => memberSafe_bare rfl rfl createInvite_stays
  case createExpense key input => exact memberSafe_passes rfl rfl fun _ => createExpense_stays
  case recordPayment key input => exact memberSafe_passes rfl rfl fun _ => recordPayment_stays
  case createBill key input => exact memberSafe_passes rfl rfl fun _ => createBill_stays
  case setActive b active => exact memberSafe_passes rfl rfl fun _ => setActive_stays

theorem guarded_safe {houseId : JsString} (hc : c.guard? = some (houseId, u)) :
    Always (homesProtocol env) c (route env c) := by
  have hclosed : Closed (MemberSafe env c (toUuid houseId) u) := memberSafe_closed
  obtain ⟨next, heq, hnext⟩ := hclosed.guarded (handles_guarded hc) hc
  intro seen d
  rw [heq]
  exact guard_safe hnext seen d

theorem homes_safe (hu : ∀ u, c.user? = some u → toUuid u = u) : Always (homesProtocol env) c (route env c) := by
  have hpost : ∀ r d, (homesProtocol env).post c r d := fun _ _ => trivial
  cases c with
  | signUp email name => exact fun seen d => safe_trivial (fun _ _ _ hno => by cases hno) hpost _ _ _ _
  | createHouse u input =>
    refine always_route hpost (keeps_landed (fun _ => passive_founderTitle) (fun h tx d hs _ _ => ?_)
      fun _ => createHouse_lands (hu u rfl))
    exact .founds u input hs.2
  | acceptInvite token u =>
    refine always_route hpost (keeps_landed (fun _ => passive_inviteTitle) (fun h tx d hs _ _ => ?_)
      fun _ => acceptInvite_lands (hu u rfl))
    obtain ⟨i, invite, now, -, hrow, hhouse, htoken, hclock, husable⟩ := hs
    exact .invited token u i invite now hrow hhouse htoken hclock husable
  | editExpense e u key input =>
    refine always_route hpost (keeps_landed (fun _ => passive_expenseTitle) (fun h tx d hs hi haccount => ?_)
      fun _ => editExpense_lands)
    exact .edits e u key input hs.1 (hs.2.active (haccount u rfl) hi.1.people hi.2.2)
  | disputePayment p u =>
    refine always_route hpost (keeps_landed (fun _ => passive_paymentTitle) (fun h tx d hs hi haccount => ?_)
      fun _ => disputePayment_lands)
    obtain ⟨⟨row, hrow, hown⟩, hdwells⟩ := hs
    exact .disputes p u row hrow hown (hdwells.active (haccount u rfl) hi.1.people hi.2.2)
  | resolvePayment p u =>
    refine always_route hpost (keeps_landed (fun _ => passive_paymentTitle) (fun h tx d hs hi haccount => ?_)
      fun _ => resolvePayment_lands)
    obtain ⟨⟨row, hrow, hown⟩, hdwells⟩ := hs
    exact .resolves p u row hrow hown (hdwells.active (haccount u rfl) hi.1.people hi.2.2)
  | postDueBills now => exact postDueBills_homes now
  | _ => exact guarded_safe rfl

end calls

/-! ## Section 6: Runs -/

section runs

variable {c : HomiCommit}

/-- Writes to users alone stay with the rows of any house. -/
theorem confined_elsewhere (hw : w.Within [.users] []) (hh : toUuid h = h) : Confined env h w d := by
  have hspares : ∀ t, t ≠ .users → w.Spares t := fun t ht => hw.tables t (by simpa using ht)
  have hevents : w.activityEvents = [] := List.eq_nil_iff_forall_not_mem.mpr fun ev hev => by
    simpa using hw.events ev hev
  have hsame : w = { users := w.users } := by
    cases w
    simp_all [Writes.Spares]
    exact ⟨hspares .houses (by decide), hspares .rooms (by decide), hspares .houseMembers (by decide),
      hspares .invites (by decide), hspares .expenses (by decide), hspares .expenseSplits (by decide),
      hspares .expenseRevisions (by decide), hspares .billTemplates (by decide), hspares .payments (by decide),
      hspares .idempotencyKeys (by decide)⟩
  rw [hsame]
  exact neutral_users hh _ d

/-- Every commit stays with the rows of one house. -/
theorem Known.confined (hk : Known env c) (hguar : (homesProtocol env).guar c.call c.seen c.tx c.before) :
    ∃ h, Confined env h c.tx.writes c.before := by
  by_cases hup : c.call.signsUp = true
  · refine ⟨toUuid [], confined_elsewhere ?_ (toUuid_toUuid [])⟩
    have hwithin := hk.within
    cases hcall : c.call with
    | signUp email name =>
      rw [hcall] at hwithin
      exact hwithin
    | _ =>
      rw [hcall] at hup
      cases hup
  · obtain ⟨h, hconfined, -⟩ := hguar (Bool.not_eq_true _ ▸ hup) hk.account
    exact ⟨h, hconfined⟩

theorem housing_empty (env : Env) : Housing env Db.empty := by
  refine ⟨?_, ?_, ?_, ?_, ?_, ?_, ?_, ?_, ?_⟩ <;> simp [Db.empty, Db.split, Sited]

theorem homes_lawful : (homesProtocol env).Lawful (homi env) (Known env) fun _ _ => True where
  rely_refl tx d := ⟨Persist.refl d, Homes.refl d, Frame.refl tx d, le_refl _⟩
  rely_trans _ _ _ _ hr hr' := HomesRely.trans hr hr'
  rely_tick tx n d _ := ⟨(LedgerRely.tick tx n d : LedgerRely False False _ _ _).toPersist,
    Homes.tick n d, Frame.tick tx n d, Nat.le_add_right _ _⟩
  inv_tick n d hi := ⟨hi.1.tick n, hi.2.1.tick n, hi.2.2⟩
  inv_init := ⟨ledgerBase_empty env, housing_empty env, fun k m hm => by simp [homi, Db.empty] at hm⟩
  inv_commit c hk hi hguar _ := by
    obtain ⟨h, hconfined⟩ := hk.confined hguar
    exact ⟨hk.after, hconfined.housing hi.2.1, hi.2.2.after hk⟩
  rely_commit c tx hk _ hguar hheld' hheld hcompat _ := by
    obtain ⟨h, hconfined⟩ := hk.confined hguar
    exact ⟨hk.step.toPersist, hconfined.homes, Frame.commit hcompat hheld hheld', le_refl _⟩
  apart_empty _ := trivial
  start c d hi hadm := by
    refine homes_safe (fun u hu => canonical_user hi.1.people ?_) d d
    have hall : c.user?.all (hasAccount d) = true := hadm
    rw [hu] at hall
    exact hall
  killed _ _ _ _ := trivial

theorem homes_hold {s : HomiState} (hs : HomiReachable env s) : (homesProtocol env).Holds s :=
  holds_of_known homes_lawful (fun _ _ _ _ _ => trivial) (fun _ _ => trivial) hs

/-- In every reachable database the rows are in their houses. -/
theorem housing_reachable {s : HomiState} (hs : HomiReachable env s) : Housing env s.db :=
  (homes_hold hs).inv.2.1

/-- All rows of the house `h` are the same in both databases. -/
structure HouseUnchanged (h : Uuid) (d d' : Db) : Prop where
  house : d'.houses.lookup h = d.houses.lookup h
  houseMembers : ∀ u, d'.houseMembers.lookup (h, u) = d.houseMembers.lookup (h, u)
  rooms : Table.SameOf Room.houseId h d.rooms d'.rooms
  invites : Table.SameOf Invite.houseId h d.invites d'.invites
  expenses : Table.SameOf Expense.houseId h d.expenses d'.expenses
  expenseSplits : ∀ rid s, d'.split rid = some s ∧ Belongs h d' s.expenseId ↔
    d.split rid = some s ∧ Belongs h d s.expenseId
  expenseRevisions : d'.expenseRevisions.filter (fun r =>
      (d'.expenses.lookup r.expenseId).any fun row => row.houseId = h) =
    d.expenseRevisions.filter fun r => (d.expenses.lookup r.expenseId).any fun row => row.houseId = h
  billTemplates : Table.SameOf BillTemplate.houseId h d.billTemplates d'.billTemplates
  payments : Table.SameOf Payment.houseId h d.payments d'.payments
  activityEvents : d'.activityEvents.filter (fun ev => ev.houseId = h) =
    d.activityEvents.filter fun ev => ev.houseId = h

/-- The expenses of another house. -/
theorem Confined.belongs_other (hc : Confined env h w d) (hk : k ≠ h) :
    Belongs k (w.apply d) e ↔ Belongs k d e := by
  have hothers := hc.expenses.own.others hk
  constructor
  · intro hb
    obtain ⟨row, hrow, hown⟩ := hb
    exact ⟨row, (hothers e row hown).mp hrow, hown⟩
  · intro hb
    obtain ⟨row, hrow, hown⟩ := hb
    exact ⟨row, (hothers e row hown).mpr hrow, hown⟩

theorem Confined.splits_other (hc : Confined env h w d) (hk : k ≠ h) {rid : Rid} {s : Split} :
    (w.apply d).split rid = some s ∧ Belongs k (w.apply d) s.expenseId ↔
      d.split rid = some s ∧ Belongs k d s.expenseId := by
  rw [hc.belongs_other hk]
  constructor
  · intro hs
    obtain ⟨hs, hb⟩ := hs
    refine ⟨?_, hb⟩
    rcases split_apply_cases hs with ⟨hold, -⟩ | hnew
    · exact hold
    · -- a written split is one of `h`
      have hlives := (hc.expenseSplits rid _ hnew).2.1 s rfl
      exact absurd (((hc.belongs_other hk).mpr hb).unique hlives.1) hk
  · intro hs
    obtain ⟨hs, hb⟩ := hs
    refine ⟨?_, hb⟩
    rw [split_apply_of_notMem, hs]
    intro hmem
    obtain ⟨⟨_, o⟩, hedit, rfl⟩ := List.mem_map.mp hmem
    exact absurd (hb.unique ((hc.expenseSplits _ o hedit).2.2 s hs)) hk

/-- Nothing happens to the other houses. -/
theorem Confined.others (hc : Confined env h w d) (hk : k ≠ h) : HouseUnchanged k d (w.apply d) where
  house := by
    refine Table.lookup_patch_of_notMem fun hmem => ?_
    obtain ⟨⟨_, o⟩, hedit, rfl⟩ := List.mem_map.mp hmem
    exact hk (hc.houses _ o hedit).1
  houseMembers u := by
    refine Table.lookup_patch_of_notMem fun hmem => ?_
    obtain ⟨⟨⟨k', u'⟩, o⟩, hedit, heq⟩ := List.mem_map.mp hmem
    obtain ⟨rfl, rfl⟩ := Prod.mk.inj heq
    exact hk (hc.houseMembers _ o hedit).1
  rooms := hc.rooms.others hk
  invites := hc.invites.own.others hk
  expenses := hc.expenses.own.others hk
  expenseSplits _ _ := hc.splits_other hk
  expenseRevisions := by
    have hothers := hc.expenses.own.others hk
    show (d.expenseRevisions ++ w.expenseRevisions).filter _ = _
    rw [List.filter_append]
    have hnew : (w.expenseRevisions.filter fun r =>
        ((w.apply d).expenses.lookup r.expenseId).any fun row => row.houseId = k) = [] := by
      rw [List.filter_eq_nil_iff]
      intro r hr hany
      obtain ⟨row, hrow, hown⟩ := (Option.any_eq_true _ _).mp hany
      exact hk (Belongs.unique ⟨row, hrow, of_decide_eq_true hown⟩ (hc.expenseRevisions r hr))
    rw [hnew, List.append_nil]
    exact List.filter_congr fun r _ => hothers.any r.expenseId
  billTemplates := hc.billTemplates.own.others hk
  payments := hc.payments.own.others hk
  activityEvents := by
    show (d.activityEvents ++ w.activityEvents).filter _ = _
    rw [List.filter_append]
    have hnew : (w.activityEvents.filter fun ev => ev.houseId = k) = [] := by
      rw [List.filter_eq_nil_iff]
      intro ev hev heq
      exact hk ((of_decide_eq_true heq).symm.trans (hc.activityEvents ev hev))
    rw [hnew, List.append_nil]

end runs

end Homi
