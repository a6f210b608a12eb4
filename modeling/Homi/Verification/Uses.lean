import Homi.Verification.Hints
import Homi.Verification.Invites
import Homi.Verification.LedgerRuns

/-! # Uses of invites

  The uses of an invite are the accepts that were committed through it,
  less those that found their user a member and did nothing.
-/

namespace Homi

open ReadCommitted Protocol

variable {env : Env} {c : Call}

/-! ## Section 1: What an accept answers -/

/-- An accept that answers has made one commit. It reports that the user was
    a member already if and only if it reported nobody as joined, and then
    without a claim it wrote nothing. -/
structure AnswersFor (already : Bool) (placeholder : Option Uuid) (w : Writes) : Prop where
  nothing : already = true → placeholder = none → w = {}
  joins : w.joins = [] ↔ already = true

def acceptSpec (c : Call) : OutputSpec Writes LockKey Note Hint Reply where
  ok _ := True
  rest _ := True
  post out r := c.isAccept = true → ∀ h already placeholder, r = .success (.joined h already placeholder) →
    ∃ tx : DbTx, (∀ tx', .commit tx' ∈ out ↔ tx' = tx) ∧ AnswersFor already placeholder tx.writes

def Writes.Unjoined (w : Writes) : Prop := w.joins = []

def Writes.Nothing (w : Writes) : Prop := w = {}

theorem unjoined_nothing : Writes.Unjoined {} := rfl

theorem nothing_nothing : Writes.Nothing {} := rfl

theorem unjoined_event {e : ActivityEvent} (he : e.type ≠ .memberJoined) :
    Writes.Unjoined { activityEvents := [e] } := by simp [Writes.Unjoined, Writes.joins, he]

theorem passive_unjoined : freeDb.Passive Writes.Unjoined fun tx _ => tx.writes.joins = [] :=
  passive_writes (p := fun w : Writes => w.joins = []) fun w w' hw hw' => by
    rw [Writes.append_eq, Writes.joins_append, hw, show w'.joins = [] from hw', List.append_nil]

theorem passive_unwritten : freeDb.Passive Writes.Nothing fun tx _ => tx.writes = {} :=
  passive_writes (p := fun w : Writes => w = {}) fun w w' hw hw' => by
    rw [hw, show w' = {} from hw']
    rfl

theorem triple_becomeMember_free {invite : Invite} {u : Uuid} {existing : Option HouseMember}
    {roomId : Option Uuid} {startedAt : Millis}
    (hnoop : ¬ (existing.any (fun m => m.leftAt = none) ∧ invite.placeholderUserId = none)) :
    freeDb.Triple (fun tx _ => tx.writes = {}) (becomeMember invite u existing roomId startedAt)
      fun member tx _ => tx.writes.joins = [] ∧ (member = none → tx.writes = {}) ∧
        (member = some true → invite.placeholderUserId ≠ none) := by
  unfold becomeMember
  split
  · refine triple_bind (B := fun inserted tx _ => tx.writes.joins = [] ∧ (inserted = false → tx.writes = {}))
      ?_ fun inserted => ?_
    · refine triple_exec (stable_const _) fun tx d now inserted hA _ hres => ?_
      dsimp only at hres ⊢
      split at hres
      · next hconflict =>
        rw [if_pos hconflict, Tx.add_writes, hA]
        exact ⟨rfl, fun _ => rfl⟩
      · next hconflict =>
        split at hres
        · cases hres
          rw [if_neg hconflict, Tx.add_writes, hA]
          exact ⟨rfl, fun h => by cases h⟩
        · cases hres
    · cases inserted with
      | true => exact triple_pure fun tx d hA => ⟨hA.1, fun h => (by cases h), fun h => (by cases h)⟩
      | false =>
        refine triple_pure fun tx d hA => ⟨hA.1, fun _ => hA.2 rfl, fun h => ?_⟩
        split at h
        · cases h
        · next hne => exact hne
  · next m =>
    split
    · next hl =>
      refine triple_pure fun tx d hA => ⟨by rw [hA]; rfl, fun h => (by cases h), fun _ hplain => hnoop ⟨?_, hplain⟩⟩
      simpa using hl
    · refine triple_bind (B := fun _ tx _ => tx.writes.joins = []) ?_ fun _ =>
        triple_pure fun tx d hA => ⟨hA, fun h => (by cases h), fun h => (by cases h)⟩
      exact triple_weaken (triple_passive passive_unjoined (only_moveMember unjoined_nothing fun _ => rfl))
        (fun tx d hA => by rw [hA]; rfl) fun _ _ _ hB => hB

theorem triple_finishAccept_free {id : Uuid} {invite : Invite} {u : Uuid} {roomId : Option Uuid}
    {already : Bool} (hplain : already = true → invite.placeholderUserId ≠ none) :
    freeDb.Triple (fun tx _ => tx.writes.joins = []) (finishAccept id invite u roomId already)
      fun r tx _ => AnswersFor r.1.alreadyMember r.1.claimedPlaceholderId tx.writes := by
  have hclaim : (claimBound invite u roomId).Only Writes.Unjoined := by
    unfold claimBound
    split
    · exact Txn.only_bind (only_inheritRoom unjoined_nothing fun _ => rfl) fun _ =>
        Txn.only_bind (only_claimHistory_row unjoined_nothing (fun _ => rfl) (fun _ => rfl)
          (fun e he => unjoined_event (by rw [he]; decide)) (fun _ _ => rfl) fun _ => rfl) fun _ =>
        Txn.only_bind (only_log (unjoined_event fun h => by cases h)) fun _ => trivial
    · trivial
  refine triple_bind (triple_passive passive_unjoined hclaim) fun claimed =>
    triple_bind (triple_passive passive_unjoined (only_consumeUse fun _ => rfl)) fun _ => ?_
  cases already with
  | true =>
    refine triple_bind (triple_pure fun _ _ hA => hA) fun joined => triple_pure fun tx d hA => ⟨?_, by simpa using hA⟩
    exact fun _ hnone => absurd hnone (hplain rfl)
  | false =>
    refine triple_bind (B := fun _ tx _ => tx.writes.joins = [joinedEvent invite.houseId u])
      (triple_bind (B := fun _ tx _ => tx.writes.joins = [joinedEvent invite.houseId u]) ?_ fun _ =>
        triple_pure fun _ _ hA => hA) fun joined => triple_pure fun tx d hA => ⟨fun h => (by cases h), ?_⟩
    · refine triple_exec (stable_const _) fun tx d now r hA _ _ => ?_
      rw [Tx.add_writes, Writes.append_eq, Writes.joins_append, hA]
      rfl
    · rw [hA]
      exact ⟨fun h => (by cases h), fun h => (by cases h)⟩

theorem acceptInvite_answers {token : JsString} {u : Uuid} {startedAt : Millis} :
    freeDb.Triple (fun tx _ => tx.writes = {}) (acceptInviteTx env token u startedAt)
      fun r tx _ => AnswersFor r.1.alreadyMember r.1.claimedPlaceholderId tx.writes := by
  have hnothing : ∀ tx : DbTx, tx.writes = {} → AnswersFor true none tx.writes := fun tx h =>
    ⟨fun _ _ => h, by rw [h]; exact ⟨fun _ => rfl, fun _ => rfl⟩⟩
  refine triple_bind (triple_passive passive_unwritten (only_lockInvite nothing_nothing))
    fun found => triple_bind (triple_passive passive_unwritten
      (only_selectExisting nothing_nothing)) fun existing => ?_
  split
  · exact triple_pure fun tx d hA => hnothing tx hA
  · next hnoop =>
    refine triple_bind (triple_passive passive_unwritten (only_lockBound nothing_nothing))
      fun roomId => triple_bind (triple_becomeMember_free hnoop) fun member => ?_
    split
    · exact triple_pure fun tx d hA => hnothing tx (hA.2.1 rfl)
    · next already =>
      intro tx d hA
      exact triple_finishAccept_free (fun htrue => hA.2.2 (by rw [htrue])) tx d hA.1

theorem acceptSpec_route (c : Call) : (route env c).Tells (acceptSpec c) Tx.empty [] := by
  cases c with
  | acceptInvite token u =>
    rw [route, acceptInvite]
    refine Prog.tells_transact Db.empty (B := fun r tx =>
      AnswersFor r.1.alreadyMember r.1.claimedPlaceholderId tx.writes) ?_ trivial (fun r tx hA => ⟨trivial, ?_⟩)
      fun e _ h already placeholder hr => by cases hr
    · exact triple_weaken (triple_bind (triple_passive passive_unwritten (only_begin nothing_nothing)) fun _ => acceptInvite_answers) (fun tx d hA => by rw [hA]; rfl)
        fun _ _ _ hB => hB
    · refine Prog.tells_emitAll (fun _ => trivial) fun sent _ h already placeholder hr => ?_
      cases hr
      exact ⟨tx, fun tx' => by simp, hA⟩
  | _ => exact Prog.tells_trivial (fun _ => trivial) (fun _ => trivial) (fun _ _ h => by cases h) _ _ _

/-! ## Section 2: Counting -/

/-- The write set is empty. -/
def Writes.isNothing (w : Writes) : Bool :=
  w.written.isEmpty && w.expenseRevisions.isEmpty && w.activityEvents.isEmpty

/-- The commit is that of an accept through the invite `i`. -/
def acceptsThrough (env : Env) (i : Uuid) (c : HomiCommit) : Bool :=
  match c.call with
  | .acceptInvite token _ => (c.before.invites.lookup i).any fun r => r.tokenHash = env.hashToken token
  | _ => false

/-- The plain accept of a user who is an active member already, which
    changed nothing. -/
def isNoop (i : Uuid) (c : HomiCommit) : Bool :=
  match c.call with
  | .acceptInvite _ u => ((c.before.invites.lookup i).any fun r =>
      r.placeholderUserId = none && (activeMember c.before r.houseId u).isSome) && c.tx.writes.isNothing
  | _ => false

/-- The committed accepts through `i`, less the no-ops. -/
def acceptsOf (env : Env) (i : Uuid) (wal : List HomiCommit) : List HomiCommit :=
  wal.filter fun c => acceptsThrough env i c && !isNoop i c

/-- The uses of an invite, none if there is none. -/
def usesAt (d : Db) (i : Uuid) : ℕ := (d.invites.lookup i).elim 0 Invite.uses

/-- Every invite has been used as often as accepts of it were committed. -/
structure Counts (env : Env) (d₀ : Db) (wal : List HomiCommit) (d : Db) : Prop where
  absent : ∀ i, d.invites.lookup i = none → usesAt d₀ i + (acceptsOf env i wal).length = 0
  uses : ∀ i r, d.invites.lookup i = some r → r.uses = usesAt d₀ i + (acceptsOf env i wal).length

section counts

variable {d₀ : Db} {wal : List HomiCommit} {c : HomiCommit} {i : Uuid}

theorem acceptsOf_append_one : acceptsOf env i (wal ++ [c]) =
    acceptsOf env i wal ++ if acceptsThrough env i c && !isNoop i c then [c] else [] := by
  simp [acceptsOf, List.filter_singleton]

theorem acceptsThrough_iff {token : JsString} {u : Uuid} (hcall : c.call = .acceptInvite token u) :
    acceptsThrough env i c = true ↔ ∃ r, FoundBy env token c.before i r := by
  rw [acceptsThrough, hcall]
  simp [Option.any_eq_true, FoundBy]

theorem not_acceptsThrough (h : c.call.isAccept = false) : acceptsThrough env i c = false := by
  cases hc : c.call with
  | acceptInvite token u => rw [hc] at h; cases h
  | _ => rw [acceptsThrough, hc]

/-- The commit of an accept counts for no other invite. -/
theorem acceptsThrough_other {token : JsString} {u j : Uuid} {r : Invite}
    (hcall : c.call = .acceptInvite token u) (hb : InvitesBase env c.before)
    (hfound : FoundBy env token c.before j r) (hne : j ≠ i) : acceptsThrough env i c = false := by
  rw [← Bool.not_eq_true, acceptsThrough_iff hcall]
  rintro ⟨q, hq⟩
  exact hne (hb.found_unique hfound hq).1

theorem Counts.commit {apart : Prop} (h : Counts env d₀ wal c.before) (hb : InvitesBase env c.before)
    (hc : InviteCommit env apart c) : Counts env d₀ (wal ++ [c]) c.after := by
  -- an invite that the commit leaves alone, and that it does not count for
  have hkept : ∀ i, (acceptsThrough env i c && !isNoop i c) = false →
      (acceptsOf env i (wal ++ [c])).length = (acceptsOf env i wal).length := by
    intro i hi
    rw [acceptsOf_append_one, hi]
    simp
  have haside : (∀ i, (acceptsThrough env i c && !isNoop i c) = false) → c.tx.writes.invites = [] →
      Counts env d₀ (wal ++ [c]) c.after := by
    intro hnone hinvites
    refine ⟨fun i hi => ?_, fun i r hr => ?_⟩
    · rw [hkept i (hnone i)]
      exact h.absent i (by rw [← after_no_invite hinvites]; exact hi)
    · rw [hkept i (hnone i)]
      exact h.uses i r (by rw [← after_no_invite hinvites]; exact hr)
  cases hc with
  | aside haccept hinvites _ => exact haside (fun i => by rw [not_acceptsThrough haccept]; rfl) hinvites
  | created haccept j q hadd _ =>
    have hnone : ∀ i, (acceptsThrough env i c && !isNoop i c) = false :=
      fun i => by rw [not_acceptsThrough haccept]; rfl
    refine ⟨fun i hi => ?_, fun i r hr => ?_⟩
    · rw [hkept i (hnone i)]
      rw [after_one_invite hadd.invites] at hi
      split at hi
      · cases hi
      · exact h.absent i hi
    · rw [hkept i (hnone i)]
      rw [after_one_invite hadd.invites] at hr
      split at hr
      · next heq =>
        subst heq
        cases hr
        rw [hadd.unused, h.absent j hadd.free]
      · exact h.uses i r hr
  | accepted token u hcall hg =>
    cases hg with
    | noop j invite hfound hplain here hwrites =>
      -- an accept that changes nothing is not counted
      refine haside (fun i => ?_) (by rw [hwrites])
      by_cases hij : j = i
      · subst hij
        have hnoop : isNoop j c = true := by
          rw [isNoop, hcall]
          simp only [hfound.1, Option.any_some, hplain, decide_true, Bool.true_and, Bool.and_eq_true]
          exact ⟨here.active, by rw [hwrites]; rfl⟩
        rw [hnoop]
        simp
      · rw [acceptsThrough_other hcall hb hfound hij]
        rfl
    | used j invite already hfound hopen hinvites _ _ _ =>
      -- it writes its invite, so it is counted for that invite and no other
      have hcounted : isNoop j c = false := by
        have hwritten : c.tx.writes.isNothing = false := by
          have hmem : LockKey.invite j ∈ c.tx.writes.written :=
            Writes.mem_written.mpr (by rw [hinvites]; exact List.mem_singleton_self _)
          cases hw : c.tx.writes.written with
          | nil => rw [hw] at hmem; cases hmem
          | cons k ks => simp [Writes.isNothing, hw]
        rw [isNoop, hcall]
        simp [hwritten]
      refine ⟨fun i hi => ?_, fun i r hr => ?_⟩
      · rw [after_one_invite hinvites] at hi
        split at hi
        · cases hi
        · next hne =>
          rw [hkept i (by rw [acceptsThrough_other hcall hb hfound hne]; rfl)]
          exact h.absent i hi
      · rw [after_one_invite hinvites] at hr
        split at hr
        · next heq =>
          subst heq
          cases hr
          rw [acceptsOf_append_one, (acceptsThrough_iff hcall).mpr ⟨_, hfound⟩, hcounted]
          have hold := h.uses j invite hfound.1
          simp only [Bool.not_false, Bool.and_self, if_true, List.length_append, List.length_singleton]
          omega
        · next hne =>
          rw [hkept i (by rw [acceptsThrough_other hcall hb hfound hne]; rfl)]
          exact h.uses i r hr

end counts

theorem counts_run {d₀ : Db} (hd : LedgerBase env d₀) (hi : InvitesBase env d₀) {s : HomiState}
    (h : Reachable (homiFrom env d₀) s) : Counts env d₀ s.wal s.db := by
  induction h with
  | init =>
    refine ⟨fun i hnone => ?_, fun i r hr => ?_⟩
    · simp [usesAt, show d₀.invites.lookup i = none from hnone, acceptsOf, System.initial]
    · simp [usesAt, show d₀.invites.lookup i = some r from hr, acceptsOf, System.initial]
  | @step s s' a hs _ hstep ih =>
    have hs' : Reachable (homiFrom env d₀) s' := .step a hs trivial hstep
    cases moves_of_step hstep with
    | start c hadm => exact ih
    | query p now pr next hp hprog => exact ih
    | stmt p now pr act next hp hprog hfree => exact ⟨ih.absent, ih.uses⟩
    | emit p now pr hint next hp hprog => exact ih
    | kill p pr hp hrun => exact ih
    | commit p now pr next hp hprog =>
      have hcommit := inviteCommit_from False hd hi hs' False.elim _
        (List.mem_append_right _ (List.mem_singleton_self _))
      exact Counts.commit (c := ⟨p, pr.call, pr.seen, pr.tx, s.db⟩) ih
        (invites_from False hd hi hs False.elim).inv.2 hcommit

/-! ## Section 3: The result -/

/-- The accounts of the invites in a run that started on `d₀`.

    * `bounded`, `counted`: an invite is not used more often than allowed,
      and as often as accepts of it were committed that are no no-ops.
    * `unchanged`: a plain accept that reports that its user was a member
      already has changed nothing.
    * `rejected`: an accept that ends with an error has committed nothing. -/
structure UsesCounted (env : Env) (d₀ : Db) (s : HomiState) : Prop where
  bounded : ∀ i r, s.db.invites.lookup i = some r → r.uses ≤ r.maxUses
  counted : ∀ i r, s.db.invites.lookup i = some r →
    r.uses = usesAt d₀ i + (acceptsOf env i s.wal).length
  unchanged : ∀ (p : ℕ) (pr : Proc Db Writes LockKey Note Hint Reply Call), s.procs[p]? = some pr →
    pr.call.isAccept = true → ∀ h, pr.prog = .done (.success (.joined h true none)) →
      ∀ c ∈ s.wal, c.pid = p → c.tx.writes = {} ∧ c.after = c.before
  rejected : ∀ (p : ℕ) (pr : Proc Db Writes LockKey Note Hint Reply Call), s.procs[p]? = some pr →
    pr.call.isAccept = true → ∀ err, pr.prog = .done (.failure err) → ∀ c ∈ s.wal, c.pid ≠ p

/-- What a finished accept answered, from the log of its run. -/
theorem accept_answers {d₀ : Db} {ok : HomiState → Action Call → Prop} {s : HomiState}
    (h : Run (homiFrom env d₀) ok s) {p : ℕ} {pr : Proc Db Writes LockKey Note Hint Reply Call}
    (hp : s.procs[p]? = some pr) (haccept : pr.call.isAccept = true) {k : Uuid} {already : Bool}
    {placeholder : Option Uuid} (hprog : pr.prog = .done (.success (.joined k already placeholder))) :
    ∃ c ∈ s.wal, c.pid = p ∧ AnswersFor already placeholder c.tx.writes ∧
      ∀ c' ∈ s.wal, c'.pid = p → c'.tx = c.tx := by
  obtain ⟨log, hlog⟩ := Run.logged h
  have hstart : ∀ c d, (homiFrom env d₀).admits d c = true →
      ((homiFrom env d₀).code c).Tells (acceptSpec c) Tx.empty [] := fun c _ _ => acceptSpec_route c
  obtain ⟨_, hlast⟩ := (hlog.tells (S := acceptSpec) (fun _ => trivial) hstart
    fun _ _ _ _ _ _ _ heq => by cases heq).1 p pr hp
  rw [hprog] at hlast
  obtain ⟨tx, honly, hanswer⟩ := hlast haccept k already placeholder rfl
  obtain ⟨c, hc, hpid, rfl⟩ := (hlog.commits p tx).mp ((honly tx).mpr rfl)
  exact ⟨c, hc, hpid, hanswer, fun c' hc' hpid' =>
    (honly c'.tx).mp ((hlog.commits p c'.tx).mpr ⟨c', hc', hpid', rfl⟩)⟩

/-- In every run, from the empty database or from one that a run has left
    and in which members have left since, uses are accepts. -/
theorem uses_count_accepts (env : Env) (d₀ : Db) (hd : Resumes env d₀) (s : HomiState)
    (h : Reachable (homiFrom env d₀) s) : UsesCounted env d₀ s := by
  obtain ⟨hledger, hinvites⟩ := hd.base
  have hcounts := counts_run hledger hinvites h
  refine ⟨(invites_from False hledger hinvites h False.elim).inv.2.uses, hcounts.uses,
    fun p pr hp haccept k hprog c hc hpid => ?_, fun p pr hp haccept err hprog => ?_⟩
  · obtain ⟨c₀, _, _, hanswer, honly⟩ := accept_answers h hp haccept hprog
    have hnothing : c.tx.writes = {} := by rw [honly c hc hpid]; exact hanswer.nothing rfl rfl
    refine ⟨hnothing, ?_⟩
    show Writes.apply c.tx.writes c.before = c.before
    rw [hnothing]
    exact LawfulStore.apply_nothing c.before
  · refine failed_commits_nothing h hp ?_ hprog
    cases hc : pr.call with
    | acceptInvite token u => rfl
    | _ => rw [hc] at haccept; cases haccept

/-! ## Section 4: A member who left -/

/-- The user of a membership has left. -/
def Db.leave (d : Db) (k : Uuid × Uuid) (leftAt : Millis) : Db :=
  match d.houseMembers.lookup k with
  | some m => { d with houseMembers := d.houseMembers.patch [(k, some { m with leftAt := some leftAt })] }
  | none => d

theorem removed_leave {d : Db} {k : Uuid × Uuid} {leftAt : Millis}
    (h : ∀ m, d.houseMembers.lookup k = some m → m.isPlaceholder = false) :
    Removed d (d.leave k leftAt) := by
  unfold Db.leave
  cases hm : d.houseMembers.lookup k with
  | none => exact ⟨rfl, fun _ h => h, fun _ _ h => Or.inl h⟩
  | some m =>
    refine ⟨rfl, fun k' hnone => ?_, fun k' m' hm' => ?_⟩
    · rw [Table.lookup_patch_singleton]
      split
      · next heq => rw [← heq, hm] at hnone; cases hnone
      · exact hnone
    · rw [Table.lookup_patch_singleton]
      split
      · next heq =>
        rw [← heq, hm] at hm'
        cases hm'
        exact Or.inr ⟨h m hm, leftAt, rfl⟩
      · exact Or.inl hm'

/-- `cleo` joins the house, which has two more invites. -/
def joinSession : List (Action Call) := serial 1000 0 (opening ++ [
  (.createInvite theHouse ann none, 4),
  (.acceptInvite (js "token-3") cleo, 8),
  (.createInvite theHouse ann none, 4),
  (.createInvite theHouse ann none, 4)])

/-- The database after the session, when `cleo` has left. -/
def cleoLeft : Db :=
  match drive (homi sampleEnv) joinSession with
  | some s => s.db.leave (theHouse, cleo) 2000
  | none => Db.empty

theorem resumes_cleoLeft : Resumes sampleEnv cleoLeft := by
  have hreal : (drive (homi sampleEnv) joinSession).any (fun s =>
      (s.db.houseMembers.lookup (theHouse, cleo)).all fun m => !m.isPlaceholder) = true := by
    decide +kernel
  obtain ⟨s, hs, hall⟩ := (Option.any_eq_true _ _).mp hreal
  refine ⟨s, Run.driveIf (fun _ _ _ => trivial) .init hs, ?_⟩
  rw [cleoLeft, hs]
  refine removed_leave fun m hm => ?_
  rw [hm] at hall
  simpa using hall

/-- Two accepts of `cleo`, the first one for `first` steps before the
    second one starts, which takes `second` steps. -/
def twoAccepts (first second rest : ℕ) : List (Action Call) :=
  [.start (.acceptInvite (js "token-4") cleo), .start (.acceptInvite (js "token-5") cleo)] ++
    List.replicate first (.run 0 3000) ++ List.replicate second (.run 1 3000) ++
    List.replicate rest (.run 0 3000)

theorem uses_count_accepts_rejoin : ∃ s : HomiState, s.wal.length = 2 ∧
    UsesCounted sampleEnv cleoLeft s := by
  obtain ⟨s, hrun, hs⟩ := Run.exists_of_drive (homiFrom sampleEnv cleoLeft) (twoAccepts 8 4 0)
    (fun s => s.wal.length = 2) (by decide +kernel)
  exact ⟨s, of_decide_eq_true hs, uses_count_accepts sampleEnv cleoLeft resumes_cleoLeft s hrun⟩

end Homi
