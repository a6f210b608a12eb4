import Homi.Verification.Uses

/-! # Joins

  Each time accepts make a user an active member of a house, one of them
  does and reports it. The insert of a membership makes the accepts of one
  user wait for each other. The update of a membership that was left does
  not, so two accepts that have both read that the user left both rejoin.
-/

namespace Homi

open ReadCommitted Protocol

variable {env : Env}

/-! ## Section 1: What is claimed -/

/-- The commit makes the user an active member of the house. -/
def Activates (c : HomiCommit) (h u : Uuid) : Prop := ¬ Active c.before h u ∧ Active c.after h u

instance (c : HomiCommit) (h u : Uuid) : Decidable (Activates c h u) :=
  inferInstanceAs (Decidable (_ ∧ _))

/-- The commit is that of an accept of `u` through the invite `r`. -/
def AcceptsBy (env : Env) (c : HomiCommit) (u : Uuid) (r : Invite) : Prop :=
  ∃ token i, c.call = .acceptInvite token u ∧ FoundBy env token c.before i r

/-- The same membership, or with a room that the claim of `r` filled in. -/
def KeepsMember (r : Invite) (m m' : HouseMember) : Prop :=
  m' = m ∨ (r.placeholderUserId ≠ none ∧ m.roomId = none ∧ ∃ room, m' = { m with roomId := some room })

/-- The joins of a run that started on `d₀`.

    * `events`: an accept logs one event when it makes its user a member,
      and none otherwise; no other call does.
    * `alone`: an accept makes nobody but its user a member.
    * `once`: nobody is made a member again.
    * `replies`: an accept reports a new member if and only if it made one.
    * `someone`: when an accept was committed, somebody has made its user a
      member, if the user was none at the start.
    * `stays`: the other accepts keep the membership. -/
structure OneJoin (env : Env) (d₀ : Db) (s : HomiState) : Prop where
  events : ∀ c ∈ s.wal, ∀ u r, AcceptsBy env c u r →
    c.tx.writes.joins = if Activates c r.houseId u then [joinedEvent r.houseId u] else []
  quiet : ∀ c ∈ s.wal, c.call.isAccept = false → c.tx.writes.joins = []
  alone : ∀ c ∈ s.wal, c.call.isAccept = true → ∀ h u, Activates c h u →
    ∃ r, AcceptsBy env c u r ∧ r.houseId = h
  once : ∀ h u, s.wal.Pairwise fun c c' =>
    ¬ (c.call.isAccept = true ∧ Activates c h u ∧ Activates c' h u)
  replies : ∀ (p : ℕ) (pr : Proc Db Writes LockKey Note Hint Reply Call), s.procs[p]? = some pr →
    ∀ token u, pr.call = .acceptInvite token u → ∀ h already placeholder,
      pr.prog = .done (.success (.joined h already placeholder)) →
      ∃ c ∈ s.wal, c.pid = p ∧ ∃ r, AcceptsBy env c u r ∧ (already = false ↔ Activates c r.houseId u)
  someone : ∀ c ∈ s.wal, ∀ u r, AcceptsBy env c u r → ¬ Active d₀ r.houseId u →
    ∃ c' ∈ s.wal, Activates c' r.houseId u
  stays : ∀ c ∈ s.wal, ∀ u r, AcceptsBy env c u r → ¬ Activates c r.houseId u →
    ∃ m m', c.before.houseMembers.lookup (r.houseId, u) = some m ∧
      c.after.houseMembers.lookup (r.houseId, u) = some m' ∧ KeepsMember r m m'

/-! ## Section 2: Commits -/

section commits

variable {c : HomiCommit} {h u : Uuid} {bound : Option Uuid} {already : Bool}

theorem after_member (k : Uuid × Uuid) : c.after.houseMembers.lookup k =
    (Table.lastEdit c.tx.writes.houseMembers k).getD (c.before.houseMembers.lookup k) :=
  Table.lookup_patch c.before.houseMembers c.tx.writes.houseMembers k

theorem after_of_writes_nothing (h : c.tx.writes = {}) : c.after = c.before := by
  show Writes.apply c.tx.writes c.before = c.before
  rw [h]
  exact LawfulStore.apply_nothing c.before

/-- The flag of an entry says whether the commit makes the user a member. -/
theorem Entry.activates (hA : Entry True h u bound c.tx c.before already) :
    Activates c h u ↔ already = false := by
  cases hA with
  | stayed here _ => exact ⟨fun ha => absurd here.active ha.1, fun h => by cases h⟩
  | roomed old room hold hactive _ _ _ =>
    exact ⟨fun ha => absurd (active_iff.mpr ⟨old, hold, hactive⟩) ha.1, fun h => by cases h⟩
  | joined m hactive hnew hedit =>
    refine ⟨fun _ => rfl, fun _ => ⟨hnew trivial, active_iff.mpr ⟨m, ?_, hactive⟩⟩⟩
    rw [after_member, hedit]
    rfl

theorem Entry.active_after {apart : Prop} (hA : Entry apart h u bound c.tx c.before already) :
    Active c.after h u := by
  cases hA with
  | stayed here hedit =>
    obtain ⟨m, hm, _, hl⟩ := here
    exact active_iff.mpr ⟨m, by rw [after_member, hedit]; exact hm, hl⟩
  | roomed old room hold hactive _ _ hedit =>
    exact active_iff.mpr ⟨{ old with roomId := some room }, by rw [after_member, hedit]; rfl, hactive⟩
  | joined m hactive _ hedit =>
    exact active_iff.mpr ⟨m, by rw [after_member, hedit]; rfl, hactive⟩

/-- What is known of the commit of an accept through `r`. -/
theorem InviteCommit.accepts {apart : Prop} {r : Invite} (hc : InviteCommit env apart c)
    (hb : InvitesBase env c.before) (h : AcceptsBy env c u r) :
    (r.placeholderUserId = none ∧ Here r.houseId u c.before ∧ c.tx.writes = {}) ∨
    ∃ already, Entry apart r.houseId u r.placeholderUserId c.tx c.before already ∧
      c.tx.writes.joins = if already then [] else [joinedEvent r.houseId u] := by
  obtain ⟨token, i, hcall, hfound⟩ := h
  have hnot : c.call.isAccept ≠ false := by rw [hcall]; exact fun h => by cases h
  cases hc with
  | aside haccept => exact absurd haccept hnot
  | created haccept => exact absurd haccept hnot
  | accepted token' u' hcall' hg =>
    rw [hcall] at hcall'
    cases hcall'
    cases hg with
    | noop j invite hfound' hplain here hwrites =>
      obtain ⟨rfl, rfl⟩ := hb.found_unique hfound hfound'
      exact Or.inl ⟨hplain, here, hwrites⟩
    | used j invite already hfound' _ _ entry _ hjoins =>
      obtain ⟨rfl, rfl⟩ := hb.found_unique hfound hfound'
      exact Or.inr ⟨already, entry, hjoins⟩

theorem not_activates_of_nothing (hwrites : c.tx.writes = {}) : ¬ Activates c h u := by
  rintro ⟨hnot, hact⟩
  rw [after_of_writes_nothing hwrites] at hact
  exact hnot hact

theorem InviteCommit.events {r : Invite} (hc : InviteCommit env True c) (hb : InvitesBase env c.before)
    (h : AcceptsBy env c u r) :
    c.tx.writes.joins = if Activates c r.houseId u then [joinedEvent r.houseId u] else [] := by
  rcases hc.accepts hb h with ⟨_, _, hwrites⟩ | ⟨already, entry, hjoins⟩
  · rw [if_neg (not_activates_of_nothing hwrites), hwrites]
    rfl
  · rw [hjoins]
    cases already with
    | true => rw [if_pos rfl, if_neg fun ha => by cases entry.activates.mp ha]
    | false => rw [if_pos (entry.activates.mpr rfl)]; rfl

theorem InviteCommit.active_after {apart : Prop} {r : Invite} (hc : InviteCommit env apart c)
    (hb : InvitesBase env c.before) (h : AcceptsBy env c u r) : Active c.after r.houseId u := by
  rcases hc.accepts hb h with ⟨_, here, hwrites⟩ | ⟨already, entry, _⟩
  · rw [after_of_writes_nothing hwrites]
    exact here.active
  · exact entry.active_after

/-- An accept makes no other user a member. -/
theorem InviteCommit.alone {apart : Prop} (hc : InviteCommit env apart c)
    (haccept : c.call.isAccept = true) (ha : Activates c h u) :
    ∃ r, AcceptsBy env c u r ∧ r.houseId = h := by
  cases hc with
  | aside hnot => rw [haccept] at hnot; cases hnot
  | created hnot => rw [haccept] at hnot; cases hnot
  | accepted token v hcall hg =>
    cases hg with
    | noop i invite _ _ _ hwrites => exact absurd ha (not_activates_of_nothing hwrites)
    | used i invite already hfound _ _ _ hothers _ =>
      obtain ⟨m, hm, hl⟩ := active_iff.mp ha.2
      rcases lookup_patch_cases hm with hold | hmem
      · exact absurd (active_iff.mpr ⟨m, hold, hl⟩) ha.1
      · rcases hothers _ _ hmem with heq | ⟨m', heq, hleft⟩
        · obtain ⟨rfl, rfl⟩ := Prod.mk.inj heq
          exact ⟨invite, ⟨token, i, hcall, hfound⟩, rfl⟩
        · cases heq
          exact absurd hl hleft

theorem InviteCommit.stays {r : Invite} (hc : InviteCommit env True c) (hb : InvitesBase env c.before)
    (h : AcceptsBy env c u r) (hnot : ¬ Activates c r.houseId u) :
    ∃ m m', c.before.houseMembers.lookup (r.houseId, u) = some m ∧
      c.after.houseMembers.lookup (r.houseId, u) = some m' ∧ KeepsMember r m m' := by
  rcases hc.accepts hb h with ⟨_, here, hwrites⟩ | ⟨already, entry, _⟩
  · obtain ⟨m, hm, _⟩ := here
    exact ⟨m, m, hm, by rw [after_of_writes_nothing hwrites, hm], Or.inl rfl⟩
  · cases entry with
    | stayed here hedit =>
      obtain ⟨m, hm, _⟩ := here
      exact ⟨m, m, hm, by rw [after_member, hedit, hm]; rfl, Or.inl rfl⟩
    | roomed old room hold _ hroom hbound hedit =>
      exact ⟨old, _, hold, by rw [after_member, hedit]; rfl, Or.inr ⟨hbound, hroom, room, rfl⟩⟩
    | joined m hactive hnew hedit =>
      refine absurd ⟨hnew trivial, active_iff.mpr ⟨m, ?_, hactive⟩⟩ hnot
      rw [after_member, hedit]
      rfl

end commits

/-! ## Section 3: Runs -/

section runs

variable {d₀ : Db} {ok : HomiState → Action Call → Prop} {s : HomiState}

/-- A member who was none at the start was made one. -/
theorem activated_run (h : Run (homiFrom env d₀) ok s) {k u : Uuid} (hstart : ¬ Active d₀ k u)
    (hact : Active s.db k u) : ∃ c ∈ s.wal, Activates c k u := by
  induction h with
  | init => exact absurd hact hstart
  | @step s s' a hs hok hstep ih =>
    cases moves_of_step hstep with
    | start c hadm => exact ih hact
    | query p now pr next hp hprog => exact ih hact
    | stmt p now pr act next hp hprog hfree => exact ih hact
    | emit p now pr hint next hp hprog => exact ih hact
    | kill p pr hp hrun => exact ih hact
    | commit p now pr next hp hprog =>
      by_cases hold : Active s.db k u
      · obtain ⟨c, hc, ha⟩ := ih hold
        exact ⟨c, List.mem_append_left _ hc, ha⟩
      · exact ⟨_, List.mem_append_right _ (List.mem_singleton_self _), hold, hact⟩

/-- Who has an account does not stop being a member. -/
theorem Active.persist {d d' : Db} {k u : Uuid} (h : Active d k u) (hp : Persist d d')
    (hpeople : People env d) (hu : hasAccount d u = true) : Active d' k u := by
  obtain ⟨m, hm, hl⟩ := active_iff.mp h
  exact (Here.persist ⟨m, hm, (hpeople.member_of_account hu hm).1, hl⟩ hp).active

end runs

/-- In every run in which nobody rejoins while another accept of the same
    user has read that the user left, joins are reported once. -/
theorem joins_report_once (env : Env) (d₀ : Db) (hd : Resumes env d₀) (s : HomiState)
    (h : Run (homiFrom env d₀) RejoinsApart s) : OneJoin env d₀ s := by
  obtain ⟨hledger, hinvites⟩ := hd.base
  have hapart : True → ∀ s a, RejoinsApart s a → RejoinsApart s a := fun _ _ _ h => h
  have hholds := invites_from True hledger hinvites h hapart
  have hcommit := inviteCommit_from True hledger hinvites h hapart
  have hknown := known_from hledger h
  have hbase : ∀ c ∈ s.wal, InvitesBase env c.before := fun c hc => (hholds.commits c hc).1.2
  have haccount : ∀ c ∈ s.wal, ∀ {u r}, AcceptsBy env c u r → hasAccount c.after u = true := by
    rintro c hc u r ⟨token, i, hcall, _⟩
    exact hasAccount_rely ((hknown c hc).account u (by rw [hcall]; rfl)) (hknown c hc).step.toPersist
  refine ⟨fun c hc u r hby => (hcommit c hc).events (hbase c hc) hby, fun c hc hnot => ?_,
    fun c hc haccept k u => (hcommit c hc).alone haccept, fun k u => ?_, fun p pr hp token u hcall k already
      placeholder hprog => ?_, fun c hc u r hby hstart => ?_,
    fun c hc u r hby => (hcommit c hc).stays (hbase c hc) hby⟩
  · -- only an accept writes a join
    cases hcommit c hc with
    | aside _ _ hjoins => exact hjoins
    | created _ _ _ _ hjoins => exact hjoins
    | accepted token u hcall _ => rw [hcall] at hnot; cases hnot
  · -- who has been activated stays active, so nobody is activated twice
    refine hholds.order.imp_of_mem ?_
    rintro c c' hc hc' hrely ⟨haccept, hact, hact'⟩
    obtain ⟨r, hby, _⟩ := (hcommit c hc).alone haccept hact
    exact hact'.1 (hact.2.persist hrely.persist (hknown c hc).after.people (haccount c hc hby))
  · -- the answer of a request is that of its one commit
    obtain ⟨c, hc, hpid, hanswer, _⟩ := accept_answers h hp (by rw [hcall]; rfl) hprog
    obtain ⟨pr', hp', hcall'⟩ := Run.commit_call h c hc
    rw [hpid, hp] at hp'
    cases hp'
    rw [hcall] at hcall'
    refine ⟨c, hc, hpid, ?_⟩
    have hby : ∃ r, AcceptsBy env c u r := by
      cases hcommit c hc with
      | aside haccept => rw [← hcall'] at haccept; cases haccept
      | created haccept => rw [← hcall'] at haccept; cases haccept
      | accepted token' u' hcall'' hg =>
        rw [← hcall'] at hcall''
        cases hcall''
        cases hg with
        | noop i invite hfound => exact ⟨invite, token, i, hcall'.symm, hfound⟩
        | used i invite _ hfound => exact ⟨invite, token, i, hcall'.symm, hfound⟩
    obtain ⟨r, hby⟩ := hby
    refine ⟨r, hby, ?_⟩
    have hevents := (hcommit c hc).events (hbase c hc) hby
    have hjoins := hanswer.joins
    rw [hevents] at hjoins
    by_cases ha : Activates c r.houseId u
    · rw [if_pos ha] at hjoins
      exact ⟨fun _ => ha, fun _ => by cases already with
        | false => rfl
        | true => cases hjoins.mpr rfl⟩
    · rw [if_neg ha] at hjoins
      refine ⟨fun hfalse => ?_, fun h => absurd h ha⟩
      rw [hjoins.mp rfl] at hfalse
      cases hfalse
  · -- active at the start and after the accept, so activated in between
    refine activated_run h hstart ?_
    exact ((hcommit c hc).active_after (hbase c hc) hby).persist (hholds.past c hc).persist
      (hknown c hc).after.people (haccount c hc hby)

theorem quiet_rejoinsApart (s : HomiState) (a : Action Call) (h : quiet s a = true) :
    RejoinsApart s a := by
  intro c hc q qr hq hp k u hnote
  rw [quiet_notes h hc hq hp] at hnote
  cases hnote

theorem joins_report_once_rejoin : ∃ s : HomiState,
    (∃ c ∈ s.wal, Activates c theHouse cleo) ∧ OneJoin sampleEnv cleoLeft s := by
  obtain ⟨s, hrun, hs⟩ := Run.exists_of_driveIf (homiFrom sampleEnv cleoLeft) quiet_rejoinsApart
    (twoAccepts 8 4 0) (fun s => s.wal.any fun c => Activates c theHouse cleo) (by decide +kernel)
  obtain ⟨c, hc, hact⟩ := List.any_eq_true.mp hs
  exact ⟨s, ⟨c, hc, of_decide_eq_true hact⟩,
    joins_report_once sampleEnv cleoLeft resumes_cleoLeft s hrun⟩

/-- An accept reports its user as joined, who is a member already. -/
def joinsAgain (env : Env) (s : HomiState) : Bool :=
  s.wal.any fun c => match c.call with
    | .acceptInvite token u => !c.tx.writes.joins.isEmpty && c.before.invites.rows.any fun (_, r) =>
        r.tokenHash = env.hashToken token && (activeMember c.before r.houseId u).isSome
    | _ => false

theorem OneJoin.not_joinsAgain {d₀ : Db} {s : HomiState} (h : OneJoin env d₀ s) :
    joinsAgain env s = false := by
  rw [← Bool.not_eq_true]
  intro hagain
  obtain ⟨c, hc, hcheck⟩ := List.any_eq_true.mp hagain
  cases hcall : c.call with
  | acceptInvite token u =>
    rw [hcall] at hcheck
    obtain ⟨hjoins, hrow⟩ := Bool.and_eq_true_iff.mp hcheck
    obtain ⟨⟨i, r⟩, hr, hboth⟩ := List.any_eq_true.mp hrow
    obtain ⟨hhash, hact⟩ := Bool.and_eq_true_iff.mp hboth
    have hevents := h.events c hc u r ⟨token, i, hcall, Table.mem_rows.mp hr, of_decide_eq_true hhash⟩
    rw [if_neg fun ha => ha.1 hact] at hevents
    rw [hevents] at hjoins
    cases hjoins
  | _ => rw [hcall] at hcheck; cases hcheck

/-- Two accepts that have both read that the user left both rejoin. -/
theorem racing_accepts_join_twice :
    ¬ ∀ s, Reachable (homiFrom sampleEnv cleoLeft) s → OneJoin sampleEnv cleoLeft s := by
  intro hall
  obtain ⟨s, hrun, hs⟩ := Run.exists_of_drive (homiFrom sampleEnv cleoLeft) (twoAccepts 3 8 5)
    (joinsAgain sampleEnv) (by decide +kernel)
  rw [(hall s hrun).not_joinsAgain] at hs
  cases hs

end Homi
