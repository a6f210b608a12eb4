import Homi.Verification.Replies
import Homi.Verification.Payments

/-! # Invites

  What an accept does to the invite it has locked, to the membership of its
  user and to the feed, whatever runs beside it. The protocol has one
  assumption, `apart`: nobody makes a user an active member again while
  another open accept of that user has read that the user left.
-/

namespace Homi

open ReadCommitted Protocol

variable {env : Env} {apart : Prop} {c : Call}

/-! ## Section 1: Rows -/

/-- The user is an active member of the house. -/
def Active (d : Db) (h u : Uuid) : Prop := (activeMember d h u).isSome = true

instance (d : Db) (h u : Uuid) : Decidable (Active d h u) :=
  inferInstanceAs (Decidable (_ = true))

theorem active_iff {d : Db} {h u : Uuid} :
    Active d h u ↔ ∃ m, d.houseMembers.lookup (h, u) = some m ∧ m.leftAt = none := by
  rw [Active, activeMember]
  cases hm : d.houseMembers.lookup (h, u) with
  | none => simp
  | some m => by_cases hl : m.leftAt = none <;> simp [hl]

/-- The token is that of the invite `i`. -/
def FoundBy (env : Env) (token : JsString) (d : Db) (i : Uuid) (r : Invite) : Prop :=
  d.invites.lookup i = some r ∧ r.tokenHash = env.hashToken token

structure InvitesBase (env : Env) (d : Db) : Prop where
  ids : ∀ i r, d.invites.lookup i = some r → ∃ n < d.fresh, i = env.uuid n
  uses : ∀ i r, d.invites.lookup i = some r → r.uses ≤ r.maxUses
  tokens : ∀ i j r q, d.invites.lookup i = some r → d.invites.lookup j = some q →
    r.tokenHash = q.tokenHash → i = j

/-- The same invite, with as many uses or more. -/
structure Invite.Later (r r' : Invite) : Prop where
  same : r' = { r with uses := r'.uses }
  uses : r.uses ≤ r'.uses

theorem Invite.Later.refl (r : Invite) : r.Later r := ⟨rfl, le_refl _⟩

theorem Invite.Later.trans {a b d : Invite} (h : a.Later b) (h' : b.Later d) : a.Later d :=
  ⟨by rw [h'.same, h.same], h.uses.trans h'.uses⟩

theorem Invite.Later.tokenHash {r r' : Invite} (h : r.Later r') : r'.tokenHash = r.tokenHash := by
  rw [h.same]

/-- Invites stay. -/
def InvitesStep (d d' : Db) : Prop :=
  ∀ i r, d.invites.lookup i = some r → ∃ r', d'.invites.lookup i = some r' ∧ r.Later r'

theorem InvitesStep.refl (d : Db) : InvitesStep d d := fun _ r h => ⟨r, h, .refl r⟩

theorem InvitesStep.trans {a b d : Db} (h : InvitesStep a b) (h' : InvitesStep b d) :
    InvitesStep a d := by
  intro i r hr
  obtain ⟨r', hr', hlater⟩ := h i r hr
  obtain ⟨r'', hr'', hlater'⟩ := h' i r' hr'
  exact ⟨r'', hr'', hlater.trans hlater'⟩

theorem FoundBy.later {token : JsString} {d d' : Db} {i : Uuid} {r : Invite}
    (h : FoundBy env token d i r) (hs : InvitesStep d d') :
    ∃ r', FoundBy env token d' i r' ∧ r.Later r' := by
  obtain ⟨r', hr', hlater⟩ := hs i r h.1
  exact ⟨r', ⟨hr', hlater.tokenHash.trans h.2⟩, hlater⟩

/-- A token is that of one invite only. -/
theorem InvitesBase.found_unique {token : JsString} {d : Db} {i j : Uuid} {r q : Invite}
    (hb : InvitesBase env d) (h : FoundBy env token d i r) (h' : FoundBy env token d j q) :
    i = j ∧ r = q := by
  obtain rfl := hb.tokens i j r q h.1 h'.1 (h.2.trans h'.2.symm)
  exact ⟨rfl, Option.some.inj (h.1.symm.trans h'.1)⟩

/-! ## Section 2: The protocol -/

/-- What others do meanwhile. -/
structure InvitesRely (apart : Prop) (tx : DbTx) (d d' : Db) : Prop where
  persist : Persist d d'
  frame : Frame tx d d'
  fresh : d.fresh ≤ d'.fresh
  invites : InvitesStep d d'
  tokens : ∀ i r, d'.invites.lookup i = some r → d.invites.lookup i = none →
    ¬ tx.Holds (.tokenHash r.tokenHash)
  left : apart → ∀ h u, Note.left h u ∈ tx.notes → Active d' h u → Active d h u

/-- A new invite, under a new id and a token that nobody else has. -/
structure AddsInvite (env : Env) (i : Uuid) (r : Invite) (tx : DbTx) (d : Db) : Prop where
  invites : tx.writes.invites = [(i, some r)]
  id : ∃ n < d.fresh, i = env.uuid n
  free : d.invites.lookup i = none
  unused : r.uses = 0
  owns : tx.Owns (.tokenHash r.tokenHash)
  unique : ∀ j q, d.invites.lookup j = some q → q.tokenHash ≠ r.tokenHash

/-- The user is a real member of the house, and has not left. -/
def Here (h u : Uuid) (d : Db) : Prop :=
  ∃ m, d.houseMembers.lookup (h, u) = some m ∧ m.isPlaceholder = false ∧ m.leftAt = none

/-- What an accept does to the membership of its user in the end; the flag
    says whether it reports that the user was a member already.

    * `stayed`: it leaves the membership alone.
    * `roomed`: the claim fills in the room.
    * `joined`: it makes the user an active member. -/
inductive Entry (apart : Prop) (h u : Uuid) (bound : Option Uuid) (tx : DbTx) (d : Db) :
    Bool → Prop where
  | stayed (here : Here h u d) (hedit : Table.lastEdit tx.writes.houseMembers (h, u) = none) :
      Entry apart h u bound tx d true
  | roomed (old : HouseMember) (room : Uuid) (hold : d.houseMembers.lookup (h, u) = some old)
      (hactive : old.leftAt = none) (hroom : old.roomId = none) (hbound : bound ≠ none)
      (hedit : Table.lastEdit tx.writes.houseMembers (h, u) =
        some (some { old with roomId := some room })) : Entry apart h u bound tx d true
  | joined (m : HouseMember) (hactive : m.leftAt = none) (hnew : apart → ¬ Active d h u)
      (hedit : Table.lastEdit tx.writes.houseMembers (h, u) = some (some m)) :
      Entry apart h u bound tx d false

/-- The events of a write set that say that somebody joined. -/
def Writes.joins (w : Writes) : List ActivityEvent :=
  w.activityEvents.filter fun e => e.type = .memberJoined

/-- The event of `u` joining `h`. -/
def joinedEvent (h u : Uuid) : ActivityEvent := ⟨toUuid h, u, .memberJoined, .member, toUuid u, .none⟩

/-- A commit of an accept: it found its user a member and does nothing, or
    it takes a use of the invite. -/
inductive AcceptGuar (env : Env) (apart : Prop) (token : JsString) (u : Uuid) (tx : DbTx) (d : Db) :
    Prop where
  | noop (i : Uuid) (invite : Invite) (hfound : FoundBy env token d i invite)
      (hplain : invite.placeholderUserId = none) (here : Here invite.houseId u d)
      (hwrites : tx.writes = {})
  | used (i : Uuid) (invite : Invite) (already : Bool) (hfound : FoundBy env token d i invite)
      (hopen : invite.uses < invite.maxUses)
      (hinvites : tx.writes.invites = [(i, some { invite with uses := invite.uses + 1 })])
      (entry : Entry apart invite.houseId u invite.placeholderUserId tx d already)
      (hothers : ∀ k o, (k, o) ∈ tx.writes.houseMembers →
        k = (invite.houseId, u) ∨ ∃ m, o = some m ∧ m.leftAt ≠ none)
      (hjoins : tx.writes.joins = if already then [] else [joinedEvent invite.houseId u])

def InvitesGuar (env : Env) (apart : Prop) : Call → DbTx → Db → Prop
  | .createInvite _ _ _, tx, d => ∃ i r, AddsInvite env i r tx d
  | .acceptInvite token u, tx, d => AcceptGuar env apart token u tx d
  | _, _, _ => True

def invitesProtocol (env : Env) (apart : Prop) : DbProtocol where
  inv d := LedgerBase env d ∧ InvitesBase env d
  rely := InvitesRely apart
  guar c _ tx d := InvitesGuar env apart c tx d
  post _ _ _ := True
  allows _ _ _ _ _ := True
  stops _ _ := True

/-! ## Section 3: Commits -/

/-- What a commit does to the invites, and whom it reports as joined. -/
inductive InviteCommit (env : Env) (apart : Prop) (c : HomiCommit) : Prop where
  | aside (haccept : c.call.isAccept = false) (hinvites : c.tx.writes.invites = [])
      (hjoins : c.tx.writes.joins = [])
  | created (haccept : c.call.isAccept = false) (i : Uuid) (r : Invite)
      (h : AddsInvite env i r c.tx c.before) (hjoins : c.tx.writes.joins = [])
  | accepted (token : JsString) (u : Uuid) (hcall : c.call = .acceptInvite token u)
      (h : AcceptGuar env apart token u c.tx c.before)

theorem Known.inviteCommit {c : HomiCommit} (h : Known env c)
    (hg : InvitesGuar env apart c.call c.tx c.before) : InviteCommit env apart c := by
  have hjoins : EventType.memberJoined ∉ c.call.events → c.tx.writes.joins = [] := by
    intro hnot
    rw [Writes.joins, List.filter_eq_nil_iff]
    intro e he
    simpa using fun heq : e.type = .memberJoined => hnot (heq ▸ h.within.events e he)
  have haside : c.call.isAccept = false → .invites ∉ c.call.tables →
      EventType.memberJoined ∉ c.call.events → InviteCommit env apart c :=
    fun ha ht he => .aside ha (h.within.tables .invites ht) (hjoins he)
  cases hc : c.call with
  | createInvite k u placeholderId =>
    rw [hc] at hg
    obtain ⟨i, r, hadd⟩ := hg
    exact .created (by rw [hc]; rfl) i r hadd (hjoins (by simp [hc, Call.events]))
  | acceptInvite token u =>
    rw [hc] at hg
    exact .accepted token u hc hg
  | _ => exact haside (by rw [hc]; rfl) (by simp [hc, Call.tables]) (by simp [hc, Call.events])

section commits

variable {c : HomiCommit}

theorem after_invites (i : Uuid) : c.after.invites.lookup i =
    (Table.lastEdit c.tx.writes.invites i).getD (c.before.invites.lookup i) :=
  Table.lookup_patch c.before.invites c.tx.writes.invites i

theorem after_no_invite (h : c.tx.writes.invites = []) (i : Uuid) :
    c.after.invites.lookup i = c.before.invites.lookup i := by
  rw [after_invites, h]
  rfl

theorem after_one_invite {j : Uuid} {r : Invite} (h : c.tx.writes.invites = [(j, some r)]) (i : Uuid) :
    c.after.invites.lookup i = if j = i then some r else c.before.invites.lookup i := by
  show (c.before.invites.patch c.tx.writes.invites).lookup i = _
  rw [h]
  exact Table.lookup_patch_singleton _ _ _ _

theorem InviteCommit.step (h : InviteCommit env apart c) : InvitesStep c.before c.after := by
  intro i r hr
  have hsame : c.after.invites.lookup i = c.before.invites.lookup i →
      ∃ r', c.after.invites.lookup i = some r' ∧ r.Later r' := fun heq => ⟨r, heq.trans hr, .refl r⟩
  cases h with
  | aside _ hinvites _ => exact hsame (after_no_invite hinvites i)
  | created _ j q h _ =>
    refine hsame ?_
    rw [after_one_invite h.invites, if_neg]
    rintro rfl
    rw [h.free] at hr
    cases hr
  | accepted token u _ h =>
    cases h with
    | noop j invite _ _ _ hwrites => exact hsame (after_no_invite (by rw [hwrites]) i)
    | used j invite already hfound _ hinvites _ _ _ =>
      rw [after_one_invite hinvites]
      split
      · next heq =>
        subst heq
        obtain rfl := Option.some.inj (hr.symm.trans hfound.1)
        exact ⟨_, rfl, rfl, Nat.le_succ _⟩
      · exact ⟨r, hr, .refl r⟩

/-- An invite that a commit adds comes with its token. -/
theorem InviteCommit.new (h : InviteCommit env apart c) {i : Uuid} {r : Invite}
    (hr : c.after.invites.lookup i = some r) (hnone : c.before.invites.lookup i = none) :
    AddsInvite env i r c.tx c.before := by
  have hsame : c.after.invites.lookup i ≠ c.before.invites.lookup i := by
    rw [hr, hnone]
    exact fun heq => by cases heq
  cases h with
  | aside _ hinvites _ => exact absurd (after_no_invite hinvites i) hsame
  | created _ j q h _ =>
    rw [after_one_invite h.invites] at hr
    split at hr
    · next heq =>
      subst heq
      cases hr
      exact h
    · rw [hnone] at hr
      cases hr
  | accepted token u _ h =>
    cases h with
    | noop j invite _ _ _ hwrites => exact absurd (after_no_invite (by rw [hwrites]) i) hsame
    | used j invite already hfound _ hinvites _ _ _ =>
      rw [after_one_invite hinvites] at hr
      split at hr
      · next heq =>
        subst heq
        rw [hfound.1] at hnone
        cases hnone
      · rw [hnone] at hr
        cases hr

/-- An invite after the commit is an old one or the new one. -/
theorem InviteCommit.old_or_new (h : InviteCommit env apart c) {i : Uuid} {r : Invite}
    (hr : c.after.invites.lookup i = some r) :
    (∃ r₀, c.before.invites.lookup i = some r₀ ∧ r₀.Later r) ∨ AddsInvite env i r c.tx c.before := by
  cases hold : c.before.invites.lookup i with
  | none => exact Or.inr (h.new hr hold)
  | some r₀ =>
    obtain ⟨r', hr', hlater⟩ := h.step i r₀ hold
    rw [hr] at hr'
    cases hr'
    exact Or.inl ⟨r₀, rfl, hlater⟩

theorem InviteCommit.base (h : InviteCommit env apart c) (hb : InvitesBase env c.before) :
    InvitesBase env c.after := by
  refine ⟨fun i r hr => ?_, fun i r hr => ?_, fun i j r q hr hq heq => ?_⟩
  · rcases h.old_or_new hr with ⟨r₀, hr₀, _⟩ | hadd
    · exact hb.ids i r₀ hr₀
    · exact hadd.id
  · have hkept : c.after.invites.lookup i = c.before.invites.lookup i → r.uses ≤ r.maxUses :=
      fun hsame => hb.uses i r (hsame.symm.trans hr)
    cases h with
    | aside _ hinvites _ => exact hkept (after_no_invite hinvites i)
    | created _ j q h _ =>
      rw [after_one_invite h.invites] at hr hkept
      split at hr
      · cases hr
        rw [h.unused]
        exact Nat.zero_le _
      · next hne => exact hkept (if_neg hne)
    | accepted token u _ h =>
      cases h with
      | noop j invite _ _ _ hwrites => exact hkept (after_no_invite (by rw [hwrites]) i)
      | used j invite already hfound hopen hinvites _ _ _ =>
        rw [after_one_invite hinvites] at hr hkept
        split at hr
        · cases hr
          exact hopen
        · next hne => exact hkept (if_neg hne)
  · rcases h.old_or_new hr with ⟨r₀, hr₀, hlater⟩ | hadd
    · rcases h.old_or_new hq with ⟨q₀, hq₀, hlater'⟩ | hadd'
      · exact hb.tokens i j r₀ q₀ hr₀ hq₀ (by rw [← hlater.tokenHash, ← hlater'.tokenHash, heq])
      · exact absurd (hlater.tokenHash.symm.trans heq) (hadd'.unique i r₀ hr₀)
    · rcases h.old_or_new hq with ⟨q₀, hq₀, hlater'⟩ | hadd'
      · exact absurd (hlater'.tokenHash.symm.trans heq.symm) (hadd.unique j q₀ hq₀)
      · have hboth := hadd.invites.symm.trans hadd'.invites
        simp only [List.cons.injEq, Prod.mk.injEq, and_true] at hboth
        exact hboth.1

end commits

/-! ## Section 4: Accepting -/

section accept

variable {token : JsString} {u id : Uuid} {invite : Invite} {α : Type}

/-- The invite that the accept has locked. -/
structure AcceptHeld (env : Env) (token : JsString) (u id : Uuid) (invite : Invite) (tx : DbTx)
    (d : Db) : Prop where
  account : hasAccount d u = true
  holds : tx.Holds (.invite id)
  found : FoundBy env token d id invite
  isOpen : invite.uses < invite.maxUses

theorem AcceptHeld.add {tx : DbTx} {d : Db} (hA : AcceptHeld env token u id invite tx d)
    (e : Effect Writes LockKey Note) : AcceptHeld env token u id invite (tx.add e) (tick e.ids d) :=
  ⟨hA.account, holds_add tx e hA.holds, hA.found, hA.isOpen⟩

theorem passive_acceptHeld (q : Writes → Prop) :
    (invitesProtocol env apart).Passive q (AcceptHeld env token u id invite) where
  stable tx d d' hr _ hA := by
    have hsame : d'.invites.lookup id = d.invites.lookup id := hr.frame _ hA.holds
    exact ⟨hasAccount_rely hA.account hr.persist, hA.holds, ⟨hsame.trans hA.found.1, hA.found.2⟩, hA.isOpen⟩
  step _ _ e _ hA := hA.add e

theorem Here.persist {h : Uuid} {d d' : Db} (hA : Here h u d) (hp : Persist d d') : Here h u d' := by
  obtain ⟨m, hm, hreal, hleft⟩ := hA
  obtain ⟨m', hm', hsame, _, hstay⟩ := hp.members (h, u) m hm
  exact ⟨m', hm', hsame.trans hreal, hstay hreal hleft⟩

theorem Here.active {h : Uuid} {d : Db} (hA : Here h u d) : Active d h u := by
  obtain ⟨m, hm, _, hleft⟩ := hA
  exact active_iff.mpr ⟨m, hm, hleft⟩

/-- What the accept knows from its look at the membership. -/
def Seen (apart : Prop) (h u : Uuid) (existing : Option HouseMember) (tx : DbTx) (d : Db) : Prop :=
  match existing with
  | none => d.houseMembers.lookup (h, u) = none ∨ Here h u d
  | some m =>
      if m.leftAt = none then Here h u d
      else Note.left h u ∈ tx.notes ∧ d.houseMembers.lookup (h, u) ≠ none ∧ (apart → ¬ Active d h u)

/-- Nothing is written yet. -/
structure Looked (env : Env) (apart : Prop) (token : JsString) (u id : Uuid) (invite : Invite)
    (existing : Option HouseMember) (tx : DbTx) (d : Db) : Prop where
  writes : tx.writes = {}
  held : AcceptHeld env token u id invite tx d
  seen : Seen apart invite.houseId u existing tx d

theorem passive_looked {existing : Option HouseMember} : (invitesProtocol env apart).Passive
    (fun w => w = {}) (Looked env apart token u id invite existing) where
  stable tx d d' hr hi hA := by
    refine ⟨hA.writes, (passive_acceptHeld fun _ => True).stable tx d d' hr hi hA.held, ?_⟩
    have hseen := hA.seen
    unfold Seen at hseen ⊢
    split at hseen
    · rcases hseen with hnone | hhere
      · cases hm : d'.houseMembers.lookup (invite.houseId, u) with
        | none => exact Or.inl rfl
        | some m =>
          have hreal := (hi.1.people.member_of_account (hasAccount_rely hA.held.account hr.persist) hm).1
          exact Or.inr ⟨m, hm, hreal, hr.persist.arrivals _ m hnone hm hreal⟩
      · exact Or.inr (hhere.persist hr.persist)
    · split at hseen
      · next hl =>
        rw [if_pos hl]
        exact hseen.persist hr.persist
      · next hl =>
        rw [if_neg hl]
        obtain ⟨hnote, hrow, hleft⟩ := hseen
        refine ⟨hnote, ?_, fun ha hact => hleft ha (hr.left ha _ _ hnote hact)⟩
        obtain ⟨m, hm⟩ := Option.ne_none_iff_exists'.mp hrow
        obtain ⟨m', hm', _⟩ := hr.persist.members _ m hm
        rw [hm']
        exact fun hnone => by cases hnone
  step tx d e hq hA := by
    refine ⟨by rw [Tx.add_writes, hA.writes, hq]; rfl, hA.held.add e, ?_⟩
    have hseen := hA.seen
    unfold Seen at hseen ⊢
    split at hseen
    · exact hseen
    · split at hseen
      · next hl => rw [if_pos hl]; exact hseen
      · next hl => rw [if_neg hl]; exact ⟨List.mem_append_left _ hseen.1, hseen.2⟩

theorem view_nothing {tx : DbTx} {d : Db} {now : ℕ} (h : tx.writes = {}) : (tx.view d now).db = d := by
  show Writes.apply tx.writes d = d
  rw [h]
  exact LawfulStore.apply_nothing d

theorem triple_lockInvite_found :
    (invitesProtocol env apart).Triple (fun tx d => tx.writes = {} ∧ hasAccount d u = true)
      (lockInvite env token)
      fun r tx d => tx.writes = {} ∧ AcceptHeld env token u r.1 r.2 tx d := by
  have hstable : (invitesProtocol env apart).Stable fun tx d => tx.writes = {} ∧ hasAccount d u = true :=
    (stable_const fun tx : DbTx => tx.writes = {}).and fun _ _ _ hr _ hA => hasAccount_rely hA hr.persist
  refine triple_exec hstable ?_
  rintro tx d now ⟨id, invite⟩ ⟨hw, hA⟩ hi hres
  dsimp only at hres ⊢
  rw [view_nothing hw] at hres ⊢
  generalize hfound : List.find? _ d.invites.rows = found at hres ⊢
  cases found with
  | none => cases hres
  | some found =>
    dsimp only at hres ⊢
    split at hres
    · next husable =>
      cases hres
      have hrow := Table.mem_rows.mp (List.mem_of_find?_eq_some hfound)
      have hhash := List.find?_some hfound
      refine ⟨by rw [Tx.add_writes, hw]; rfl, hA, (owns_of_lock _ _ (by simp)).holds, ⟨hrow, ?_⟩, husable.2.2⟩
      exact of_decide_eq_true hhash
    · cases hres

theorem seen_of_lookup {h : Uuid} {existing : Option HouseMember} {tx : DbTx} {d : Db}
    (hp : People env d) (ha : hasAccount d u = true) (hm : d.houseMembers.lookup (h, u) = existing)
    (hnote : ∀ m, existing = some m → m.leftAt ≠ none → Note.left h u ∈ tx.notes) :
    Seen apart h u existing tx d := by
  unfold Seen
  cases existing with
  | none => exact Or.inl hm
  | some m =>
    dsimp only
    split
    · next hl => exact ⟨m, hm, (hp.member_of_account ha hm).1, hl⟩
    · next hl =>
      refine ⟨hnote m rfl hl, by rw [hm]; exact fun hnone => (by cases hnone), fun _ hact => ?_⟩
      obtain ⟨m', hm', hl'⟩ := active_iff.mp hact
      rw [hm] at hm'
      cases hm'
      exact hl hl'

theorem triple_selectExisting :
    (invitesProtocol env apart).Triple
      (fun tx d => tx.writes = {} ∧ AcceptHeld env token u id invite tx d)
      (selectExisting invite.houseId u)
      fun existing => Looked env apart token u id invite existing := by
  refine triple_exec ((stable_const _).and (passive_acceptHeld fun _ => True).stable) ?_
  rintro tx d now existing ⟨hw, hA⟩ hi hres
  dsimp only at hres ⊢
  cases hres
  rw [view_nothing hw]
  refine ⟨by rw [Tx.add_writes, hw]; rfl, hA.add _, seen_of_lookup hi.1.people hA.account rfl ?_⟩
  intro m hm hl
  refine List.mem_append_right _ ?_
  simp [hm, Option.isSome_iff_ne_none, hl]

/-- The claimer is not the placeholder. -/
theorem triple_lockBound_other {existing : Option HouseMember} :
    (invitesProtocol env apart).Triple (Looked env apart token u id invite existing) (lockBound invite)
      fun _ tx d => Looked env apart token u id invite existing tx d ∧
        invite.placeholderUserId ≠ some u := by
  unfold lockBound
  split
  · next p hbound =>
    refine triple_exec_passive passive_looked (fun _ => rfl) ?_
    rintro tx d now roomId hA hi hres heq
    obtain rfl : p = u := Option.some.inj (hbound.symm.trans heq)
    dsimp only at hres
    rw [view_nothing hA.writes] at hres
    cases hm : d.houseMembers.lookup (invite.houseId, p) with
    | none => simp [hm] at hres
    | some m =>
      have hreal := (hi.1.people.member_of_account hA.held.account hm).1
      simp [hm, Option.filter, hreal] at hres
  · next hnone => exact triple_pure fun tx d hA => ⟨hA, by rw [hnone]; exact fun h => by cases h⟩

/-- An accept that takes a use, with the invites and the joins that it has
    written so far. -/
structure Enters (env : Env) (apart : Prop) (token : JsString) (u id : Uuid) (invite : Invite)
    (uses : Edits Uuid Invite) (joins : List ActivityEvent) (already : Bool) (tx : DbTx) (d : Db) :
    Prop where
  held : AcceptHeld env token u id invite tx d
  entry : Entry apart invite.houseId u invite.placeholderUserId tx d already
  others : ∀ k o, (k, o) ∈ tx.writes.houseMembers →
    k = (invite.houseId, u) ∨ ∃ m, o = some m ∧ m.leftAt ≠ none
  invites : tx.writes.invites = uses
  joins : tx.writes.joins = joins

/-- Writes that leave alone the membership of `u`, the invites and who joined. -/
structure Writes.Outside (h u : Uuid) (w : Writes) : Prop where
  own : Table.lastEdit w.houseMembers (h, u) = none
  others : ∀ k o, (k, o) ∈ w.houseMembers → ∃ m, o = some m ∧ m.leftAt ≠ none
  invites : w.invites = []
  joins : w.joins = []

theorem Writes.joins_append (w w' : Writes) : (w.append w').joins = w.joins ++ w'.joins := by
  simp [Writes.joins, Writes.append]

theorem Entry.rely {h : Uuid} {bound : Option Uuid} {already : Bool} {tx : DbTx} {d d' : Db}
    (hA : Entry apart h u bound tx d already) (hr : InvitesRely apart tx d d') :
    Entry apart h u bound tx d' already := by
  have hsame : ∀ o, Table.lastEdit tx.writes.houseMembers (h, u) = some o →
      d'.houseMembers.lookup (h, u) = d.houseMembers.lookup (h, u) := fun o ho =>
    hr.frame (.member h u) (Or.inl (Writes.mem_written.mpr
      (List.mem_map.mpr ⟨((h, u), o), Table.mem_of_lastEdit ho, rfl⟩)))
  cases hA with
  | stayed here hedit => exact .stayed (here.persist hr.persist) hedit
  | roomed old room hold hactive hroom hbound hedit =>
    exact .roomed old room ((hsame _ hedit).trans hold) hactive hroom hbound hedit
  | joined m hactive hnew hedit =>
    refine .joined m hactive (fun ha hact => hnew ha ?_) hedit
    rwa [Active, activeMember, hsame _ hedit] at hact

theorem passive_enters {uses : Edits Uuid Invite} {joins : List ActivityEvent} {already : Bool} :
    (invitesProtocol env apart).Passive (Writes.Outside invite.houseId u)
      (Enters env apart token u id invite uses joins already) where
  stable tx d d' hr hi hA := ⟨(passive_acceptHeld fun _ => True).stable tx d d' hr hi hA.held,
    hA.entry.rely hr, hA.others, hA.invites, hA.joins⟩
  step tx d e hq hA := by
    refine ⟨hA.held.add e, ?_, ?_, ?_, ?_⟩
    · have hedit : Table.lastEdit (tx.add e).writes.houseMembers (invite.houseId, u) =
          Table.lastEdit tx.writes.houseMembers (invite.houseId, u) := by
        simp [Writes.append, Table.lastEdit_append, hq.own]
      cases hA.entry with
      | stayed here h => exact .stayed here (hedit.trans h)
      | roomed old room hold hactive hroom hbound h => exact .roomed old room hold hactive hroom hbound (hedit.trans h)
      | joined m hactive hnew h => exact .joined m hactive hnew (hedit.trans h)
    · intro k o hmem
      rcases List.mem_append.mp hmem with hmem | hmem
      · exact hA.others k o hmem
      · exact Or.inr (hq.others k o hmem)
    · simp [Writes.append, hA.invites, hq.invites]
    · rw [Tx.add_writes, Writes.append_eq, Writes.joins_append, hA.joins, hq.joins, List.append_nil]

/-- The state after one membership row was written, and nothing else. -/
theorem Looked.joined {existing : Option HouseMember} {tx : DbTx} {d : Db} {m : HouseMember}
    (hA : Looked env apart token u id invite existing tx d) (hactive : m.leftAt = none)
    (hnew : apart → ¬ Active d invite.houseId u) (locks : Locks LockKey) :
    Enters env apart token u id invite [] [] false
      (tx.add { locks := locks, writes := { houseMembers := [((invite.houseId, u), some m)] } }) d := by
  have hwrites : (tx.add { locks := locks, writes := { houseMembers := [((invite.houseId, u), some m)] } }).writes
      = { houseMembers := [((invite.houseId, u), some m)] } := by
    rw [Tx.add_writes, hA.writes]
    rfl
  refine ⟨hA.held.add _, .joined m hactive hnew ?_, ?_, ?_, ?_⟩
  · rw [hwrites]
    simp [Table.lastEdit]
  · rw [hwrites]
    intro k o hmem
    exact Or.inl (Prod.mk.inj (List.mem_singleton.mp hmem)).1
  · rw [hwrites]
  · rw [hwrites]
    rfl

theorem Looked.stayed {existing : Option HouseMember} {tx : DbTx} {d : Db}
    (hA : Looked env apart token u id invite existing tx d) (here : Here invite.houseId u d) :
    Enters env apart token u id invite [] [] true tx d := by
  refine ⟨hA.held, .stayed here ?_, ?_, ?_, ?_⟩ <;> rw [hA.writes]
  · rfl
  · exact fun _ _ h => by cases h
  · rfl

theorem triple_becomeMember_enters {existing : Option HouseMember} {roomId : Option Uuid}
    {startedAt : Millis} :
    (invitesProtocol env apart).Triple (Looked env apart token u id invite existing)
      (becomeMember invite u existing roomId startedAt)
      fun member tx d => match member with
        | none => tx.writes = {} ∧ AcceptHeld env token u id invite tx d ∧
            invite.placeholderUserId = none ∧ Here invite.houseId u d
        | some already => Enters env apart token u id invite [] [] already tx d := by
  unfold becomeMember
  split
  · -- no row was read: insert, unless another accept has done so
    refine triple_bind (B := fun inserted tx d => if inserted
      then Enters env apart token u id invite [] [] false tx d
      else Looked env apart token u id invite none tx d ∧ Here invite.houseId u d) ?_ fun inserted => ?_
    · refine triple_exec passive_looked.stable fun tx d now inserted hA hi hres => ?_
      dsimp only at hres ⊢
      rw [view_nothing hA.writes] at hres ⊢
      split at hres
      · -- somebody else has inserted the row
        next hconflict =>
        cases hres
        rw [if_pos hconflict]
        refine ⟨passive_looked.step tx d _ rfl hA, ?_⟩
        rcases hA.seen with hnone | hhere
        · rw [hnone] at hconflict
          cases hconflict
        · exact hhere
      · next hconflict =>
        split at hres
        · cases hres
          rw [if_neg hconflict]
          refine hA.joined rfl (fun _ hact => hconflict ?_) _
          obtain ⟨m, hm, _⟩ := active_iff.mp hact
          rw [hm]
          rfl
        · cases hres
    · cases inserted with
      | true => exact triple_pure fun _ _ hA => hA
      | false =>
        -- without a placeholder that is a no-op, with one the claim goes on
        by_cases hplain : invite.placeholderUserId = none
        · simp only [hplain, if_true]
          exact triple_pure fun tx d hA => ⟨hA.1.writes, hA.1.held, trivial, hA.2⟩
        · simp only [hplain, if_false]
          exact triple_pure fun tx d hA => hA.1.stayed hA.2
  · next m =>
    split
    · -- the row that was read is active, and stays so
      next hl =>
      refine triple_pure fun tx d hA => hA.stayed ?_
      have hseen := hA.seen
      unfold Seen at hseen
      dsimp only at hseen
      rwa [if_pos hl] at hseen
    · next hl =>
      -- the user has left, and comes back
      refine triple_bind (B := fun _ => Enters env apart token u id invite [] [] false) ?_
        fun _ => triple_pure fun _ _ hA => hA
      refine triple_exec passive_looked.stable fun tx d now _ hA hi hres => ?_
      have hseen := hA.seen
      unfold Seen at hseen
      dsimp only at hseen
      rw [if_neg hl] at hseen
      obtain ⟨m₀, hm₀⟩ := Option.ne_none_iff_exists'.mp hseen.2.1
      dsimp only
      rw [view_nothing hA.writes]
      simp only [hm₀, Option.filter, if_true]
      exact hA.joined rfl hseen.2.2 _

/-- A room for a member without one. -/
theorem triple_inheritRoom_enters {roomId : Option Uuid} (hbound : invite.placeholderUserId ≠ none)
    {already : Bool} :
    (invitesProtocol env apart).Triple (Enters env apart token u id invite [] [] already)
      (inheritRoom invite.houseId u roomId)
      fun _ => Enters env apart token u id invite [] [] already := by
  unfold inheritRoom
  split
  · next hroom =>
    obtain ⟨room, rfl⟩ := Option.isSome_iff_exists.mp hroom
    refine triple_exec passive_enters.stable fun tx d now _ hA hi hres => ?_
    have hlook : (tx.view d now).db.houseMembers.lookup (invite.houseId, u) =
        (Table.lastEdit tx.writes.houseMembers (invite.houseId, u)).getD
          (d.houseMembers.lookup (invite.houseId, u)) := Table.lookup_patch _ _ _
    dsimp only
    generalize hhit : Option.filter _ ((tx.view d now).db.houseMembers.lookup (invite.houseId, u)) = hit
    cases hit with
    | none =>
      -- the member has a room already, or none is there to update
      exact passive_enters.step tx d _ ⟨rfl, fun _ _ h => (by cases h), rfl, rfl⟩ hA
    | some m =>
      obtain ⟨hrow, hfree⟩ := Option.filter_eq_some_iff.mp hhit
      rw [Bool.and_eq_true, decide_eq_true_eq, decide_eq_true_eq] at hfree
      rw [hrow] at hlook
      have hedit : ∀ locks : Locks LockKey, Table.lastEdit (tx.add
          { locks := locks, writes := { houseMembers := [((invite.houseId, u), some { m with roomId := some room })] } }
            ).writes.houseMembers (invite.houseId, u) = some (some { m with roomId := some room }) := by
        intro locks
        simp [Writes.append, Table.lastEdit_append, Table.lastEdit]
      refine ⟨hA.held.add _, ?_, ?_, ?_, ?_⟩
      · -- at most one edit has been made to this row before
        cases hA.entry with
        | stayed here hnone =>
          rw [hnone] at hlook
          exact .roomed m room hlook.symm hfree.2 hfree.1 hbound (hedit _)
        | roomed old room' _ _ _ _ hsome =>
          rw [hsome] at hlook
          cases hlook
          cases hfree.1
        | joined m' _ hnew hsome =>
          exact .joined { m with roomId := some room } hfree.2 hnew (hedit _)
      · intro k o hmem
        rcases List.mem_append.mp hmem with hmem | hmem
        · exact hA.others k o hmem
        · exact Or.inl (Prod.mk.inj (List.mem_singleton.mp hmem)).1
      · simp [Writes.append, hA.invites]
      · rw [Tx.add_writes, Writes.append_eq, Writes.joins_append, hA.joins]
        rfl
  · exact triple_pure fun _ _ hA => hA

theorem outside_nothing {h : Uuid} : Writes.Outside h u {} := ⟨rfl, fun _ _ h => (by cases h), rfl, rfl⟩

theorem outside_event {h : Uuid} {e : ActivityEvent} (he : e.type ≠ .memberJoined) :
    Writes.Outside h u { activityEvents := [e] } :=
  ⟨rfl, fun _ _ h => (by cases h), rfl, by simp [Writes.joins, he]⟩

theorem triple_claimBound_enters {roomId : Option Uuid} {already : Bool}
    (hother : invite.placeholderUserId ≠ some u) :
    (invitesProtocol env apart).Triple (Enters env apart token u id invite [] [] already)
      (claimBound invite u roomId) fun _ => Enters env apart token u id invite [] [] already := by
  unfold claimBound
  split
  · next p hbound =>
    have hpu : (invite.houseId, u) ≠ (invite.houseId, p) := fun heq =>
      hother (by rw [hbound, (Prod.mk.inj heq).2])
    refine triple_bind (triple_inheritRoom_enters (by rw [hbound]; exact fun h => by cases h)) fun _ =>
      triple_bind (triple_passive passive_enters (only_claimHistory_row outside_nothing ?_ ?_ ?_ ?_ ?_))
        fun events => triple_bind (triple_passive passive_enters (only_log (outside_event ?_)))
          fun _ => triple_pure fun _ _ hA => hA
    · exact fun _ => ⟨rfl, fun _ _ h => (by cases h), rfl, rfl⟩
    · exact fun _ => ⟨rfl, fun _ _ h => (by cases h), rfl, rfl⟩
    · exact fun e he => outside_event (by rw [he]; decide)
    · intro now m
      refine ⟨?_, ?_, rfl, rfl⟩
      · simp [Table.lastEdit, hpu.symm]
      · intro k o hmem
        exact ⟨_, (Prod.mk.inj (List.mem_singleton.mp hmem)).2, fun h => by cases h⟩
    · exact fun _ => ⟨rfl, fun _ _ h => (by cases h), rfl, rfl⟩
    · exact fun h => by cases h
  · exact triple_pure fun _ _ hA => hA

theorem triple_consumeUse_enters {already : Bool} :
    (invitesProtocol env apart).Triple (Enters env apart token u id invite [] [] already)
      (consumeUse id) fun _ => Enters env apart token u id invite
        [(id, some { invite with uses := invite.uses + 1 })] [] already := by
  refine triple_exec passive_enters.stable fun tx d now _ hA hi hres => ?_
  have hrow : (tx.view d now).db.invites.lookup id = some invite := by
    show (d.invites.patch tx.writes.invites).lookup id = some invite
    rw [hA.invites, Table.patch_nil]
    exact hA.held.found.1
  dsimp only
  rw [hrow]
  refine ⟨hA.held.add _, ?_, ?_, ?_, ?_⟩
  · have hedit : Table.lastEdit (tx.add { writes := { invites :=
        [(id, some { invite with uses := invite.uses + 1 })] } }).writes.houseMembers (invite.houseId, u) =
        Table.lastEdit tx.writes.houseMembers (invite.houseId, u) := by
      simp [Writes.append]
    cases hA.entry with
    | stayed here h => exact .stayed here (hedit.trans h)
    | roomed old room hold hactive hroom hbound h => exact .roomed old room hold hactive hroom hbound (hedit.trans h)
    | joined m hactive hnew h => exact .joined m hactive hnew (hedit.trans h)
  · intro k o hmem
    exact hA.others k o (by simpa [Writes.append] using hmem)
  · simp [Writes.append, hA.invites]
  · rw [Tx.add_writes, Writes.append_eq, Writes.joins_append, hA.joins]
    rfl

theorem triple_logJoined_enters {already : Bool} :
    (invitesProtocol env apart).Triple
      (Enters env apart token u id invite [(id, some { invite with uses := invite.uses + 1 })] [] already)
      (logJoined invite.houseId u already)
      fun _ => Enters env apart token u id invite [(id, some { invite with uses := invite.uses + 1 })]
        (if already then [] else [joinedEvent invite.houseId u]) already := by
  unfold logJoined
  cases already with
  | true => exact triple_pure fun _ _ hA => hA
  | false =>
    refine triple_bind (B := fun _ => Enters env apart token u id invite
      [(id, some { invite with uses := invite.uses + 1 })] [joinedEvent invite.houseId u] false) ?_
      fun _ => triple_bind (triple_pure fun _ _ hA => hA) fun _ => triple_pure fun _ _ hA => hA
    refine triple_exec passive_enters.stable fun tx d now _ hA hi hres => ?_
    refine ⟨hA.held.add _, ?_, ?_, ?_, ?_⟩
    · cases hA.entry with
      | joined m hactive hnew h => exact .joined m hactive hnew (by simpa [Writes.append] using h)
    · intro k o hmem
      exact hA.others k o (by simpa [Writes.append] using hmem)
    · simp [Writes.append, hA.invites]
    · rw [Tx.add_writes, Writes.append_eq, Writes.joins_append, hA.joins]
      rfl

theorem Enters.guar {already : Bool} {tx : DbTx} {d : Db}
    (hA : Enters env apart token u id invite [(id, some { invite with uses := invite.uses + 1 })]
      (if already then [] else [joinedEvent invite.houseId u]) already tx d) :
    AcceptGuar env apart token u tx d :=
  .used id invite already hA.held.found hA.held.isOpen hA.invites hA.entry hA.others hA.joins

/-- What a finished accept guarantees stays so until the commit. -/
theorem stable_acceptGuar : (invitesProtocol env apart).Stable
    fun tx d => ∃ id invite, AcceptHeld env token u id invite tx d ∧
      ((tx.writes = {} ∧ invite.placeholderUserId = none ∧ Here invite.houseId u d) ∨
        ∃ already, Enters env apart token u id invite
          [(id, some { invite with uses := invite.uses + 1 })]
          (if already then [] else [joinedEvent invite.houseId u]) already tx d) := by
  rintro tx d d' hr hi ⟨id, invite, hA, hcase⟩
  refine ⟨id, invite, (passive_acceptHeld fun _ => True).stable tx d d' hr hi hA, ?_⟩
  rcases hcase with ⟨hw, hplain, hhere⟩ | ⟨already, hE⟩
  · exact Or.inl ⟨hw, hplain, hhere.persist hr.persist⟩
  · exact Or.inr ⟨already, passive_enters.stable tx d d' hr hi hE⟩

theorem triple_acceptInvite_enters {startedAt : Millis} :
    (invitesProtocol env apart).Triple (fun tx d => tx.writes = {} ∧ hasAccount d u = true)
      (acceptInviteTx env token u startedAt)
      fun _ tx d => ∃ id invite, AcceptHeld env token u id invite tx d ∧
      ((tx.writes = {} ∧ invite.placeholderUserId = none ∧ Here invite.houseId u d) ∨
        ∃ already, Enters env apart token u id invite
          [(id, some { invite with uses := invite.uses + 1 })]
          (if already then [] else [joinedEvent invite.houseId u]) already tx d) := by
  refine triple_bind triple_lockInvite_found fun r => ?_
  obtain ⟨id, invite⟩ := r
  refine triple_bind triple_selectExisting fun existing => ?_
  dsimp only
  split
  · next hnoop =>
    refine triple_pure fun tx d hA => ⟨id, invite, hA.held, Or.inl ⟨hA.writes, hnoop.2, ?_⟩⟩
    obtain ⟨m, rfl, hl⟩ := (Option.any_eq_true _ _).mp hnoop.1
    have hseen := hA.seen
    unfold Seen at hseen
    dsimp only at hseen
    rwa [if_pos (of_decide_eq_true hl)] at hseen
  · refine triple_bind triple_lockBound_other fun roomId => ?_
    refine triple_bind (B := fun member tx d => (match member with
        | none => tx.writes = {} ∧ AcceptHeld env token u id invite tx d ∧
            invite.placeholderUserId = none ∧ Here invite.houseId u d
        | some already => Enters env apart token u id invite [] [] already tx d) ∧
        invite.placeholderUserId ≠ some u) ?_ fun member => ?_
    · exact triple_weaken (triple_and triple_becomeMember_enters
        (triple_passive (passive_const (fun _ => True) (invite.placeholderUserId ≠ some u))
          (Txn.only_true _))) (fun _ _ hA => hA) fun _ _ _ hB => hB
    · split
      · exact triple_pure fun tx d hA =>
          ⟨id, invite, hA.1.2.1, Or.inl ⟨hA.1.1, hA.1.2.2.1, hA.1.2.2.2⟩⟩
      · next already =>
        intro tx d hA
        refine triple_weaken (triple_bind (triple_claimBound_enters hA.2) fun _ =>
          triple_bind triple_consumeUse_enters fun _ => triple_bind triple_logJoined_enters fun _ =>
          triple_pure fun tx d hE => ?_) (fun _ _ hA => hA) (fun _ _ _ hB => hB) tx d hA.1
        exact ⟨id, invite, hE.held, Or.inr ⟨already, hE⟩⟩

end accept

/-! ## Section 5: The protocol holds -/

/-- What the assumption of the protocol says about a commit and another
    open transaction. -/
def InvitesApart (apart : Prop) (c : HomiCommit) (tx : DbTx) : Prop :=
  apart → ∀ h u, Note.left h u ∈ tx.notes → Active c.after h u → Active c.before h u

theorem createInvite_keeps {h : JsString} {u : Uuid} {placeholderId : Option JsString}
    {expiresAt : Millis} : Keeps (invitesProtocol env apart) (.createInvite h u placeholderId)
      (createInviteTx env (toUuid h) u (placeholderId.map toUuid) expiresAt) := by
  intro k hk seen d
  refine safe_of_triple (A := fun tx _ => tx.writes = {}) (B := fun _ tx d => ∃ i r, AddsInvite env i r tx d)
    ?_ rfl (fun _ => ?_) (fun _ _ _ hA _ => hA) (fun a _ _ _ _ => hk (.ok a) _ _) fun e _ => hk (.error e) _ _
  · have hnothing : (invitesProtocol env apart).Passive (fun w => w = {}) fun tx _ => tx.writes = {} :=
      passive_writes (p := fun w : Writes => w = {}) (q := fun w => w = {}) fun w w' hw hw' => by
        rw [hw, hw']
        rfl
    refine triple_bind (triple_passive hnothing (only_checkBound (p := fun w : Writes => w = {}) rfl)) fun _ => ?_
    refine triple_exec (stable_const _) fun tx d now r hA hi hres => ?_
    dsimp only at hres ⊢
    rw [view_nothing hA] at hres ⊢
    split at hres
    · cases hres
    · next hfree =>
      have hwrites : ∀ e : Effect Writes LockKey Note, (tx.add e).writes.invites = e.writes.invites := by
        intro e
        rw [Tx.add_writes, hA]
        rfl
      refine ⟨env.uuid d.fresh, _, hwrites _, ⟨d.fresh, Nat.lt_succ_self _, rfl⟩, ?_, rfl, ?_, ?_⟩
      · cases hrow : d.invites.lookup (env.uuid d.fresh) with
        | none => rfl
        | some q =>
          obtain ⟨n, hn, heq⟩ := hi.2.ids _ q hrow
          exact absurd (env.uuid_inj heq) (Nat.ne_of_gt hn)
      · exact owns_of_lock _ _ (List.mem_singleton_self _)
      · intro j q hq heq
        refine hfree (List.any_eq_true.mpr ⟨(j, q), Table.mem_rows.mpr hq, ?_⟩)
        simpa using heq
  · rintro tx d d' hr hi ⟨i, r, hA⟩
    have hsame : d'.invites.lookup i = d.invites.lookup i :=
      hr.frame (.invite i) (Or.inl (Writes.mem_written.mpr (by rw [hA.invites]; exact List.mem_singleton_self _)))
    obtain ⟨n, hn, hid⟩ := hA.id
    refine ⟨i, r, hA.invites, ⟨n, lt_of_lt_of_le hn hr.fresh, hid⟩, hsame.trans hA.free, hA.unused,
      hA.owns, fun j q hq heq => ?_⟩
    cases hold : d.invites.lookup j with
    | none => exact hr.tokens j q hq hold (by rw [heq]; exact hA.owns.holds)
    | some q₀ =>
      obtain ⟨q', hq', hlater⟩ := hr.invites j q₀ hold
      rw [hq] at hq'
      cases hq'
      exact hA.unique j q₀ hold (hlater.tokenHash.symm.trans heq)

theorem invites_safe (c : Call) (d : Db) (hadm : (homi env).admits d c = true) :
    (invitesProtocol env apart).Safe c (route env c) d Tx.empty d := by
  cases c with
  | acceptInvite token u =>
    have hd : hasAccount d u = true := by simpa [homi, admits, Call.user?] using hadm
    rw [route, acceptInvite]
    refine safe_transact_logged (A := fun tx d => tx.writes = {} ∧ hasAccount d u = true)
      (triple_bind (triple_begin ?_) fun _ => triple_acceptInvite_enters) ⟨rfl, hd⟩
      (fun _ => stable_acceptGuar) ?_ fun r => ?_
    · exact (stable_const fun tx : DbTx => tx.writes = {}).and fun _ _ _ hr _ hA => hasAccount_rely hA hr.persist
    · rintro _ tx d ⟨id, invite, hheld, ⟨hw, hplain, hhere⟩ | ⟨already, hE⟩⟩ _
      · exact .noop id invite hheld.found hplain hhere hw
      · exact hE.guar
    · cases r <;> exact always_done fun _ => trivial
  | createInvite h u placeholderId =>
    exact always_route (fun _ _ => trivial)
      (show KeepsAll (invitesProtocol env apart) env (.createInvite h u placeholderId) from
        fun _ => createInvite_keeps) _ _
  | _ => exact safe_trivial (fun _ _ _ => trivial) (fun _ _ => trivial) _ _ _ _

theorem invitesBase_empty (env : Env) : InvitesBase env Db.empty :=
  ⟨fun _ _ h => (by cases h), fun _ _ h => (by cases h), fun _ _ _ _ h => (by cases h)⟩

theorem invites_lawful :
    (invitesProtocol env apart).Lawful (homi env) (Known env) (InvitesApart apart) where
  rely_refl tx d := ⟨Persist.refl d, Frame.refl tx d, le_refl _, .refl d,
    fun i r h h' => (by rw [h] at h'; cases h'), fun _ _ _ _ h => h⟩
  rely_trans tx a b d h h' := by
    refine ⟨h.persist.trans h'.persist, h.frame.trans h'.frame, h.fresh.trans h'.fresh,
      h.invites.trans h'.invites, fun i r hr hnone => ?_, fun ha k u hnote hact =>
        h.left ha k u hnote (h'.left ha k u hnote hact)⟩
    cases hb : b.invites.lookup i with
    | none => exact h'.tokens i r hr hb
    | some r₀ =>
      obtain ⟨r', hr', hlater⟩ := h'.invites i r₀ hb
      rw [hr] at hr'
      cases hr'
      rw [hlater.tokenHash]
      exact h.tokens i r₀ hb hnone
  rely_tick tx n d _ := ⟨(LedgerRely.tick tx n d : LedgerRely False False _ _ _).toPersist,
    Frame.tick tx n d, Nat.le_add_right _ _, .refl d,
    fun i r h h' => (by rw [show d.invites.lookup i = some r from h] at h'; cases h'), fun _ _ _ _ h => h⟩
  inv_tick n d h := ⟨h.1.tick n, fun i r hr => by
    obtain ⟨m, hm, hid⟩ := h.2.ids i r hr
    exact ⟨m, lt_of_lt_of_le hm (Nat.le_add_right _ _), hid⟩, h.2.uses, h.2.tokens⟩
  inv_init := ⟨ledgerBase_empty env, invitesBase_empty env⟩
  inv_commit c hk hi hg _ := ⟨hk.after, (hk.inviteCommit hg).base hi.2⟩
  rely_commit c tx hk _ hg hheld' hheld hc hap := ⟨hk.step.toPersist, Frame.commit hc hheld hheld',
    le_refl _, (hk.inviteCommit hg).step, fun i r hr hnone =>
      not_holds_of_owns hc hheld hheld' ((hk.inviteCommit hg).new hr hnone).owns, hap⟩
  apart_empty _ _ _ _ h := by cases h
  start c d _ hadm := invites_safe c d hadm
  killed _ _ _ _ := trivial

/-- Nobody makes a user an active member while another open accept of that
    user has read that the user left. -/
def RejoinsApart (s : HomiState) (a : Action Call) : Prop :=
  ∀ c, Commits s a c → ∀ q qr, q ≠ c.pid → s.procs[q]? = some qr →
    ∀ h u, Note.left h u ∈ qr.tx.notes → Active c.after h u → Active c.before h u

section runs

variable {d₀ : Db} {s : HomiState}

/-- The protocol in runs that start on any database that meets it. -/
theorem invites_from (apart : Prop) (hd : LedgerBase env d₀) (hi : InvitesBase env d₀)
    {ok : HomiState → Action Call → Prop} (h : Run (homiFrom env d₀) ok s)
    (ha : apart → ∀ s a, ok s a → RejoinsApart s a) : (invitesProtocol env apart).Holds s :=
  Protocol.sound (invites_lawful.from ⟨hd, hi⟩)
    { allows := fun _ _ _ _ _ _ => trivial
      stops := fun _ _ _ _ _ => trivial
      apart := fun s a c q qr hok hcommit hq hp hap => ha hap s a hok c hcommit q qr hq hp
      known := fun _ hs => known_from hd hs } h

theorem inviteCommit_from (apart : Prop) (hd : LedgerBase env d₀) (hi : InvitesBase env d₀)
    {ok : HomiState → Action Call → Prop} (h : Run (homiFrom env d₀) ok s)
    (ha : apart → ∀ s a, ok s a → RejoinsApart s a) : ∀ c ∈ s.wal, InviteCommit env apart c :=
  fun c hc => (known_from hd h c hc).inviteCommit ((invites_from apart hd hi h ha).commits c hc).2

end runs

/-! ## Section 6: Members who left

    No call makes a user leave a house. Runs may start on a database of a
    run from which members have been removed since. -/

/-- `d'` is `d` after some users have left some houses. -/
structure Removed (d d' : Db) : Prop where
  same : d' = { d with houseMembers := d'.houseMembers }
  absent : ∀ k, d.houseMembers.lookup k = none → d'.houseMembers.lookup k = none
  kept : ∀ k m, d.houseMembers.lookup k = some m → d'.houseMembers.lookup k = some m ∨
    m.isPlaceholder = false ∧ ∃ t, d'.houseMembers.lookup k = some { m with leftAt := some t }

/-- The databases that a run may start on. -/
def Resumes (env : Env) (d₀ : Db) : Prop := ∃ s, HomiReachable env s ∧ Removed s.db d₀

theorem Removed.old {d d' : Db} (h : Removed d d') {k : Uuid × Uuid} {m' : HouseMember}
    (hm : d'.houseMembers.lookup k = some m') : ∃ m, d.houseMembers.lookup k = some m ∧
      m'.isPlaceholder = m.isPlaceholder ∧ m'.claimedBy = m.claimedBy ∧
      (m.isPlaceholder = true → m'.leftAt = m.leftAt) := by
  cases hold : d.houseMembers.lookup k with
  | none => rw [h.absent k hold] at hm; cases hm
  | some m =>
    rcases h.kept k m hold with hsame | ⟨hreal, t, hleft⟩
    · rw [hm] at hsame
      cases hsame
      exact ⟨_, rfl, rfl, rfl, fun _ => rfl⟩
    · rw [hm] at hleft
      cases hleft
      exact ⟨m, rfl, rfl, rfl, fun hpl => by rw [hreal] at hpl; cases hpl⟩

theorem Removed.ledgerBase {d d' : Db} (h : Removed d d') (hb : LedgerBase env d) : LedgerBase env d' := by
  have hp := hb.people
  have hk := hb.bookings
  rw [h.same]
  refine ⟨⟨hp.ids, fun k u m' hm' => ?_, fun k k' u m₁ m₂ h₁ h₂ hpl => ?_, fun k u m' hm' hpl => ?_,
    fun k u m' hm' hcl => ?_, fun k u m' c hm' hcl => ?_⟩, ⟨hk.ids, hk.amount, hk.rids, hk.expense, hk.nonneg,
    hk.slot, fun rid r hr k m' hm' => ?_⟩⟩
  · obtain ⟨m, hm, hsame, _⟩ := h.old hm'
    rw [hsame]
    exact hp.user k u m hm
  · obtain ⟨n₁, hn₁, hsame, _⟩ := h.old h₁
    obtain ⟨n₂, hn₂, _⟩ := h.old h₂
    exact hp.home k k' u n₁ n₂ hn₁ hn₂ (hsame ▸ hpl)
  · obtain ⟨m, hm, hsame, hclaim, hleft⟩ := h.old hm'
    rw [hclaim, hleft (hsame ▸ hpl)]
    exact hp.left k u m hm (hsame ▸ hpl)
  · obtain ⟨m, hm, hsame, hclaim, _⟩ := h.old hm'
    rw [hsame]
    exact hp.claimed k u m hm (hclaim ▸ hcl)
  · obtain ⟨m, hm, _, hclaim, _⟩ := h.old hm'
    exact hp.claimer k u m c hm (hclaim ▸ hcl)
  · obtain ⟨m, hm, _, hclaim, _⟩ := h.old hm'
    rw [hclaim]
    exact hk.holder rid r hr k m hm

theorem Removed.invitesBase {d d' : Db} (h : Removed d d') (hb : InvitesBase env d) :
    InvitesBase env d' := by
  rw [h.same]
  exact ⟨hb.ids, hb.uses, hb.tokens⟩

theorem Resumes.base {d₀ : Db} (h : Resumes env d₀) : LedgerBase env d₀ ∧ InvitesBase env d₀ := by
  obtain ⟨s, hs, hremoved⟩ := h
  have hinv := (invites_from False (ledgerBase_empty env) (invitesBase_empty env) hs False.elim).inv
  exact ⟨hremoved.ledgerBase hinv.1, hremoved.invitesBase hinv.2⟩

end Homi
