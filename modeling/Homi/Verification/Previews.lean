import Homi.Framework.Alone
import Homi.Verification.Households
import Homi.Verification.Prompts

/-! # Previews of invites

  What `previewInvite` says of a token against what an accept of it does,
  run alone from the same state at the same instant.

  The preview looks at the claim of the placeholder only, the accept at
  three columns. That they agree is the invariant `People.left`, and that
  an accept with a good invite never fails is up to the rows that the
  invite and the placeholder refer to (`Housed`).
-/

namespace Homi

open ReadCommitted

variable {env : Env}

/-! ## Section 1: Claims, run alone -/

section claim

variable {h p u : Uuid} {d : Db} {w : Writes} {now : ℕ}

/-- The placeholder has no split next to one of the claimer. -/
def Swept (p u : Uuid) (d : Db) : Prop :=
  ∀ rid s, d.split rid = some s → s.userId = p → d.hasSplit s.expenseId u = false

/-- The live rows after some slots were cleared. -/
theorem split_cleared {d d' : Db} {rows : List (Rid × Split)}
    (h : d'.expenseSplits = d.expenseSplits.patch (rows.map fun r => (r.1, some none)))
    {rid : Rid} {s : Split} (hs : d'.split rid = some s) :
    d.split rid = some s ∧ ∀ s', (rid, s') ∉ rows := by
  rw [Db.split_eq_some, h, Table.lookup_patch] at hs
  cases hedit : Table.lastEdit (rows.map fun r => ((r.1, some none) : Rid × Option (Option Split))) rid with
  | none =>
    rw [hedit] at hs
    refine ⟨Db.split_eq_some.mpr hs, fun s' hmem => Table.lastEdit_eq_none.mp hedit ?_⟩
    exact List.mem_map.mpr ⟨(rid, some none), List.mem_map.mpr ⟨(rid, s'), hmem, rfl⟩, rfl⟩
  | some o =>
    obtain ⟨r, _, heq⟩ := List.mem_map.mp (Table.mem_of_lastEdit hedit)
    obtain ⟨rfl, rfl⟩ := Prod.mk.inj heq
    rw [hedit] at hs
    cases hs

theorem Writes.splits_append {w w' : Writes} {d : Db} {n : ℕ} :
    ((WriteSet.append w w' : Writes).apply (tick n d)).expenseSplits =
      (w.apply d).expenseSplits.patch w'.expenseSplits := Table.patch_append _ _ _

/-- After the delete, whatever was there before. -/
theorem runs_sweepSplits : (sweepSplits p u).Runs (fun _ _ => True)
    fun _ d w => Swept p u (w.apply d) := by
  have hnothing : ∀ w : Writes, WriteSet.append w {} = w := LawfulStore.append_nothing (D := Db)
  refine Txn.runs_bind (B := fun found d w => found =
      ((w.apply d).splitsOfUser p).filter fun theirs =>
        (w.apply d).hasSplit theirs.2.expenseId u) (Txn.runs_exec fun now d w _ => ?_)
    fun found => Txn.runs_exec fun now d w hfound => ⟨(), rfl, ?_⟩
  · exact ⟨_, rfl, by rw [hnothing, LawfulStore.tick_zero]; rfl⟩
  · -- what is left was there before, and was not found
    intro rid s hs hp
    obtain ⟨hs₀, hnot⟩ := split_cleared (by exact Writes.splits_append) hs
    rw [Bool.eq_false_iff]
    intro hhas
    obtain ⟨rid', s', hs', he', hu'⟩ := hasSplit_iff.mp hhas
    obtain ⟨hs'₀, _⟩ := split_cleared (by exact Writes.splits_append) hs'
    refine hnot s (List.mem_filter.mpr ⟨?_, ?_⟩)
    · rw [hfound]
      refine List.mem_filter.mpr ⟨List.mem_filter.mpr ⟨Db.mem_splitRows.mpr hs₀, by simpa using hp⟩, ?_⟩
      exact hasSplit_iff.mpr ⟨rid', s', hs'₀, he', hu'⟩
    · exact (Option.any_eq_true _ _).mpr ⟨s, hs₀, decide_eq_true hp⟩

/-- After the delete no renamed split meets one of the claimer. -/
theorem renames_free (hswept : Swept p u d) (found : List (Rid × Split)) :
    ¬ ((renameMatches p u found d).any fun r => splitTaken d r.2) = true := by
  intro htaken
  obtain ⟨⟨rid, s'⟩, hmatched, htaken⟩ := List.any_eq_true.mp htaken
  obtain ⟨_, s, hlook, hp, rfl⟩ := mem_renameMatches.mp hmatched
  -- the slot of the claimer would be taken by a split next to the placeholder's
  obtain ⟨⟨rid₁, s₁⟩, hmem, hsame⟩ := List.any_eq_true.mp htaken
  rw [decide_eq_true_eq] at hsame
  have hhas := hasSplit_iff.mpr ⟨rid₁, s₁, Db.mem_splitRows.mp hmem, hsame.1, hsame.2⟩
  exact absurd hhas (Bool.eq_false_iff.mp (hswept rid s hlook hp))

/-- The update does not run into the primary key. -/
theorem runs_reidentifySplits : (reidentifySplits p u).Runs (fun d w => Swept p u (w.apply d))
    fun _ _ _ => True := by
  have hnothing : ∀ w : Writes, WriteSet.append w {} = w := LawfulStore.append_nothing (D := Db)
  refine Txn.runs_bind (B := fun _ d w => Swept p u (w.apply d))
    (Txn.runs_select fun now d w hA => ?_) fun found =>
    Txn.runs_exec fun now d w hA => ⟨(), if_neg ?_, trivial⟩
  · rw [show WriteSet.append w nothing = w from hnothing w, LawfulStore.tick_zero]
    exact hA
  · exact renames_free hA found

theorem runs_logAll (events : List ActivityInput) :
    (logAll events).Runs (fun _ _ => True) fun _ _ _ => True := by
  induction events with
  | nil => exact Txn.runs_pure fun _ _ _ => trivial
  | cons event events ih =>
    exact Txn.runs_bind (Txn.runs_exec fun _ _ _ _ => ⟨_, rfl, trivial⟩) fun _ =>
      Txn.runs_bind ih fun _ => Txn.runs_pure fun _ _ _ => trivial

/-- A statement that does not throw. -/
theorem runs_exec_ok {α : Type} {act : View Db → Effect Writes LockKey Note} {a : View Db → α} :
    (Txn.exec act fun v => .ok (a v) : DbTxn α).Runs (fun _ _ => True) fun _ _ _ => True :=
  Txn.runs_exec fun _ _ _ _ => ⟨_, rfl, trivial⟩

theorem runs_reviseFolded {folded : List (Uuid × Expense)} :
    (reviseFolded h u folded).Runs (fun _ _ => True) fun _ _ _ => True := by
  unfold reviseFolded
  split
  · exact Txn.runs_pure fun _ _ _ => trivial
  · exact Txn.runs_bind (Txn.runs_select fun _ _ _ _ => trivial) fun _ =>
      Txn.runs_bind runs_exec_ok fun _ => runs_logAll _

/-- A claim run alone does not fail. -/
theorem runs_claimHistory : (claimHistory h p u).Runs (fun _ _ => True) fun _ _ _ => True :=
  Txn.runs_bind runs_exec_ok fun _ => Txn.runs_bind runs_reviseFolded fun _ =>
    Txn.runs_bind (Txn.runs_bind runs_exec_ok fun _ => runs_exec_ok) fun _ =>
    Txn.runs_bind runs_sweepSplits fun _ => Txn.runs_bind runs_reidentifySplits fun _ =>
    Txn.runs_bind runs_exec_ok fun _ => Txn.runs_bind runs_exec_ok fun _ =>
    Txn.runs_pure fun _ _ _ => trivial

end claim

/-! ## Section 2: Accepts, run alone -/

section accept

variable {h u : Uuid} {d₀ d : Db} {w : Writes} {now : ℕ} {α : Type} {invite : Invite} {id : Uuid}
  {roomId : Option Uuid} {token : JsString} {startedAt t : Millis}

/-- Writes to neither invites nor rooms. -/
def Writes.Uninvited (w : Writes) : Prop := w.invites = [] ∧ w.rooms = []

/-- An accept sees the invites and rooms as they were. -/
def Fit (d₀ : Db) (d : Db) (w : Writes) : Prop :=
  w.Uninvited ∧ (d.invites = d₀.invites ∧ d.rooms = d₀.rooms)

theorem Fit.seen_invites (hA : Fit d₀ d w) : (seen w d now).db.invites = d₀.invites := by
  show d.invites.patch w.invites = _
  rw [hA.1.1, Table.patch_nil, hA.2.1]

theorem Fit.seen_rooms (hA : Fit d₀ d w) : (seen w d now).db.rooms = d₀.rooms := by
  show d.rooms.patch w.rooms = _
  rw [hA.1.2, Table.patch_nil, hA.2.2]

/-- What an accept does beside its use leaves the invites and rooms alone. -/
theorem runs_fit {m : DbTxn α} {B : α → Db → Writes → Prop} (hm : m.Only Writes.Uninvited)
    (h : m.Runs (Fit d₀) B) : m.Runs (Fit d₀) fun a d w => B a d w ∧ Fit d₀ d w :=
  Txn.Runs.keeping (fun w w' hw hw' => ⟨by simp [Writes.append, hw.1, hw'.1],
    by simp [Writes.append, hw.2, hw'.2]⟩) (fun _ _ hQ => hQ) hm h

theorem uninvited_members (es : Edits (Uuid × Uuid) HouseMember) :
    Writes.Uninvited { houseMembers := es } := ⟨rfl, rfl⟩

theorem uninvited_nothing : Writes.Uninvited {} := ⟨rfl, rfl⟩

theorem runs_moveMember (hroom : roomExists d₀ roomId = true) {matching : HouseMember → Bool}
    {set : Millis → HouseMember → HouseMember} :
    (moveMember h u roomId matching set).Runs (Fit d₀) fun _ => Fit d₀ := by
  refine Txn.runs_weaken (runs_fit (only_moveMember uninvited_nothing uninvited_members)
    (B := fun _ _ _ => True) (Txn.runs_exec fun now d w hA => ⟨(), if_neg ?_, trivial⟩))
    (fun _ _ hA => hA) fun _ _ _ hB => hB.2
  rintro ⟨_, hno⟩
  rw [roomExists, hA.seen_rooms] at hno
  exact hno hroom

theorem runs_joinHouse (hroom : roomExists d₀ roomId = true) :
    (joinHouse h u roomId startedAt).Runs (Fit d₀) fun _ => Fit d₀ := by
  refine Txn.runs_weaken (runs_fit (only_joinHouse uninvited_nothing uninvited_members)
    (B := fun _ _ _ => True) (Txn.runs_exec fun now d w hA => ?_))
    (fun _ _ hA => hA) fun _ _ _ hB => hB.2
  dsimp only
  split
  · exact ⟨false, rfl, trivial⟩
  · rw [roomExists, hA.seen_rooms]
    exact ⟨true, if_pos hroom, trivial⟩

/-- `none` comes without a placeholder only. -/
theorem runs_becomeMember (hroom : roomExists d₀ roomId = true) {existing : Option HouseMember} :
    (becomeMember invite u existing roomId startedAt).Runs (Fit d₀)
      fun member d w => (member = none → invite.placeholderUserId = none) ∧ Fit d₀ d w := by
  unfold becomeMember
  split
  · refine Txn.runs_bind (runs_joinHouse hroom) fun inserted => ?_
    split
    · exact Txn.runs_pure fun d w hA => ⟨fun hno => (by cases hno), hA⟩
    · refine Txn.runs_pure fun d w hA => ⟨fun hno => ?_, hA⟩
      by_contra hbound
      rw [if_neg hbound] at hno
      cases hno
  · split
    · exact Txn.runs_pure fun d w hA => ⟨fun hno => (by cases hno), hA⟩
    · exact Txn.runs_bind (runs_moveMember hroom) fun _ =>
        Txn.runs_pure fun d w hA => ⟨fun hno => (by cases hno), hA⟩

theorem runs_claimBound (hroom : roomExists d₀ roomId = true) :
    (claimBound invite u roomId).Runs (Fit d₀) fun _ => Fit d₀ := by
  refine Txn.runs_weaken (runs_fit (only_claimBound uninvited_nothing (fun _ => ⟨rfl, rfl⟩)
    (fun _ => ⟨rfl, rfl⟩) (fun _ _ => ⟨rfl, rfl⟩) uninvited_members fun _ => ⟨rfl, rfl⟩)
    (B := fun _ _ _ => True) ?_) (fun _ _ hA => hA) fun _ _ _ hB => hB.2
  unfold claimBound
  split
  · refine Txn.runs_bind (B := fun _ _ _ => True) ?_ fun _ => Txn.runs_bind runs_claimHistory
      fun events => Txn.runs_bind (B := fun _ _ _ => True)
        (Txn.runs_exec fun _ _ _ _ => ⟨_, rfl, trivial⟩) fun _ => Txn.runs_pure fun _ _ _ => trivial
    unfold inheritRoom
    split
    · exact Txn.runs_weaken (runs_moveMember hroom) (fun _ _ hA => hA) fun _ _ _ _ => trivial
    · exact Txn.runs_pure fun _ _ _ => trivial
  · exact Txn.runs_pure fun _ _ _ => trivial

/-- One more use of a usable invite. -/
theorem runs_consumeUse (hinvite : d₀.invites.lookup id = some invite)
    (huses : invite.uses < invite.maxUses) :
    (consumeUse id).Runs (Fit d₀) fun _ _ _ => True := by
  refine Txn.runs_exec fun now d w hA => ⟨(), if_neg ?_, trivial⟩
  rw [hA.seen_invites, hinvite]
  exact fun hmore => absurd (of_decide_eq_true hmore) (by omega)

/-- What the accept returns. -/
def Accepts (invite : Invite) (a : Accepted) : Prop :=
  a.houseId = invite.houseId ∧ a.claimedPlaceholderId = invite.placeholderUserId

theorem runs_finishAccept (hinvite : d₀.invites.lookup id = some invite)
    (huses : invite.uses < invite.maxUses) (hroom : roomExists d₀ roomId = true) {already : Bool} :
    (finishAccept id invite u roomId already).Runs (Fit d₀) fun r _ _ => Accepts invite r.1 := by
  refine Txn.runs_bind (runs_claimBound hroom) fun claimed =>
    Txn.runs_bind (runs_consumeUse hinvite huses) fun _ =>
      Txn.runs_bind (B := fun _ _ _ => True) ?_ fun joined =>
        Txn.runs_pure fun _ _ _ => ⟨rfl, rfl⟩
  unfold logJoined
  split
  · exact Txn.runs_pure fun _ _ _ => trivial
  · exact runs_logAll _

/-! ### The whole transaction -/

/-- The invite of a token. -/
def inviteOf (env : Env) (d : Db) (token : JsString) : Option (Uuid × Invite) :=
  d.invites.rows.find? fun (_, i) => i.tokenHash = env.hashToken token

/-- The placeholder of the invite is unclaimed, when there is one. -/
def Unclaimed (d : Db) (invite : Invite) : Prop :=
  ∀ p, invite.placeholderUserId = some p →
    ∃ m, d.houseMembers.lookup (invite.houseId, p) = some m ∧ m.isPlaceholder = true ∧
      m.claimedBy = none ∧ m.leftAt = none

theorem reads_lockInvite : (lockInvite env token).Reads fun v => match inviteOf env v.db token with
    | some (id, invite) => if invite.usable v.now then .ok (id, invite) else .error noLongerValid
    | none => .error noLongerValid := Txn.reads_exec (fun _ => rfl) fun _ => rfl

theorem reads_selectExisting :
    (selectExisting h u).Reads fun v => .ok (v.db.houseMembers.lookup (h, u)) :=
  Txn.reads_exec (fun _ => rfl) fun _ => rfl

/-- The room that the accept inherits. -/
def boundRoom (d : Db) (invite : Invite) : Except Err (Option Uuid) :=
  match invite.placeholderUserId with
  | none => .ok none
  | some p => match (d.houseMembers.lookup (invite.houseId, p)).filter HouseMember.isPlaceholder with
    | some m => if m.claimedBy = none ∧ m.leftAt = none then .ok m.roomId else .error alreadyClaimed
    | none => .error alreadyClaimed

theorem reads_lockBound : (lockBound invite).Reads fun v => boundRoom v.db invite := by
  unfold lockBound boundRoom
  cases invite.placeholderUserId with
  | none => exact Txn.reads_pure none
  | some p => exact Txn.reads_exec (fun _ => rfl) fun _ => rfl

theorem boundRoom_ok (hu : Unclaimed d invite) (hb : Housed env d) :
    ∃ roomId, boundRoom d invite = .ok roomId ∧ roomExists d roomId = true := by
  unfold boundRoom
  cases hbound : invite.placeholderUserId with
  | none => exact ⟨none, rfl, rfl⟩
  | some p =>
    obtain ⟨m, hm, hpl, hclaim, hleft⟩ := hu p hbound
    dsimp only
    rw [show (d.houseMembers.lookup (invite.houseId, p)).filter HouseMember.isPlaceholder = some m by
      rw [hm]; exact Option.filter_some_pos hpl]
    dsimp only
    rw [if_pos ⟨hclaim, hleft⟩]
    refine ⟨_, rfl, ?_⟩
    cases hroom : m.roomId with
    | none => rfl
    | some id =>
      obtain ⟨room, hlook, _⟩ := hb.lodged _ p m id hm hroom
      show (d.rooms.lookup id).isSome = true
      rw [hlook]
      rfl

theorem boundRoom_error (hu : ¬ Unclaimed d invite) : boundRoom d invite = .error alreadyClaimed := by
  unfold boundRoom
  cases hbound : invite.placeholderUserId with
  | none => exact absurd (fun p hp => by rw [hbound] at hp; cases hp) hu
  | some p =>
    dsimp only
    cases hfound : (d.houseMembers.lookup (invite.houseId, p)).filter HouseMember.isPlaceholder with
    | none => rfl
    | some m =>
      obtain ⟨hm, hpl⟩ := Option.filter_eq_some_iff.mp hfound
      refine if_neg fun hopen => hu fun q hq => ?_
      rw [hbound] at hq
      cases hq
      exact ⟨m, hm, hpl, hopen.1, hopen.2⟩

theorem exists_of_runs {p : DbTxn (Accepted × List ActivityInput)}
    (h : p.Runs (Fit d) fun r _ _ => Accepts invite r.1) :
    ∃ a events d' w', p.alone t d {} = (.ok (a, events), d', w') ∧ Accepts invite a := by
  obtain ⟨⟨a, events⟩, d', w', hres, haccepts⟩ := h t d {} ⟨⟨rfl, rfl⟩, rfl, rfl⟩
  exact ⟨a, events, d', w', hres, haccepts⟩

/-- With a usable invite and an unclaimed placeholder the accept succeeds. -/
theorem acceptInviteTx_ok (hb : Housed env d) (hinvite : inviteOf env d token = some (id, invite))
    (husable : invite.usable t) (hu : Unclaimed d invite) :
    ∃ a events d' w', (acceptInviteTx env token u startedAt).alone t d {} = (.ok (a, events), d', w') ∧
      Accepts invite a := by
  have hseen := seen_nothing d t
  obtain ⟨roomId, hroom, hexists⟩ := boundRoom_ok hu hb
  have hlook : d.invites.lookup id = some invite :=
    Table.mem_rows.mp (List.mem_of_find?_eq_some hinvite)
  unfold acceptInviteTx
  rw [reads_lockInvite.alone_bind_ok (a := (id, invite)) (by
    rw [hseen]; dsimp only; rw [hinvite]; exact if_pos husable)]
  dsimp only
  rw [reads_selectExisting.alone_bind_ok (a := d.houseMembers.lookup (invite.houseId, u)) (by rw [hseen])]
  split
  · next hplain => exact ⟨_, _, _, _, rfl, rfl, hplain.2.symm⟩
  · rw [reads_lockBound.alone_bind_ok (a := roomId) (by rw [hseen]; exact hroom)]
    apply exists_of_runs
    refine Txn.runs_bind (runs_becomeMember hexists) fun member => ?_
    cases member with
    | none => exact Txn.runs_pure fun d' w hA => ⟨rfl, (hA.1 rfl).symm⟩
    | some already =>
      exact Txn.runs_weaken (runs_finishAccept hlook husable.2.2 hexists) (fun _ _ hA => hA.2)
        fun _ _ _ hB => hB

/-- Otherwise it fails. -/
theorem acceptInviteTx_error (hno : ∀ id invite, inviteOf env d token = some (id, invite) →
    invite.usable t → ¬ Unclaimed d invite) :
    ∃ e d' w', (acceptInviteTx env token u startedAt).alone t d {} = (.error e, d', w') := by
  have hseen := seen_nothing d t
  unfold acceptInviteTx
  cases hinvite : inviteOf env d token with
  | none =>
    rw [reads_lockInvite.alone_bind_error (e := noLongerValid) (by rw [hseen]; dsimp only; rw [hinvite])]
    exact ⟨_, _, _, rfl⟩
  | some found =>
    obtain ⟨id, invite⟩ := found
    by_cases husable : invite.usable t
    · rw [reads_lockInvite.alone_bind_ok (a := (id, invite)) (by
        rw [hseen]; dsimp only; rw [hinvite]; exact if_pos husable)]
      dsimp only
      rw [reads_selectExisting.alone_bind_ok (a := d.houseMembers.lookup (invite.houseId, u)) (by
        rw [hseen])]
      have hclaimed := hno id invite hinvite husable
      have hbound : invite.placeholderUserId ≠ none := fun hnone =>
        hclaimed fun p hp => by rw [hnone] at hp; cases hp
      rw [if_neg fun hplain => hbound hplain.2, reads_lockBound.alone_bind_error (e := alreadyClaimed)
        (by rw [hseen]; exact boundRoom_error hclaimed)]
      exact ⟨_, _, _, rfl⟩
    · rw [reads_lockInvite.alone_bind_error (e := noLongerValid) (by
        rw [hseen]; dsimp only; rw [hinvite]; exact if_neg husable)]
      exact ⟨_, _, _, rfl⟩

end accept

/-! ## Section 3: Previews -/

section preview

variable {d : Db} {u : Uuid} {t : Millis} {invite : Invite} {id : Uuid} {token : JsString}

theorem previewInvite_queries : (previewInvite env token).Queries := by
  intro v
  dsimp only
  split
  · trivial
  · split
    · trivial
    · split
      · trivial
      · intro v'
        dsimp only
        split
        · trivial
        · split <;> trivial

/-- The first row that passes, when `f` finds something for each that does. -/
theorem findSome?_guard {α β : Type} {q : α → Bool} {f : α → Option β} {l : List α}
    (h : ∀ x ∈ l, q x = true → (f x).isSome) :
    (l.findSome? fun x => if q x = true then f x else none) = (l.find? q).bind f := by
  induction l with
  | nil => rfl
  | cons x l ih =>
    by_cases hx : q x = true
    · obtain ⟨b, hb⟩ := Option.isSome_iff_exists.mp (h x (List.mem_cons_self ..) hx)
      rw [List.findSome?_cons, List.find?_cons_of_pos hx, if_pos hx, hb]
      exact hb.symm
    · rw [List.findSome?_cons, List.find?_cons_of_neg hx, if_neg hx]
      exact ih fun y hy => h y (List.mem_cons_of_mem _ hy)

/-- The joins lose no invite. -/
theorem selectPreview_eq (hb : Housed env d) : selectPreview env d token =
    (inviteOf env d token).bind fun found => (d.houses.lookup found.2.houseId).bind fun house =>
      (d.users.lookup found.2.createdBy).map fun creator => (found.2, house, creator) := by
  rw [inviteOf, ← findSome?_guard]
  · unfold selectPreview
    congr 1
    funext ⟨i, invite⟩
    by_cases hx : invite.tokenHash = env.hashToken token <;> simp [hx]
  · rintro ⟨i, invite⟩ hmem _
    have hgood := hb.invites i invite (Table.mem_rows.mp hmem)
    obtain ⟨house, hhouse⟩ := hgood.house
    rcases hgood.creator with haccount | hnone
    · obtain ⟨user, huser, _⟩ := hasAccount_iff.mp haccount
      dsimp only
      rw [hhouse, huser]
      rfl
    · cases hnone

theorem selectPreview_some (hb : Housed env d) (hinvite : inviteOf env d token = some (id, invite)) :
    ∃ house creator, d.houses.lookup invite.houseId = some house ∧
      selectPreview env d token = some (invite, house, creator) := by
  have hgood := hb.invites id invite (Table.mem_rows.mp (List.mem_of_find?_eq_some hinvite))
  obtain ⟨house, hhouse⟩ := hgood.house
  rcases hgood.creator with haccount | hnone
  · obtain ⟨creator, hcreator, _⟩ := hasAccount_iff.mp haccount
    refine ⟨house, creator, hhouse, ?_⟩
    rw [selectPreview_eq hb, hinvite]
    dsimp only [Option.bind_some]
    rw [hhouse, hcreator]
    rfl
  · cases hnone

/-- The name that a preview shows for a placeholder. -/
def memberName (d : Db) (houseId userId : Uuid) : Option JsString :=
  (selectPlaceholder d houseId userId).map fun (m, user) => m.displayName.getD user.name

/-- An invite whose placeholder is unclaimed is shown as it is. -/
theorem previewInvite_ok (hb : Housed env d) (hp : People env d)
    (hinvite : inviteOf env d token = some (id, invite)) (husable : invite.usable t)
    (hu : Unclaimed d invite) : ∃ house preview, d.houses.lookup invite.houseId = some house ∧
      ((previewInvite env token).alone t d {}).1 = .ok preview ∧
      preview.houseId = invite.houseId ∧ preview.houseName = house.name ∧
      preview.placeholderName = invite.placeholderUserId.bind (memberName d invite.houseId) ∧
      (preview.placeholderName.isSome ↔ invite.placeholderUserId.isSome) := by
  obtain ⟨house, creator, hhouse, hselect⟩ := selectPreview_some hb hinvite
  unfold previewInvite
  simp only [Prog.alone, seen_nothing, hselect]
  rw [if_neg (not_not_intro husable)]
  cases hbound : invite.placeholderUserId with
  | none => exact ⟨house, _, hhouse, rfl, rfl, rfl, rfl, Iff.rfl⟩
  | some p =>
    obtain ⟨m, hm, _, hclaim, _⟩ := hu p hbound
    obtain ⟨user, huser, _⟩ := hp.user _ p m hm
    have hplaceholder : selectPlaceholder d invite.houseId p = some (m, user) := by
      rw [selectPlaceholder, hm, Option.bind_some, huser]
      rfl
    simp only [Prog.alone, seen_nothing, hplaceholder]
    rw [if_neg (not_not_intro hclaim)]
    refine ⟨house, _, hhouse, rfl, rfl, rfl, ?_, iff_of_true rfl rfl⟩
    rw [Option.bind_some, memberName, hplaceholder]
    rfl

/-- Any other invite is not shown. The invariant is what makes the claim
    alone decide. -/
theorem previewInvite_error (hb : Housed env d) (hp : People env d)
    (hno : ∀ id invite, inviteOf env d token = some (id, invite) → invite.usable t →
      ¬ Unclaimed d invite) : ((previewInvite env token).alone t d {}).1 = .error noLongerValid := by
  unfold previewInvite
  cases hinvite : inviteOf env d token with
  | none =>
    have hselect : selectPreview env d token = none := by rw [selectPreview_eq hb, hinvite]; rfl
    simp only [Prog.alone, seen_nothing, hselect]
  | some found =>
    obtain ⟨id, invite⟩ := found
    obtain ⟨house, creator, _, hselect⟩ := selectPreview_some hb hinvite
    simp only [Prog.alone, seen_nothing, hselect]
    by_cases husable : invite.usable t
    · rw [if_neg (not_not_intro husable)]
      have hclaimed := hno id invite hinvite husable
      have hgood := hb.invites id invite (Table.mem_rows.mp (List.mem_of_find?_eq_some hinvite))
      cases hbound : invite.placeholderUserId with
      | none => exact absurd (fun p hp => by rw [hbound] at hp; cases hp) hclaimed
      | some p =>
        obtain ⟨m, hm, hpl⟩ := hgood.placeholder p hbound
        obtain ⟨user, huser, _⟩ := hp.user _ p m hm
        have hplaceholder : selectPlaceholder d invite.houseId p = some (m, user) := by
          rw [selectPlaceholder, hm, Option.bind_some, huser]
          rfl
        simp only [Prog.alone, seen_nothing, hplaceholder]
        rw [if_pos fun hnone => hclaimed fun q hq => ?_]
        · rfl
        · rw [hbound] at hq
          cases hq
          refine ⟨m, hm, hpl, hnone, ?_⟩
          rw [← Option.not_isSome_iff_eq_none, ← hp.left _ p m hm hpl, hnone]
          exact Bool.false_ne_true
    · rw [if_pos husable]
      rfl

theorem acceptInvite_alone {startedAt : Millis} (hnow : startedAt = t) :
    ((acceptInvite env token u).alone t d {}).1 =
      match ((acceptInviteTx env token u startedAt).alone t d {}).1 with
      | .ok r => .success (.joined r.1.houseId r.1.alreadyMember r.1.claimedPlaceholderId)
      | .error err => .failure err := by
  subst hnow
  unfold acceptInvite transact
  rw [Prog.alone_transact, reads_begin.alone_bind_ok (a := startedAt) rfl]
  generalize (acceptInviteTx env token u startedAt).alone startedAt d {} = result
  obtain ⟨r, d', w'⟩ := result
  cases r with
  | error e => rfl
  | ok r =>
    dsimp only
    rw [Prog.alone_emitAll]
    rfl

end preview

/-- What a preview of the token says in `d`, against an accept by `u` that
    runs alone from there.

    * `agrees`: the preview succeeds if and only if the accept does.
    * `truth`: the house it names is the one joined, and the placeholder it
      names is the one that the accept claims.
    * `reads`: it has no step that could change anything. -/
structure TellsTruth (env : Env) (d : Db) (token : JsString) (u : Uuid) (t : Millis) : Prop where
  agrees : (∃ preview, ((previewInvite env token).alone t d {}).1 = .ok preview) ↔
    ∃ outcome, ((acceptInvite env token u).alone t d {}).1 = .success outcome
  truth : ∀ preview, ((previewInvite env token).alone t d {}).1 = .ok preview →
    ∃ house already claimed,
      ((acceptInvite env token u).alone t d {}).1 =
        .success (.joined preview.houseId already claimed) ∧
      d.houses.lookup preview.houseId = some house ∧ preview.houseName = house.name ∧
      preview.placeholderName = claimed.bind (memberName d preview.houseId) ∧
      (preview.placeholderName.isSome ↔ claimed.isSome)
  reads : (previewInvite env token).Queries ∧ ((previewInvite env token).alone t d {}).2 = d

/-- For every reachable state, token, instant and user: the preview succeeds
    exactly when an accept run alone would, names the house that is joined
    and the placeholder that is claimed, and changes nothing. -/
theorem preview_tells_truth (env : Env) (s : HomiState) (h : HomiReachable env s) (token : JsString)
    (u : Uuid) (t : Millis) : TellsTruth env s.db token u t := by
  obtain ⟨hbase, hhoused⟩ := (households_reachable h).inv
  have hreads : (previewInvite env token).Queries ∧
      ((previewInvite env token).alone t s.db {}).2 = s.db :=
    ⟨previewInvite_queries, previewInvite_queries.alone_db⟩
  by_cases hgood : ∃ id invite, inviteOf env s.db token = some (id, invite) ∧ invite.usable t ∧
      Unclaimed s.db invite
  · obtain ⟨id, invite, hinvite, husable, hunclaimed⟩ := hgood
    obtain ⟨house, preview, hhouse, hpreview, hid, hname, hplaceholder, hsome⟩ :=
      previewInvite_ok hhoused hbase.people hinvite husable hunclaimed
    obtain ⟨a, events, d', w', haccept, hhouseId, hclaimed⟩ :=
      acceptInviteTx_ok (u := u) hhoused hinvite husable hunclaimed
    have hjoined : ((acceptInvite env token u).alone t s.db {}).1 =
        .success (.joined invite.houseId a.alreadyMember invite.placeholderUserId) := by
      rw [acceptInvite_alone rfl, haccept, ← hhouseId, ← hclaimed]
    refine ⟨iff_of_true ⟨preview, hpreview⟩ ⟨_, hjoined⟩, fun shown hshown => ?_, hreads⟩
    rw [hpreview] at hshown
    cases hshown
    rw [hid]
    exact ⟨house, a.alreadyMember, invite.placeholderUserId, hjoined, hhouse, hname, hplaceholder,
      hsome⟩
  · have hno : ∀ id invite, inviteOf env s.db token = some (id, invite) → invite.usable t →
        ¬ Unclaimed s.db invite := fun id invite hinvite husable hunclaimed =>
      hgood ⟨id, invite, hinvite, husable, hunclaimed⟩
    have hpreview := previewInvite_error hhoused hbase.people hno
    obtain ⟨e, d', w', haccept⟩ := acceptInviteTx_error (u := u) hno
    have hfailed : ((acceptInvite env token u).alone t s.db {}).1 = .failure e := by
      rw [acceptInvite_alone rfl, haccept]
    refine ⟨iff_of_false ?_ ?_, fun shown hshown => ?_, hreads⟩
    · rintro ⟨shown, hshown⟩
      rw [hpreview] at hshown
      cases hshown
    · rintro ⟨outcome, houtcome⟩
      rw [hfailed] at houtcome
      cases houtcome
    · rw [hpreview] at hshown
      cases hshown

/-- A guest in the cellar, and an invite to claim it. -/
def guestSession : List (Action Call) := serial 1000 0 (opening ++ [
  (.createPlaceholder theHouse ann (js "Pat"), 8),
  (.setRooms theHouse ann (atticAndCellar (sampleUuid 3)), 14),
  (.createInvite theHouse ann (some (sampleUuid 3)), 5)])

theorem preview_tells_truth_guest : ∃ s : HomiState,
    TellsTruth sampleEnv s.db (js "token-6") cleo 2000 ∧
    ∃ preview, ((previewInvite sampleEnv (js "token-6")).alone 2000 s.db {}).1 = .ok preview ∧
      preview.placeholderName = some (js "Pat") := by
  obtain ⟨s, hrun, hs⟩ := Run.exists_of_drive (homi sampleEnv) guestSession (fun s =>
    match ((previewInvite sampleEnv (js "token-6")).alone 2000 s.db {}).1 with
    | .ok preview => preview.placeholderName = some (js "Pat")
    | .error _ => false) (by decide +kernel)
  refine ⟨s, preview_tells_truth sampleEnv s hrun _ _ _, ?_⟩
  split at hs
  · next preview hpreview => exact ⟨preview, hpreview, of_decide_eq_true hs⟩
  · cases hs

end Homi
