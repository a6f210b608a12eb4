import Homi.Verification.Rejections

/-! # One configuration of the rooms

  A room-weighted posting locks the members of the house in one statement
  and reads the rooms in a later one. The membership of the creator of the
  house is among those it locks, and every configuration of the rooms
  updates it. So the rooms that the posting reads are those of the commit.

  The members need not be. The statement that locks them takes its snapshot
  and then waits: who enters a room in between, by a claim, is in nobody's
  snapshot. Where every member with a room is locked at the commit, the
  splits are those of the database that the commit is applied to.
-/

namespace Homi

open ReadCommitted Protocol

variable {env : Env}

/-! ## Section 1: From a scan to the database -/

/-- `resolveSplits` of a room-weighted split, over a list of members and a
    list of rooms. -/
structure Resolves (ms : List ActiveMember) (rooms : List (Uuid × Room)) (input : ResolveSplitsInput)
    (splits : Splits JsString) : Prop where
  members : ∀ id ∈ input.participants ++ [input.paidBy], (byId ms id).isSome
  payer : ∀ m, byId ms input.paidBy = some m → m.isPlaceholder = false
  unsent : input.weightsBp = none
  split : ∃ shares weights, roomShares ms rooms = .ok shares ∧
    enterWeights shares input.participants ∅ = .ok weights ∧
    computeSplits (input.toSplit (some weights)) = .ok splits

/-- The rooms of the participants. -/
def roomIdsOf (ms : List ActiveMember) (participants : List JsString) : List Uuid :=
  (participants.filterMap fun id => (byId ms id).bind ActiveMember.roomId).eraseDups

/-- `rooms` are those among `roomIds` that the house has. -/
structure RoomsRead (h : Uuid) (roomIds : List Uuid) (rooms : List (Uuid × Room)) (d : Db) : Prop where
  nodup : (rooms.map Prod.fst).Nodup
  mem : ∀ id room, (id, room) ∈ rooms ↔
    d.rooms.lookup id = some room ∧ room.houseId = h ∧ id ∈ roomIds

/-- `ms` are active members of the house, and all of them who have a room. -/
structure Covers (h : Uuid) (ms : List ActiveMember) (d : Db) : Prop where
  nodup : (ms.map ActiveMember.userId).Nodup
  active : ∀ m ∈ ms, activeMember d h m.userId = some m
  housed : ∀ u m, activeMember d h u = some m → m.roomId.isSome → m ∈ ms

section pure

variable {d : Db} {h : Uuid} {houseId : JsString} {ms : List ActiveMember} {rooms : List (Uuid × Room)}
  {input : ResolveSplitsInput} {splits : Splits JsString}

/-- Occupants are listed in one order only. -/
theorem roomOccupants_perm {ms ms' : List ActiveMember} {id : Uuid}
    (hnd : (ms.map ActiveMember.userId).Nodup)
    (hp : (ms.filter fun m => m.roomId = some id).Perm (ms'.filter fun m => m.roomId = some id)) :
    roomOccupants ms id = roomOccupants ms' id := by
  have : Std.Total earlier := ⟨fun a b => by
    unfold earlier
    rcases lt_trichotomy a.joinedAt b.joinedAt with hlt | heq | hgt
    · exact Or.inl (Or.inl hlt)
    · rcases le_total a.userId b.userId with hle | hle
      · exact Or.inl (Or.inr ⟨heq, hle⟩)
      · exact Or.inr (Or.inr ⟨heq.symm, hle⟩)
    · exact Or.inr (Or.inl hgt)⟩
  have : IsTrans ActiveMember earlier := ⟨fun a b c hab hbc => by
    unfold earlier at *
    rcases hab with hab | ⟨hab, hu⟩ <;> rcases hbc with hbc | ⟨hbc, hv⟩
    · exact Or.inl (hab.trans hbc)
    · exact Or.inl (hbc ▸ hab)
    · exact Or.inl (hab ▸ hbc)
    · exact Or.inr ⟨hab.trans hbc, hu.trans hv⟩⟩
  have hsorted : (ms.filter fun m => m.roomId = some id).insertionSort earlier =
      (ms'.filter fun m => m.roomId = some id).insertionSort earlier := by
    refine List.Perm.eq_of_pairwise ?_ (List.pairwise_insertionSort _ _) (List.pairwise_insertionSort _ _)
      (((List.perm_insertionSort _ _).trans hp).trans (List.perm_insertionSort _ _).symm)
    -- two members with one place in the order have one id
    intro a b ha hb hab hba
    have hin : ∀ x, x ∈ ms.filter (fun m => m.roomId = some id) → x ∈ ms := fun x hx =>
      (List.mem_filter.mp hx).1
    have hmem := hin a ((List.mem_insertionSort _).mp ha)
    have hmem' := hin b (hp.mem_iff.mpr ((List.mem_insertionSort _).mp hb))
    refine List.inj_on_of_nodup_map hnd hmem hmem' ?_
    unfold earlier at hab hba
    rcases hab with hab | ⟨heq, hle⟩ <;> rcases hba with hba | ⟨heq', hge⟩
    · exact absurd hab hba.asymm
    · exact absurd heq'.symm hab.ne
    · exact absurd heq.symm hba.ne
    · exact le_antisymm hle hge
  rw [roomOccupants, roomOccupants, hsorted]

theorem Covers.byId (hc : Covers h ms d) {id : JsString} {m : ActiveMember} (hm : Homi.byId ms id = some m) :
    activeMember d h id = some m := by
  obtain ⟨hmem, rfl⟩ := byId_eq_some hm
  exact hc.active m hmem

theorem Covers.filter_perm (hc : Covers h ms d) {q : ActiveMember → Bool} (hq : ∀ m, q m = true → m.roomId.isSome) :
    (ms.filter q).Perm ((activeMembers d h none).filter q) := by
  have hnd : ms.Nodup := hc.nodup.of_map
  have hnd' : (activeMembers d h none).Nodup := (nodup_activeMembers none).of_map
  refine (List.perm_ext_iff_of_nodup (hnd.filter _) (hnd'.filter _)).mpr fun m => ?_
  rw [List.mem_filter, List.mem_filter, mem_activeMembers]
  constructor
  · rintro ⟨hm, hroom⟩
    exact ⟨⟨hc.active m hm, rfl⟩, hroom⟩
  · rintro ⟨⟨hm, _⟩, hroom⟩
    exact ⟨hc.housed _ m hm (hq m hroom), hroom⟩

theorem Covers.occupants (hc : Covers h ms d) (id : Uuid) :
    roomOccupants ms id = roomOccupants (activeMembers d h none) id :=
  roomOccupants_perm hc.nodup (hc.filter_perm fun m hm => by
    rw [of_decide_eq_true hm]
    rfl)

/-- The shares of two lists of the same rooms are the same. -/
theorem roomShares_congr {ms ms' : List ActiveMember} {rooms rooms' : List (Uuid × Room)}
    (hnd : (ms.map ActiveMember.userId).Nodup) (hnd' : (ms'.map ActiveMember.userId).Nodup)
    (hids : (rooms.map Prod.fst).Nodup) (hids' : (rooms'.map Prod.fst).Nodup)
    (hsame : ∀ r, r ∈ rooms ↔ r ∈ rooms') (hocc : ∀ id, roomOccupants ms id = roomOccupants ms' id)
    (hweight : ∀ r ∈ rooms, 1 ≤ r.2.weightBp ∧ r.2.weightBp ≤ 10000)
    (hused : ∀ r ∈ rooms, roomOccupants ms r.1 ≠ []) {shares : Record JsString ℤ}
    (h : roomShares ms rooms = .ok shares) :
    ∃ shares', roomShares ms' rooms' = .ok shares' ∧ ∀ u, shares'.lookup u = shares.lookup u := by
  obtain ⟨s, hs, hin, hout⟩ := roomShares_eq hnd hids hweight hused
  obtain ⟨s', hs', hin', hout'⟩ := roomShares_eq hnd' hids'
    (fun r hr => hweight r ((hsame r).mpr hr)) fun r hr => hocc r.1 ▸ hused r ((hsame r).mpr hr)
  rw [h] at hs
  cases hs
  refine ⟨s', hs', fun u => ?_⟩
  by_cases hu : ∃ r ∈ rooms, u ∈ roomOccupants ms r.1
  · obtain ⟨r, hr, hmem⟩ := hu
    rw [hin r hr u hmem, hin' r ((hsame r).mp hr) u (hocc r.1 ▸ hmem), hocc]
  · have hno : ∀ r ∈ rooms, u ∉ roomOccupants ms r.1 := fun r hr hmem => hu ⟨r, hr, hmem⟩
    rw [hout u hno, hout' u fun r hr => hocc r.1 ▸ hno r ((hsame r).mpr hr)]

theorem enterWeights_congr {shares shares' : Record JsString ℤ}
    (h : ∀ u, shares'.lookup u = shares.lookup u) (participants : List JsString)
    (weights : Record JsString JsNumber) :
    enterWeights shares' participants weights = enterWeights shares participants weights := by
  unfold enterWeights
  simp only [h]

/-- The rooms that a covering scan leads to are those of the database. -/
theorem RoomsRead.congr (hc : Covers (toUuid houseId) ms d) {participants : List JsString}
    (hactive : ∀ id ∈ participants, (byId ms id).isSome)
    (hr : RoomsRead (toUuid houseId) (roomIdsOf ms participants) rooms d) (r : Uuid × Room) :
    r ∈ rooms ↔ r ∈ roomsAt d houseId participants (activeMembers d (toUuid houseId) none) := by
  have hids : roomIdsOf ms participants = (participants.filterMap fun id =>
      (byId (activeMembers d (toUuid houseId) none) id).bind ActiveMember.roomId).eraseDups := by
    refine congrArg List.eraseDups (List.filterMap_congr fun id hid => ?_)
    obtain ⟨m, hm⟩ := Option.isSome_iff_exists.mp (hactive id hid)
    rw [hm, byId_activeMembers, hc.byId hm]
  rw [hr.mem, hids, roomsAt, List.mem_filter, Table.mem_rows, decide_eq_true_eq]

/-- What was resolved over a covering scan is what the database gives. -/
theorem Resolves.splitsAt (hs : Resolves ms rooms input splits) (hmode : input.mode = .room_weighted)
    (hb : Configured d (toUuid houseId)) (hc : Covers (toUuid houseId) ms d)
    (hr : RoomsRead (toUuid houseId) (roomIdsOf ms input.participants) rooms d) :
    Homi.splitsAt d houseId input = .ok splits := by
  obtain ⟨shares, weights, hshares, hweights, hsplits⟩ := hs.split
  have hmembers : membersAt d houseId input.mode (input.participants ++ [input.paidBy]).eraseDups =
      activeMembers d (toUuid houseId) none := by rw [membersAt, if_pos hmode]
  -- whoever is involved was scanned
  have hbyId : ∀ id ∈ input.participants ++ [input.paidBy], ∃ m, byId ms id = some m ∧
      byId (activeMembers d (toUuid houseId) none) id = some m := by
    intro id hid
    obtain ⟨m, hm⟩ := Option.isSome_iff_exists.mp (hs.members id hid)
    exact ⟨m, hm, by rw [byId_activeMembers, hc.byId hm]⟩
  have hpart : ∀ id ∈ input.participants, (byId ms id).isSome := fun id hid =>
    hs.members id (List.mem_append_left _ hid)
  have hsame := hr.congr hc hpart
  -- the rooms have weights, and somebody lives in each of them
  have hweight : ∀ r ∈ rooms, 1 ≤ r.2.weightBp ∧ r.2.weightBp ≤ 10000 := by
    intro r hmem
    obtain ⟨hlook, hhouse, _⟩ := (hr.mem r.1 r.2).mp hmem
    rcases hb with hnone | ⟨hin, _⟩
    · exact absurd hhouse (hnone r.1 r.2 hlook)
    · exact hin r.1 r.2 hlook hhouse
  have hused : ∀ r ∈ rooms, roomOccupants ms r.1 ≠ [] := by
    intro r hmem
    obtain ⟨_, _, hid⟩ := (hr.mem r.1 r.2).mp hmem
    obtain ⟨u, _, hu⟩ := List.mem_filterMap.mp (List.mem_eraseDups.mp hid)
    obtain ⟨m, hm, hroom⟩ := Option.bind_eq_some_iff.mp hu
    obtain ⟨hin, rfl⟩ := byId_eq_some hm
    exact List.ne_nil_of_mem (mem_roomOccupants.mpr ⟨m, hin, rfl, hroom⟩)
  have hids : ((roomsAt d houseId input.participants (activeMembers d (toUuid houseId) none)).map
      Prod.fst).Nodup := (List.filter_sublist.map _).nodup d.rooms.nodup_keys_rows
  obtain ⟨shares', hshares', hlook⟩ := roomShares_congr hc.nodup (nodup_activeMembers none) hr.nodup
    hids hsame hc.occupants hweight hused hshares
  -- so the code comes to the same weights
  have hderived : roomWeightsAt d houseId input.participants (activeMembers d (toUuid houseId) none) =
      .ok weights := by
    rw [← hweights, ← enterWeights_congr hlook, roomWeightsAt, hshares']
    rfl
  have hinvolved : ¬ ((input.participants ++ [input.paidBy]).eraseDups.any fun id =>
      (byId (activeMembers d (toUuid houseId) none) id).isNone) = true := by
    intro hany
    obtain ⟨id, hid, hnone⟩ := List.any_eq_true.mp hany
    obtain ⟨m, _, hm⟩ := hbyId id (List.mem_eraseDups.mp hid)
    rw [hm] at hnone
    cases hnone
  have hpayer : ¬ ((byId (activeMembers d (toUuid houseId) none) input.paidBy).any
      ActiveMember.isPlaceholder) = true := by
    obtain ⟨m, hm, hm'⟩ := hbyId input.paidBy (List.mem_append_right _ (List.mem_singleton_self _))
    rw [hm', Option.any_some, hs.payer m hm]
    decide
  unfold Homi.splitsAt weightsAt
  simp only [hmembers]
  rw [if_neg hinvolved, if_neg hpayer, if_pos hmode, if_neg (by rw [hs.unsent]; decide), hderived]
  change (computeSplits (input.toSplit (some weights))).mapError Err.split = _
  rw [hsplits]
  rfl

end pure

/-! ## Section 2: The protocol -/

/-- The commit books a room-weighted expense. The worker's template is the
    one of the scan of its run. -/
def RoomWeighted (c : HomiCommit) : Prop :=
  match c.call with
  | .createExpense _ _ _ body => body.mode = .room_weighted
  | .editExpense _ _ _ body => body.mode = .room_weighted
  | .postDueBills _ => ∃ e row t template, (e, some row) ∈ c.tx.writes.expenses ∧
      row.templateId = some t ∧ c.seen.billTemplates.lookup t = some template ∧
      template.splitMode = .room_weighted
  | _ => False

/-- `input` is what the commit asks the posting core for, when it books
    `row` in a house whose members are those in `d`. -/
def Asks (c : HomiCommit) (row : Expense) (d : Db) (input : ResolveSplitsInput) : Prop :=
  match c.call with
  | .createExpense _ _ _ body => input = body.resolve
  | .editExpense _ _ _ body => input = body.resolve
  | .postDueBills _ => ∃ t template, row.templateId = some t ∧
      c.seen.billTemplates.lookup t = some template ∧
      input.amountCents = template.amountCents ∧ input.paidBy = template.ownerId ∧
      input.mode = template.splitMode ∧ input.exactCents = none ∧ input.weightsBp = none ∧
      input.participants.Perm
        (billParticipants template.splitMode (activeMembers d (toUuid row.houseId) none))
  | _ => False

/-- The splits that the commit writes are those derived from the memberships
    and rooms of `d`. -/
def OneConfiguration (c : HomiCommit) (d : Db) : Prop :=
  ∃ e row splits input, c.tx.writes.expenses = [(e, some row)] ∧ Asks c row d input ∧
    splitsAt d row.houseId input = .ok splits ∧
    (c.tx.writes.expenseSplits.filterMap fun r => r.2.join) = splitRowsFor e splits

/-- Every active member of the house who has a room is locked. -/
def MembersLocked (c : HomiCommit) : Prop :=
  ∀ e row, (e, some row) ∈ c.tx.writes.expenses → ∀ u m,
    activeMember c.before (toUuid row.houseId) u = some m → m.roomId.isSome →
      ∃ mode, (.member (toUuid row.houseId) u, mode) ∈ c.tx.locks

/-- Whoever created a house is an active member of it. -/
def Founders (d : Db) : Prop :=
  ∀ h house, d.houses.lookup h = some house →
    ∃ m, d.houseMembers.lookup (h, house.createdBy) = some m ∧ m.isPlaceholder = false ∧ m.leftAt = none

def Call.founds : Call → Bool
  | .createHouse _ _ => true
  | _ => false

/-- What others do meanwhile. -/
structure ConfigRely (tx : DbTx) (d d' : Db) : Prop where
  ledger : LedgerRely False False tx d d'
  house : HouseRely tx d d'

/-- What is known of a commit here. -/
structure Settled (env : Env) (c : HomiCommit) : Prop where
  founded : Founded env c
  house : HouseGuar env c.call.user? c.tx c.before

/-- What a commit leaves behind. -/
structure ConfigGuar (c : Call) (seen : Db) (tx : DbTx) (d : Db) : Prop where
  founders : c.founds = true → Founders (tx.commit d)
  derived : ∀ p, RoomWeighted ⟨p, c, seen, tx, d⟩ → MembersLocked ⟨p, c, seen, tx, d⟩ →
    OneConfiguration ⟨p, c, seen, tx, d⟩ d

def configProtocol (env : Env) : DbProtocol where
  inv d := LedgerBase env d ∧ Housed env d ∧ Founders d
  rely := ConfigRely
  guar := ConfigGuar
  post _ _ _ := True
  allows _ _ _ _ _ := True
  stops _ _ := True

section transfer

variable {α : Type} {A : DbTx → Db → Prop} {B : α → DbTx → Db → Prop} {m : DbTxn α}

theorem config_of_ledger (h : (ledgerProtocol env False False).Triple A m B) :
    (configProtocol env).Triple A m B :=
  triple_transfer (fun _ _ _ hr => ConfigRely.ledger hr) (fun _ hi => And.intro hi.1 False.elim) h

theorem undisturbed_of_ledger {q : Writes → Prop} (h : (ledgerProtocol env False False).Passive q A)
    {p : Effect Writes LockKey Note → Prop} (hp : ∀ e, p e → q e.writes) :
    (configProtocol env).Undisturbed p A :=
  ⟨fun tx d d' hr hi hA => h.stable tx d d' (ConfigRely.ledger hr) ⟨hi.1, False.elim⟩ hA,
    fun tx d e he => h.step tx d e (hp e he)⟩

end transfer

/-! ## Section 3: The scan of the members -/

/-- A statement that leaves memberships and rooms alone and locks no member. -/
structure Aside (e : Effect Writes LockKey Note) : Prop where
  houseMembers : e.writes.houseMembers = []
  rooms : e.writes.rooms = []
  locks : ∀ h u mode, (LockKey.member h u, mode) ∉ e.locks

/-- And leaves the ledger alone. -/
structure Beside (e : Effect Writes LockKey Note) : Prop extends Aside e where
  quiet : e.writes.Quiet

/-- No member is locked so far. -/
structure Clear (tx : DbTx) (d : Db) : Prop where
  houseMembers : tx.writes.houseMembers = []
  rooms : tx.writes.rooms = []
  locks : ∀ h u mode, (LockKey.member h u, mode) ∉ tx.locks

/-- What the scan of the members of `h` returned: they are as `tx` locked
    them, the creator of the house is locked, and so is nobody else. -/
structure Scanned (h : Uuid) (ms : List ActiveMember) (tx : DbTx) (d : Db) : Prop where
  houseMembers : tx.writes.houseMembers = []
  rooms : tx.writes.rooms = []
  anchor : ms ≠ [] → ∃ house, d.houses.lookup h = some house ∧ tx.Holds (.member h house.createdBy)
  nodup : (ms.map ActiveMember.userId).Nodup
  active : ∀ m ∈ ms, activeMember d h m.userId = some m ∧ tx.Holds (.member h m.userId)
  all : ∀ u mode m, (.member h u, mode) ∈ tx.locks → activeMember d h u = some m → m ∈ ms

section scan

variable {tx : DbTx} {d d' : Db} {h : Uuid} {houseId : JsString} {ms found : List ActiveMember}

theorem Aside.not_locked {e : Effect Writes LockKey Note} (he : Aside e) {u : Uuid} {mode : Mode}
    (hmem : (LockKey.member h u, mode) ∈ (tx.add e).locks) : (LockKey.member h u, mode) ∈ tx.locks := by
  rcases List.mem_append.mp hmem with hold | hnew
  · exact hold
  rcases List.mem_append.mp hnew with hlock | hwrite
  · exact absurd hlock (he.locks h u mode)
  · obtain ⟨k, hk, heq⟩ := List.mem_map.mp hwrite
    obtain ⟨rfl, _⟩ := Prod.mk.inj heq
    have hin : (h, u) ∈ e.writes.houseMembers.map Prod.fst := Writes.mem_written.mp hk
    rw [he.houseMembers] at hin
    cases hin

theorem undisturbed_clear : (configProtocol env).Undisturbed Aside Clear where
  stable _ _ _ _ _ hA := ⟨hA.houseMembers, hA.rooms, hA.locks⟩
  step tx d e he hA := by
    refine ⟨?_, ?_, fun h u mode hmem => hA.locks h u mode (he.not_locked hmem)⟩
    · simp [Writes.append, hA.houseMembers, he.houseMembers]
    · simp [Writes.append, hA.rooms, he.rooms]

theorem clear_empty : Clear Tx.empty d := ⟨rfl, rfl, fun _ _ _ h => by cases h⟩

theorem activeMember_congr {u : Uuid}
    (hsame : d'.houseMembers.lookup (h, u) = d.houseMembers.lookup (h, u)) :
    activeMember d' h u = activeMember d h u := by
  rw [activeMember, activeMember, hsame]

theorem Scanned.add (hA : Scanned h ms tx d) {e : Effect Writes LockKey Note} (he : Aside e) :
    Scanned h ms (tx.add e) (tick e.ids d) := by
  refine ⟨?_, ?_, fun hne => ?_, hA.nodup, fun m hm => ?_, fun u mode m hmem hm => ?_⟩
  · simp [Writes.append, hA.houseMembers, he.houseMembers]
  · simp [Writes.append, hA.rooms, he.rooms]
  · obtain ⟨house, hhouse, hheld⟩ := hA.anchor hne
    exact ⟨house, hhouse, holds_add _ _ hheld⟩
  · obtain ⟨hactive, hheld⟩ := hA.active m hm
    exact ⟨hactive, holds_add _ _ hheld⟩
  · exact hA.all u mode m (he.not_locked hmem) hm

theorem undisturbed_scanned : (configProtocol env).Undisturbed Aside (Scanned h ms) where
  stable tx d d' hr _ hA := by
    have hsame : ∀ u, tx.Holds (.member h u) → activeMember d' h u = activeMember d h u :=
      fun u hheld => activeMember_congr (HouseRely.frame (ConfigRely.house hr) (.member h u) hheld)
    refine ⟨hA.houseMembers, hA.rooms, fun hne => ?_, hA.nodup, fun m hm => ?_, fun u mode m hmem hm => ?_⟩
    · obtain ⟨house, hhouse, hheld⟩ := hA.anchor hne
      exact ⟨house, HouseRely.houses (ConfigRely.house hr) _ _ hhouse, hheld⟩
    · obtain ⟨hactive, hheld⟩ := hA.active m hm
      exact ⟨(hsame _ hheld).trans hactive, hheld⟩
    · exact hA.all u mode m hmem ((hsame u (Tx.holds_of_lock hmem)).symm.trans hm)
  step _ _ _ he hA := hA.add he

/-- What the first statement of the scan found. -/
structure Listed (h : Uuid) (found : List ActiveMember) (tx : DbTx) (d : Db) : Prop where
  clear : Clear tx d
  nodup : (found.map ActiveMember.userId).Nodup
  founder : found ≠ [] → ∃ house, d.houses.lookup h = some house ∧
    house.createdBy ∈ found.map ActiveMember.userId

theorem stable_listed : (configProtocol env).Stable (Listed h found) := by
  intro tx d d' hr _ hA
  refine ⟨⟨hA.clear.houseMembers, hA.clear.rooms, hA.clear.locks⟩, hA.nodup, fun hne => ?_⟩
  obtain ⟨house, hhouse, hin⟩ := hA.founder hne
  exact ⟨house, HouseRely.houses (ConfigRely.house hr) _ _ hhouse, hin⟩

/-- Reading found members again leaves out those who have left. -/
theorem nodup_reread (hnd : (found.map ActiveMember.userId).Nodup) :
    ((found.filterMap fun m => activeMember d h m.userId).map ActiveMember.userId).Nodup := by
  rw [List.Nodup, List.pairwise_map, List.pairwise_filterMap]
  refine (List.pairwise_map.mp hnd).imp ?_
  intro a b hne m hm m' hm' heq
  obtain ⟨ha, _⟩ := activeMember_eq_some hm
  obtain ⟨hb, _⟩ := activeMember_eq_some hm'
  exact hne (by rw [← ha, ← hb, heq])

/-- The scan of a whole house. -/
theorem triple_scan : (configProtocol env).Triple Clear (lockActiveMembers houseId none)
    fun ms => Scanned (toUuid houseId) ms := by
  refine triple_bind (B := fun found => Listed (toUuid houseId) found) ?_ fun found => ?_
  · -- the snapshot, which has the creator of the house if anybody
    refine triple_select undisturbed_clear.stable fun tx d now hA hi => ?_
    have hview : (tx.view d now).db.houseMembers = d.houseMembers := view_houseMembers hA.houseMembers
    have hactive : ∀ u, activeMember (tx.view d now).db (toUuid houseId) u =
        activeMember d (toUuid houseId) u := fun u => activeMember_congr (by rw [hview])
    refine ⟨hA, nodup_activeMembers none, fun hne => ?_⟩
    obtain ⟨m, hm⟩ := List.exists_mem_of_ne_nil _ hne
    have hmem : activeMember d (toUuid houseId) m.userId = some m :=
      (hactive _).symm.trans (mem_activeMembers.mp hm).1
    obtain ⟨_, row, hrow, _⟩ := activeMember_eq_some hmem
    obtain ⟨house, hhouse⟩ := hi.2.1.homes _ _ row hrow
    -- the creator is in the same snapshot
    obtain ⟨f, hf, _, hleft⟩ := hi.2.2 _ house hhouse
    refine ⟨house, hhouse, List.mem_map.mpr
      ⟨⟨house.createdBy, f.isPlaceholder, f.roomId, f.joinedAt⟩, mem_activeMembers.mpr ⟨?_, rfl⟩, rfl⟩⟩
    rw [hactive, activeMember, hf]
    exact if_pos hleft
  · -- the rows are read again under their locks
    refine triple_exec stable_listed fun tx d now ms hA hi hres => ?_
    cases hres
    have hview : (tx.view d now).db.houseMembers = d.houseMembers :=
      view_houseMembers hA.clear.houseMembers
    have hactive : ∀ u, activeMember (tx.view d now).db (toUuid houseId) u =
        activeMember d (toUuid houseId) u := fun u => activeMember_congr (by rw [hview])
    simp only [hactive]
    have hheld : ∀ {u mode}, u ∈ found.map ActiveMember.userId → mode = Mode.shared →
        (LockKey.member (toUuid houseId) u, mode) ∈
          found.map fun m => (LockKey.member (toUuid houseId) m.userId, Mode.shared) := by
      rintro u mode hu rfl
      obtain ⟨f, hf, rfl⟩ := List.mem_map.mp hu
      exact List.mem_map.mpr ⟨f, hf, rfl⟩
    refine ⟨?_, ?_, fun hne => ?_, nodup_reread hA.nodup, fun m hm => ?_, fun u mode m hmem hm => ?_⟩
    · simp [Writes.append, hA.clear.houseMembers]
    · simp [Writes.append, hA.clear.rooms]
    · have hfound : found ≠ [] := fun hnil => hne (by rw [hnil]; rfl)
      obtain ⟨house, hhouse, hin⟩ := hA.founder hfound
      exact ⟨house, hhouse, holds_of_lock _ _ (hheld hin rfl)⟩
    · obtain ⟨f, hf, hact⟩ := List.mem_filterMap.mp hm
      obtain ⟨hid, _⟩ := activeMember_eq_some hact
      rw [hid]
      exact ⟨hact, holds_of_lock _ _ (hheld (List.mem_map_of_mem hf) rfl)⟩
    · rcases List.mem_append.mp hmem with hold | hnew
      · exact absurd hold (hA.clear.locks _ _ _)
      · rcases List.mem_append.mp hnew with hlock | hwrite
        · obtain ⟨f, hf, heq⟩ := List.mem_map.mp hlock
          cases heq
          exact List.mem_filterMap.mpr ⟨f, hf, hm⟩
        · obtain ⟨k, hk, _⟩ := List.mem_map.mp hwrite
          exact absurd hk (LawfulStore.written_nothing (D := Db) k)

end scan

/-! ## Section 4: Deriving the splits -/

/-- The splits come from a scan of the members and from the rooms that the
    house has. -/
def Derives (houseId : JsString) (ms : List ActiveMember) (input : ResolveSplitsInput)
    (splits : Splits JsString) (tx : DbTx) (d : Db) : Prop :=
  ∃ rooms, (Scanned (toUuid houseId) ms tx d ∧
    RoomsRead (toUuid houseId) (roomIdsOf ms input.participants) rooms d) ∧ Resolves ms rooms input splits

section derive

variable {tx : DbTx} {d d' : Db} {h : Uuid} {houseId : JsString} {ms : List ActiveMember}
  {rooms : List (Uuid × Room)} {input : ResolveSplitsInput} {participants : List JsString}
  {splits : Splits JsString} {A : DbTx → Db → Prop} {q : List ActiveMember → Prop}

/-- The rooms stay: the creator of the house is locked, unless the scan
    found nobody and so read no room. -/
theorem undisturbed_rooms : (configProtocol env).Undisturbed Aside fun tx d =>
    Scanned h ms tx d ∧ RoomsRead h (roomIdsOf ms participants) rooms d where
  stable tx d d' hr hi hA := by
    refine ⟨undisturbed_scanned.stable tx d d' hr hi hA.1, hA.2.nodup, fun id room => ?_⟩
    rw [hA.2.mem]
    by_cases hne : ms = []
    · have hnone : roomIdsOf ms participants = [] := by
        subst hne
        exact congrArg List.eraseDups (List.filterMap_eq_nil_iff.mpr fun _ _ => rfl)
      rw [hnone]
      simp
    · obtain ⟨house, hhouse, hheld⟩ := hA.1.anchor hne
      have hsame := HouseRely.steady (ConfigRely.house hr) h house hhouse hheld
      constructor
      · exact fun hroom => ⟨(hsame id room hroom.2.1).mpr hroom.1, hroom.2⟩
      · exact fun hroom => ⟨(hsame id room hroom.2.1).mp hroom.1, hroom.2⟩
  step _ _ _ he hA := ⟨hA.1.add he, hA.2.nodup, hA.2.mem⟩

theorem undisturbed_derives :
    (configProtocol env).Undisturbed Aside (Derives houseId ms input splits) where
  stable tx d d' hr hi hA := by
    obtain ⟨rooms, hread, hs⟩ := hA
    exact ⟨rooms, undisturbed_rooms.stable tx d d' hr hi hread, hs⟩
  step tx d e he hA := by
    obtain ⟨rooms, hread, hs⟩ := hA
    exact ⟨rooms, ⟨hread.1.add he, hread.2.nodup, hread.2.mem⟩, hs⟩

theorem triple_selectRooms : (configProtocol env).Triple (Scanned (toUuid houseId) ms)
    (selectRooms houseId (roomIdsOf ms participants)) fun rooms tx d =>
      Scanned (toUuid houseId) ms tx d ∧
        RoomsRead (toUuid houseId) (roomIdsOf ms participants) rooms d := by
  unfold selectRooms
  split
  · next hnil =>
    refine triple_pure fun tx d hA => ⟨hA, List.nodup_nil, fun id room => ?_⟩
    rw [hnil]
    simp
  · refine triple_select undisturbed_scanned.stable fun tx d now hA hi => ?_
    have hview : (tx.view d now).db.rooms = d.rooms := by
      show d.rooms.patch tx.writes.rooms = d.rooms
      rw [hA.rooms, Table.patch_nil]
    rw [hview]
    refine ⟨hA, (List.filter_sublist.map _).nodup d.rooms.nodup_keys_rows, fun id room => ?_⟩
    rw [List.mem_filter, Table.mem_rows, decide_eq_true_eq]

/-- The derived weights, with the rooms they come from. -/
theorem triple_postingWeights (hmode : input.mode = .room_weighted) :
    (configProtocol env).Triple (Scanned (toUuid houseId) ms) (postingWeights houseId input ms)
      fun weightsBp tx d => ∃ rooms shares weights, (Scanned (toUuid houseId) ms tx d ∧
        RoomsRead (toUuid houseId) (roomIdsOf ms input.participants) rooms d) ∧
        weightsBp = some weights ∧ input.weightsBp = none ∧ roomShares ms rooms = .ok shares ∧
        enterWeights shares input.participants ∅ = .ok weights := by
  unfold postingWeights
  rw [if_pos hmode]
  split
  · exact triple_throw _
  · next hunsent =>
    have hnone : input.weightsBp = none := Option.not_isSome_iff_eq_none.mp hunsent
    refine triple_bind (B := fun weights tx d => ∃ rooms shares, (Scanned (toUuid houseId) ms tx d ∧
      RoomsRead (toUuid houseId) (roomIdsOf ms input.participants) rooms d) ∧
      roomShares ms rooms = .ok shares ∧ enterWeights shares input.participants ∅ = .ok weights)
      ?_ fun weights => triple_pure fun tx d hA => ?_
    · refine triple_bind triple_selectRooms fun rooms => triple_bind (B := fun shares tx d =>
        (Scanned (toUuid houseId) ms tx d ∧
          RoomsRead (toUuid houseId) (roomIdsOf ms input.participants) rooms d) ∧
        roomShares ms rooms = .ok shares) (triple_liftSplit fun shares hs tx d hA => ⟨hA, hs⟩)
        fun shares => triple_ofExcept fun weights hw tx d hA => ?_
      exact ⟨rooms, shares, hA.1, hA.2, hw⟩
    · obtain ⟨rooms, shares, hread, hs, hw⟩ := hA
      exact ⟨rooms, shares, weights, hread, rfl, hnone, hs, hw⟩

/-- `resolveSplits`, after the scan. -/
theorem triple_resolveSplits_derives {pre : Option (List ActiveMember)}
    (hmembers : input.mode = .room_weighted → (configProtocol env).Triple A
      (postingMembers houseId input.mode (input.participants ++ [input.paidBy]).eraseDups pre)
      fun ms tx d => Scanned (toUuid houseId) ms tx d ∧ q ms) :
    (configProtocol env).Triple A (resolveSplits houseId input pre) fun splits tx d =>
      input.mode = .room_weighted → ∃ ms, q ms ∧ Derives houseId ms input splits tx d := by
  by_cases hmode : input.mode = .room_weighted
  · unfold resolveSplits
    refine triple_bind (hmembers hmode) fun ms => ?_
    split
    · exact triple_throw _
    · next hinvolved =>
      split
      · exact triple_throw _
      · next hpayer =>
        refine triple_bind (triple_and (triple_postingWeights hmode)
          (triple_passive (passive_const (fun _ => True) (q ms)) (Txn.only_true _))) fun weightsBp => ?_
        refine triple_liftSplit fun splits hok tx d hA _ => ?_
        obtain ⟨⟨rooms, shares, weights, hread, rfl, hunsent, hs, hw⟩, hq⟩ := hA
        refine ⟨ms, hq, rooms, hread, fun id hid => ?_, fun m hm => ?_, hunsent, shares, weights, hs, hw, hok⟩
        · by_contra hnone
          refine hinvolved (List.any_eq_true.mpr ⟨id, List.mem_eraseDups.mpr hid, ?_⟩)
          rw [Option.not_isSome_iff_eq_none.mp hnone]
          rfl
        · rw [hm, Option.any_some, Bool.not_eq_true] at hpayer
          exact hpayer
  · exact triple_weaken (triple_passive (passive_const (fun _ => True) True) (Txn.only_true _))
      (fun _ _ _ => trivial) fun _ _ _ _ hm => absurd hm hmode

theorem triple_resolveSplitsOr400_derives : (configProtocol env).Triple Clear
    (resolveSplitsOr400 houseId input) fun splits tx d => input.mode = .room_weighted →
      ∃ ms, True ∧ Derives houseId ms input splits tx d := by
  refine triple_mapError (triple_resolveSplits_derives fun hmode => ?_)
  unfold postingMembers
  rw [if_pos hmode]
  exact triple_weaken triple_scan (fun _ _ hA => hA) fun _ _ _ hB => ⟨hB, trivial⟩

end derive

/-! ## Section 5: Postings -/

section asides

variable {α : Type}

theorem beside_nothing : Beside { writes := {} } :=
  ⟨⟨rfl, rfl, fun _ _ _ h => by cases h⟩, Writes.quiet_nothing⟩

theorem does_select {f : View Db → α} : (.select f : DbTxn α).Does Beside :=
  Txn.does_select beside_nothing

theorem does_reject {bad : Prop} [Decidable bad] {err : Err} : (reject bad err).Does Beside := by
  unfold reject
  split <;> trivial

theorem does_selectHouse {h : JsString} {missing : Err} : (selectHouse h missing).Does Beside :=
  Txn.does_exec fun _ => beside_nothing

theorem does_log {event : ActivityInput} : (log event).Does Beside :=
  Txn.does_exec fun _ => ⟨⟨rfl, rfl, fun _ _ _ h => by cases h⟩, ⟨rfl, rfl, rfl, rfl, rfl, rfl⟩⟩

theorem does_store {id : KeyId} {hash : JsString} {r : StoredResponse} :
    (store id hash r).Does Beside :=
  Txn.does_exec fun _ => ⟨⟨rfl, rfl, fun _ _ _ h => by cases h⟩, ⟨rfl, rfl, rfl, rfl, rfl, rfl⟩⟩

theorem does_insertEvent {event : ActivityInput} : (insertEvent event).Does Beside :=
  Txn.does_exec fun _ => ⟨⟨rfl, rfl, fun _ _ _ h => by cases h⟩, ⟨rfl, rfl, rfl, rfl, rfl, rfl⟩⟩

theorem does_advanceBill {id : Uuid} {nextRun : JsString} {matching : BillTemplate → Bool} :
    (advanceBill id nextRun matching).Does Beside :=
  Txn.does_exec fun _ => ⟨⟨rfl, rfl, fun _ _ _ h => by cases h⟩, ⟨rfl, rfl, rfl, rfl, rfl, rfl⟩⟩

theorem does_lockExpense {e : Uuid} : (lockExpense e).Does Aside := by
  refine Txn.does_exec fun v => ⟨rfl, rfl, fun h u mode hmem => ?_⟩
  dsimp only at hmem
  split at hmem
  · cases List.mem_singleton.mp hmem
  · cases hmem

theorem does_insertRevisions {rs : List Revision} : (insertRevisions rs).Does Aside := by
  refine Txn.does_exec fun v => ⟨rfl, rfl, fun h u mode hmem => ?_⟩
  obtain ⟨_, _, heq⟩ := List.mem_map.mp hmem
  cases heq

theorem does_updateExpense {e : Uuid} {input : EditExpenseInput} : (updateExpense e input).Does Aside :=
  Txn.does_exec fun _ => ⟨rfl, rfl, fun _ _ _ h => by cases h⟩

theorem does_deleteSplitsOf {e : Uuid} : (deleteSplitsOf e).Does Aside :=
  Txn.does_bind (Txn.does_select beside_nothing.toAside) fun _ =>
    Txn.does_exec fun _ => ⟨rfl, rfl, fun _ _ _ h => by cases h⟩

theorem does_insertSplits {e : Uuid} {splits : Splits JsString} : (insertSplits e splits).Does Aside := by
  refine Txn.does_exec fun v => ⟨rfl, rfl, fun h u mode hmem => ?_⟩
  obtain ⟨_, _, heq⟩ := List.mem_map.mp hmem
  cases heq

theorem does_insertExpense {startedAt : Millis} {spec : ExpenseSpec} {splits : Splits JsString} :
    (insertExpense env startedAt spec splits).Does Aside := by
  rw [insertExpense_eq]
  refine Txn.does_bind (Txn.does_exec fun v => ⟨rfl, rfl, fun h u mode hmem => ?_⟩) fun _ =>
    Txn.does_bind does_insertSplits fun _ => trivial
  dsimp only at hmem
  split at hmem
  · cases List.mem_singleton.mp hmem
  · cases hmem

end asides

/-- `tx` books an expense, with the splits it has derived when they are
    room-weighted. `p` and `q` say what was asked for. -/
def BooksDerived (env : Env) (p : JsString → ResolveSplitsInput → Expense → Prop)
    (q : ResolveSplitsInput → List ActiveMember → Prop) (tx : DbTx) (d : Db) : Prop :=
  ∃ houseId input h e row splits, p houseId input row ∧ Rebooked env h e row splits tx d ∧
    (input.mode = .room_weighted → ∃ ms, q input ms ∧ Derives houseId ms input splits tx d)

section postings

variable {tx : DbTx} {d : Db} {houseId h : JsString} {input : ResolveSplitsInput}
  {splits : Splits JsString} {p : JsString → ResolveSplitsInput → Expense → Prop}
  {q : ResolveSplitsInput → List ActiveMember → Prop} {u : Uuid} {startedAt : Millis}

theorem undisturbed_derived {q : List ActiveMember → Prop} :
    (configProtocol env).Undisturbed Aside fun tx d =>
      input.mode = .room_weighted → ∃ ms, q ms ∧ Derives houseId ms input splits tx d where
  stable tx d d' hr hi hA hmode := by
    obtain ⟨ms, hq, hd⟩ := hA hmode
    exact ⟨ms, hq, undisturbed_derives.stable tx d d' hr hi hd⟩
  step tx d e he hA hmode := by
    obtain ⟨ms, hq, hd⟩ := hA hmode
    exact ⟨ms, hq, (@undisturbed_derives env _ _ _ _).step tx d e he hd⟩

theorem undisturbed_books : (configProtocol env).Undisturbed Beside (BooksDerived env p q) where
  stable tx d d' hr hi hA := by
    obtain ⟨houseId, input, h, e, row, splits, hp, hb, hd⟩ := hA
    exact ⟨houseId, input, h, e, row, splits, hp,
      passive_rebooked.stable tx d d' (ConfigRely.ledger hr) ⟨hi.1, False.elim⟩ hb,
      undisturbed_derived.stable tx d d' hr hi hd⟩
  step tx d e he hA := by
    obtain ⟨houseId, input, h, e', row, splits, hp, hb, hd⟩ := hA
    exact ⟨houseId, input, h, e', row, splits, hp,
      (@passive_rebooked env False False _ _ _ _).step tx d e he.quiet hb,
      (@undisturbed_derived env _ _ _ (q input)).step tx d e he.toAside hd⟩

/-- The insert of an expense, after its splits are derived. -/
theorem triple_insertExpense_derived {spec : ExpenseSpec} (hcents : spec.amountCents = input.amountCents)
    (hp : p houseId input (spec.row startedAt)) : (configProtocol env).Triple
      (fun tx d => (tx.writes.Quiet ∧ Resolved (toUuid houseId) input.amountCents splits tx d) ∧
        (input.mode = .room_weighted → ∃ ms, q input ms ∧ Derives houseId ms input splits tx d))
      (insertExpense env startedAt spec splits) fun _ => BooksDerived env p q := by
  refine triple_weaken (triple_and (config_of_ledger triple_insertExpense)
    (triple_undisturbed undisturbed_derived does_insertExpense))
    (fun tx d hA => ⟨hcents ▸ hA.1, hA.2⟩) fun r tx d hB => ?_
  obtain ⟨⟨hrow, hb, _⟩, hd⟩ := hB
  exact ⟨houseId, input, _, _, r.2, splits, hrow ▸ hp, hb, hd⟩

/-- What an API posting asks for. -/
def AsksFor (asked : ResolveSplitsInput) (houseId : JsString) (input : ResolveSplitsInput)
    (row : Expense) : Prop := input = asked ∧ toUuid row.houseId = toUuid houseId

theorem createExpense_derives {input : CreateExpenseInput} {id : KeyId} {hash : JsString} :
    (configProtocol env).Triple (fun tx _ => tx = Tx.empty)
      (createExpenseTx env houseId u input (store id hash) startedAt)
      fun _ => BooksDerived env (AsksFor input.resolve) fun _ _ => True := by
  refine triple_weaken (A := fun tx d => tx.writes.Quiet ∧ Clear tx d) ?_
    (fun tx d hA => by rw [hA]; exact ⟨Writes.quiet_nothing, clear_empty⟩) fun _ _ _ hB => hB
  have hkeep : (configProtocol env).Undisturbed Beside fun tx d => tx.writes.Quiet ∧ Clear tx d :=
    (undisturbed_of_ledger passive_quiet fun _ he => he.quiet).and
      (undisturbed_clear.mono fun _ he => he.toAside)
  refine triple_bind (triple_undisturbed hkeep does_selectHouse) fun house => ?_
  refine triple_bind (triple_undisturbed hkeep does_reject) fun _ => ?_
  refine triple_bind (triple_and (config_of_ledger
    (triple_resolveSplitsOr400 passive_quiet fun _ _ hq => hq.houseMembers))
    triple_resolveSplitsOr400_derives) fun splits => ?_
  refine triple_bind (triple_insertExpense_derived (p := AsksFor input.resolve)
    (q := fun _ _ => True) rfl ⟨rfl, toUuid_toUuid _⟩) fun r => ?_
  exact triple_bind (triple_undisturbed undisturbed_books does_log) fun event =>
    triple_bind (triple_undisturbed undisturbed_books does_store) fun _ => triple_pure fun _ _ hB => hB

theorem editExpense_derives {expenseId : JsString} {input : EditExpenseInput} {id : KeyId}
    {hash : JsString} : (configProtocol env).Triple (fun tx _ => tx = Tx.empty)
      (editExpenseTx expenseId u input (store id hash) startedAt)
      fun _ => BooksDerived env (AsksFor input.resolve) fun _ _ => True := by
  refine triple_weaken (A := fun tx d => tx = Tx.empty ∧ Clear tx d) ?_
    (fun tx d hA => by rw [hA]; exact ⟨rfl, clear_empty⟩) fun _ _ _ hB => hB
  refine triple_bind (triple_and (config_of_ledger triple_lockExpense)
    (triple_undisturbed undisturbed_clear does_lockExpense)) fun expense => ?_
  have hedit : (ledgerProtocol env False False).Passive Writes.Quiet fun tx d =>
      Editing (toUuid expenseId) expense tx d ∧ Revised False (toUuid expenseId) tx d :=
    passive_editing.and (passive_revised.mono fun _ hq => hq.expenseRevisions)
  have hclear : (configProtocol env).Undisturbed Beside Clear :=
    undisturbed_clear.mono fun _ he => he.toAside
  have hkeep := (undisturbed_of_ledger hedit fun _ (he : Beside _) => he.quiet).and hclear
  refine triple_bind (triple_undisturbed hkeep does_select) fun editor => ?_
  refine triple_bind (triple_undisturbed hkeep does_reject) fun _ => ?_
  refine triple_bind (triple_and (config_of_ledger triple_previousSplits)
    (triple_undisturbed hclear does_select)) fun rows => ?_
  refine triple_bind (triple_and (config_of_ledger triple_insertRevision)
    (triple_undisturbed undisturbed_clear does_insertRevisions)) fun _ => ?_
  refine triple_bind (triple_weaken (triple_and (config_of_ledger
    (triple_resolveSplitsOr400 passive_editing fun _ _ hA => hA.houseMembers))
    triple_resolveSplitsOr400_derives) (fun _ _ hA => ⟨hA.1.1, hA.2⟩) fun _ _ _ hB => hB) fun splits => ?_
  refine triple_bind (triple_and (config_of_ledger triple_updateExpense)
    (triple_undisturbed undisturbed_derived does_updateExpense)) fun updated => ?_
  refine triple_bind (triple_and (config_of_ledger triple_deleteSplitsOf)
    (triple_undisturbed undisturbed_derived does_deleteSplitsOf)) fun _ => ?_
  refine triple_bind (B := fun _ => BooksDerived env (AsksFor input.resolve) fun _ _ => True)
    (triple_weaken (triple_and (config_of_ledger triple_insertSplits)
      (triple_undisturbed undisturbed_derived does_insertSplits)) (fun _ _ hA => hA)
      fun _ tx d hB => ⟨_, _, _, _, _, _, ⟨rfl, rfl⟩, hB.1, hB.2⟩) fun _ => ?_
  exact triple_bind (triple_undisturbed undisturbed_books does_log) fun event =>
    triple_bind (triple_undisturbed undisturbed_books does_store) fun _ => triple_pure fun _ _ hB => hB

/-- What the worker asks for when it posts `bill`. -/
structure BillAsks (bill : DueBill) (houseId : JsString) (input : ResolveSplitsInput) (row : Expense) :
    Prop where
  house : toUuid row.houseId = toUuid houseId
  template : row.templateId = some bill.id
  amount : input.amountCents = bill.template.amountCents
  payer : input.paidBy = bill.template.ownerId
  mode : input.mode = bill.template.splitMode
  exactCents : input.exactCents = none
  weightsBp : input.weightsBp = none

theorem postOne_derives {bill : DueBill} {period nextRun : JsString} :
    (configProtocol env).Triple (fun tx _ => tx = Tx.empty) (postOneTx env bill period nextRun)
      fun _ => BooksDerived env (BillAsks bill) fun input ms =>
        input.participants = billParticipants bill.template.splitMode ms := by
  refine triple_weaken (A := fun tx d => tx.writes.Quiet ∧ Clear tx d) ?_
    (fun tx d hA => by rw [hA]; exact ⟨Writes.quiet_nothing, clear_empty⟩) fun _ _ _ hB => hB
  have hkeep : (configProtocol env).Undisturbed Beside fun tx d => tx.writes.Quiet ∧ Clear tx d :=
    (undisturbed_of_ledger passive_quiet fun _ he => he.quiet).and
      (undisturbed_clear.mono fun _ he => he.toAside)
  refine triple_bind (triple_undisturbed hkeep does_select) fun startedAt => ?_
  refine triple_bind (triple_and (config_of_ledger
    (triple_lockActiveMembers passive_quiet fun _ _ hq => hq.houseMembers)) triple_scan) fun members => ?_
  have hheld : (ledgerProtocol env False False).Passive Writes.Quiet fun tx d =>
      tx.writes.Quiet ∧ ∀ m ∈ members, Held (toUuid bill.template.houseId) m.userId tx d :=
    passive_quiet.and (Passive.all fun m => Passive.all fun _ => passive_held _ _)
  have hscanned : (configProtocol env).Undisturbed Beside
      (Scanned (toUuid bill.template.houseId) members) :=
    undisturbed_scanned.mono fun _ he => he.toAside
  have hboth := (undisturbed_of_ledger hheld fun _ (he : Beside _) => he.quiet).and hscanned
  refine triple_bind (triple_undisturbed hboth does_reject) fun _ => ?_
  refine triple_bind (triple_undisturbed hboth does_reject) fun _ => ?_
  refine triple_bind (triple_and (config_of_ledger (triple_resolveSplits hheld
    (fun _ _ hA => hA.1.houseMembers) ?_)) (triple_resolveSplits_derives (q := fun ms => ms = members)
    fun _ => triple_pure fun _ _ hA => ⟨hA, rfl⟩)) fun splits => ?_
  · rintro ms ⟨⟩ tx d hA
    exact hA.2
  refine triple_bind (triple_weaken (triple_insertExpense_derived (p := BillAsks bill)
    (q := fun input ms => input.participants = billParticipants bill.template.splitMode ms) rfl
    ⟨toUuid_toUuid _, rfl, rfl, rfl, rfl, rfl, rfl⟩) (fun tx d hA => ⟨⟨hA.1.1.1, hA.1.2⟩, fun hmode => ?_⟩)
    fun _ _ _ hB => hB) fun r => ?_
  · obtain ⟨ms, rfl, hd⟩ := hA.2 hmode
    exact ⟨ms, rfl, hd⟩
  exact triple_bind (triple_undisturbed undisturbed_books does_insertEvent) fun _ =>
    triple_bind (triple_undisturbed undisturbed_books does_advanceBill) fun _ =>
      triple_pure fun _ _ hB => hB

/-! ### The commit -/

/-- A scan in which everybody with a room is locked covers the house. -/
theorem Scanned.covers {tx : DbTx} {h : Uuid} {ms : List ActiveMember} (hs : Scanned h ms tx d)
    (hlocked : ∀ u m, activeMember d h u = some m → m.roomId.isSome →
      ∃ mode, (LockKey.member h u, mode) ∈ tx.locks) : Covers h ms d where
  nodup := hs.nodup
  active m hm := (hs.active m hm).1
  housed u m hm hroom := by
    obtain ⟨mode, hmem⟩ := hlocked u m hm hroom
    exact hs.all u mode m hmem hm

/-- The splits that an insert of splits writes. -/
theorem Rebooked.splitRows {h : Uuid} {e : Uuid} {row : Expense} (hb : Rebooked env h e row splits tx d) :
    (tx.writes.expenseSplits.filterMap fun r => r.2.join) = splitRowsFor e splits := by
  obtain ⟨dead, new, hb, hnew, _⟩ := hb
  rw [hb.rows, List.filterMap_append, ← hnew, List.filterMap_map, List.filterMap_map]
  have hdead : (dead.filterMap fun _ => (none : Option Split)) = [] :=
    List.filterMap_eq_nil_iff.mpr fun _ _ => rfl
  have hlive : (new.filterMap fun r => some r.2) = new.map Prod.snd :=
    congrFun (List.filterMap_eq_map (f := Prod.snd)) new
  exact (congrArg₂ (· ++ ·) hdead hlive).trans (List.nil_append _)

/-- What a posting leaves behind. -/
theorem BooksDerived.one {c : HomiCommit} (hA : BooksDerived env p q c.tx c.before)
    (hb : Housed env c.before) (hlocked : MembersLocked c)
    (hasks : ∀ houseId input e row, c.tx.writes.expenses = [(e, some row)] → p houseId input row →
      toUuid row.houseId = toUuid houseId ∧ input.mode = .room_weighted ∧
        ∀ ms, Covers (toUuid row.houseId) ms c.before → q input ms → Asks c row c.before input) :
    OneConfiguration c c.before := by
  obtain ⟨houseId, input, h, e, row, splits, hp, hbook, hd⟩ := hA
  have hexpenses : c.tx.writes.expenses = [(e, some row)] := by
    obtain ⟨_, _, hb, _⟩ := hbook
    exact hb.expenses
  obtain ⟨hhouse, hmode, hask⟩ := hasks houseId input e row hexpenses hp
  obtain ⟨ms, hq, rooms, ⟨hscan, hread⟩, hs⟩ := hd hmode
  rw [← hhouse] at hscan hread
  have hcovers := hscan.covers (hlocked e row (by rw [hexpenses]; exact List.mem_singleton_self _))
  exact ⟨e, row, splits, input, hexpenses, hask ms hcovers hq,
    hs.splitsAt hmode (hb.rooms _) hcovers hread, hbook.splitRows⟩

end postings

/-! ## Section 6: Calls -/

section calls

variable {c : Call} {u : Uuid} {seen d : Db} {tx : DbTx} {α : Type}

/-- A posting of the API. -/
theorem apiPosting_keeps {asked : ResolveSplitsInput} {m : Millis → DbTxn α} (hc : c.founds = false)
    (hasked : ∀ p tx d, RoomWeighted ⟨p, c, seen, tx, d⟩ → asked.mode = .room_weighted ∧
      ∀ row, Asks ⟨p, c, seen, tx, d⟩ row d asked)
    (hm : ∀ startedAt, (configProtocol env).Triple (fun tx _ => tx = Tx.empty) (m startedAt)
      fun _ => BooksDerived env (AsksFor asked) fun _ _ => True)
    {k : Except Err α → DbProg} (hk : ∀ r, Always (configProtocol env) c (k r)) :
    (configProtocol env).Safe c ((begin >>= m).transact k) seen Tx.empty d := by
  refine safe_of_triple (triple_bind (triple_begin (stable_const _)) hm) rfl
    (fun _ => undisturbed_books.stable) (fun _ tx d hA hi => ⟨fun hno => ?_, fun p hrw hlocked => ?_⟩)
    (fun a _ _ _ _ => hk (.ok a) _ _) fun e d => hk (.error e) _ d
  · rw [hc] at hno
    cases hno
  · refine @BooksDerived.one env _ _ ⟨p, c, seen, tx, d⟩ hA hi.2.1 hlocked
      fun houseId input e row _ hp => ⟨hp.2, ?_, fun _ _ _ => ?_⟩
    · rw [hp.1]
      exact (hasked p tx d hrw).1
    · rw [hp.1]
      exact (hasked p tx d hrw).2 row

theorem createExpense_configures {h key : JsString} {input : CreateExpenseInput}
    (hc : c = .createExpense h u key input) :
    Keeps (configProtocol env) c (begin >>= createExpenseTx env h u input
      (store ⟨toUuid key, u, .createExpense⟩ (env.hashRequest (.createExpense h input)))) := by
  subst hc
  intro k hk seen d
  refine apiPosting_keeps rfl ?_ (fun _ => createExpense_derives) hk
  exact fun p tx d hrw => ⟨hrw, fun _ => rfl⟩

theorem editExpense_configures {e key : JsString} {input : EditExpenseInput}
    (hc : c = .editExpense e u key input) :
    Keeps (configProtocol env) c (begin >>= editExpenseTx e u input
      (store ⟨toUuid key, u, .editExpense⟩ (env.hashRequest (.editExpense e input)))) := by
  subst hc
  intro k hk seen d
  refine apiPosting_keeps rfl ?_ (fun _ => editExpense_derives) hk
  exact fun p tx d hrw => ⟨hrw, fun _ => rfl⟩

/-- A transaction that books nothing. -/
theorem unbooked_keeps {m : DbTxn α} (hm : m.Only fun w => w.expenses = []) {now : Millis}
    {k : Except Err α → DbProg}
    (hk : ∀ r d, (configProtocol env).Safe (.postDueBills now) (k r) seen Tx.empty d) :
    (configProtocol env).Safe (.postDueBills now) (m.transact k) seen Tx.empty d := by
  refine safe_of_triple (triple_only (fun w w' hw hw' => by simp [Writes.append, hw, hw']) hm) rfl
    (fun _ => stable_const _) (fun _ tx d hA _ => ⟨fun hno => (by cases hno), fun p hrw _ => ?_⟩)
    (fun a _ _ _ _ => hk (.ok a) _) fun e d => hk (.error e) d
  obtain ⟨e, row, _, _, hmem, _⟩ := hrw
  rw [show tx.writes.expenses = [] from hA] at hmem
  cases hmem

/-- A period of a bill as the run scanned it. -/
theorem postOne_keeps {bill : DueBill} (hbill : seen.billTemplates.lookup bill.id = some bill.template)
    {now : Millis} {period nextRun : JsString} {k : Except Err Uuid → DbProg}
    (hk : ∀ r d, (configProtocol env).Safe (.postDueBills now) (k r) seen Tx.empty d) :
    (configProtocol env).Safe (.postDueBills now) ((postOneTx env bill period nextRun).transact k)
      seen Tx.empty d := by
  refine safe_of_triple postOne_derives rfl (fun _ => undisturbed_books.stable)
    (fun _ tx d hA hi => ⟨fun hno => (by cases hno), fun p hrw hlocked => ?_⟩)
    (fun a _ _ _ _ => hk (.ok a) _) fun e d => hk (.error e) d
  refine @BooksDerived.one env _ _ ⟨p, .postDueBills now, seen, tx, d⟩ hA hi.2.1 hlocked
    fun houseId input e row hrow hp => ?_
  obtain ⟨e', row', t, template, hmem, ht, hlook, hmode⟩ := hrw
  -- the row is the one that the transaction wrote
  rw [show tx.writes.expenses = [(e, some row)] from hrow] at hmem
  cases List.mem_singleton.mp hmem
  rw [hp.template] at ht
  cases ht
  rw [hbill] at hlook
  cases hlook
  refine ⟨hp.house, hp.mode.trans hmode, fun ms hcovers hq => ⟨bill.id, bill.template, hp.template, hbill,
    hp.amount, hp.payer, hp.mode, hp.exactCents, hp.weightsBp, ?_⟩⟩
  rw [hq, billParticipants, billParticipants, if_pos hmode, if_pos hmode]
  refine (hcovers.filter_perm fun m hm => ?_).map _
  exact Option.isSome_iff_ne_none.mpr (of_decide_eq_true hm)

theorem scanned_template {latest : JsString} {bill : DueBill} (hmem : bill ∈ dueBills d latest) :
    d.billTemplates.lookup bill.id = some bill.template := by
  rw [dueBills, List.mem_insertionSort] at hmem
  obtain ⟨⟨id, template⟩, hrow, hbill⟩ := List.mem_filterMap.mp hmem
  dsimp only at hbill
  split at hbill
  · obtain ⟨house, _, rfl⟩ := Option.map_eq_some_iff.mp hbill
    exact Table.mem_rows.mp hrow
  · cases hbill

theorem postDueBills_configures (now : Millis) :
    Always (configProtocol env) (.postDueBills now) (postDueBills env now) := by
  intro seen d
  unfold postDueBills
  split
  · trivial
  · next latest _ =>
    intro d' now' hr hi _
    let G : DbProg → Prop := fun prog => ∀ d, (configProtocol env).Safe (.postDueBills now) prog d' Tx.empty d
    have hbills : ∀ bill ∈ dueBills d' latest, BillRules G env bill := fun bill hbill =>
      billRules_of_keeps (fun _ _ => trivial) (fun _ _ hnext _ d₁ _ _ => hnext d₁)
        (fun _ _ _ hnext _ => postOne_keeps (scanned_template hbill) hnext)
        (fun _ _ _ hnext _ => unbooked_keeps (only_advanceBill fun _ => rfl) hnext)
        fun _ _ hnext _ => unbooked_keeps (only_pauseTx (fun _ _ => rfl) fun _ => rfl) hnext
    have hrun : G (postBills env now (dueBills d' latest) {}) :=
      passes_postBills (fun _ _ => trivial) fun bill hbill => (hbills bill hbill).due
    exact hrun d'

/-- A transaction that inserts a house, and its creator as a member. -/
def FoundsHouse (tx : DbTx) (_ : Db) : Prop :=
  ∃ h house m, tx.writes.houses = [(h, some house)] ∧
    tx.writes.houseMembers = [((h, house.createdBy), some m)] ∧ m.isPlaceholder = false ∧ m.leftAt = none

theorem FoundsHouse.founders (hA : FoundsHouse tx d) (hd : Founders d) : Founders (tx.commit d) := by
  obtain ⟨h₀, house₀, m₀, hhouses, hmembers, hpl, hleft⟩ := hA
  intro h house hh
  have hhouse : (tx.commit d).houses.lookup h = if h₀ = h then some house₀ else d.houses.lookup h := by
    show (d.houses.patch tx.writes.houses).lookup h = _
    rw [hhouses, Table.lookup_patch_singleton]
  have hmember : ∀ k, (tx.commit d).houseMembers.lookup k =
      if (h₀, house₀.createdBy) = k then some m₀ else d.houseMembers.lookup k := fun k => by
    show (d.houseMembers.patch tx.writes.houseMembers).lookup k = _
    rw [hmembers, Table.lookup_patch_singleton]
  rw [hhouse] at hh
  split at hh
  · next heq =>
    cases hh
    exact ⟨m₀, by rw [hmember, heq, if_pos rfl], hpl, hleft⟩
  · next hne =>
    obtain ⟨m, hm, hrest⟩ := hd h house hh
    exact ⟨m, by rw [hmember, if_neg fun heq => hne (Prod.mk.inj heq).1]; exact hm, hrest⟩

theorem createHouse_configures {input : CreateHouseInput} (hc : c = .createHouse u input) :
    Keeps (configProtocol env) c (begin >>= createHouseTx env u input) := by
  subst hc
  intro k hk seen d
  refine safe_of_triple (A := fun tx _ => tx = Tx.empty) (B := fun _ => FoundsHouse) ?_ rfl
    (fun _ _ _ _ _ _ hA => hA) (fun _ _ _ hA hi => ⟨fun _ => hA.founders hi.2.2, fun p hrw => hrw.elim⟩)
    (fun a _ _ _ _ => hk (.ok a) _ _) fun e d => hk (.error e) _ d
  refine triple_bind (triple_begin (stable_const _)) fun startedAt => ?_
  refine triple_bind (B := fun id tx _ => tx.writes =
    { houses := [(id, some ⟨input.name, input.timezone, input.currency, u, startedAt⟩)] }) ?_ fun id => ?_
  · refine triple_exec (stable_const _) fun tx d now id htx _ hid => ?_
    subst htx
    cases hid
    rfl
  · refine triple_bind (B := fun _ => FoundsHouse) ?_ fun _ => triple_bind (triple_passive ?_
      (only_log (p := Writes.Unhoused) ⟨rfl, rfl, rfl, rfl⟩)) fun _ => triple_pure fun _ _ hA => hA
    · refine triple_exec (stable_const _) fun tx d now _ hw _ _ => ?_
      refine ⟨id, ⟨input.name, input.timezone, input.currency, u, startedAt⟩,
        ⟨.admin, none, false, none, none, startedAt, none⟩, ?_, ?_, rfl, rfl⟩ <;>
        simp [Writes.append, hw]
    · refine ⟨fun _ _ _ _ _ hA => hA, ?_⟩
      rintro tx d e hq ⟨h, house, m, hh, hm, hrest⟩
      refine ⟨h, house, m, ?_, ?_, hrest⟩
      · simp [Writes.append, hh, hq.houses]
      · simp [Writes.append, hm, hq.houseMembers]

theorem config_safe (c : Call) : Always (configProtocol env) c (route env c) := by
  cases c with
  | createHouse u input => exact always_route (fun _ _ => trivial) (createHouse_configures rfl)
  | createExpense h u key input => exact always_route (fun _ _ => trivial) (createExpense_configures rfl)
  | editExpense e u key input => exact always_route (fun _ _ => trivial) (editExpense_configures rfl)
  | postDueBills now => exact postDueBills_configures now
  | _ =>
    refine fun seen d => safe_trivial (fun seen tx d => ?_) (fun _ _ => trivial) _ _ _ _
    exact ⟨fun hno => (by cases hno), fun _ hrw => hrw.elim⟩

/-- Creators stay. -/
theorem Founders.persist {d' : Db} (hd : Founders d) (hp : Persist d d') (hh : d'.houses = d.houses) :
    Founders d' := by
  intro h house hlook
  rw [hh] at hlook
  obtain ⟨m, hm, hpl, hleft⟩ := hd h house hlook
  obtain ⟨m', hm', hpl', _, hleft'⟩ := hp.members _ m hm
  exact ⟨m', hm', hpl'.trans hpl, hleft' hpl hleft⟩

theorem config_lawful :
    (configProtocol env).Lawful (homi env) (Settled env) fun _ _ => True where
  rely_refl tx d := ⟨LedgerRely.refl tx d, .refl tx d⟩
  rely_trans _ _ _ _ h h' := ⟨h.ledger.trans h'.ledger, h.house.trans h'.house⟩
  rely_tick tx n d _ := ⟨LedgerRely.tick tx n d, .tick tx n d⟩
  inv_tick n _ h := ⟨h.1.tick n, h.2.1.tick n, h.2.2⟩
  inv_init := ⟨ledgerBase_empty env, housed_empty env, fun _ _ h => (by cases h)⟩
  inv_commit cm hk hi hg _ := by
    refine ⟨hk.founded.1.after, hk.house.housed hi.2.1 hk.founded, ?_⟩
    by_cases hc : cm.call.founds = true
    · exact hg.founders hc
    · have hspares : cm.tx.writes.Spares .houses := by
        refine hk.founded.1.within.tables _ ?_
        cases hcall : cm.call <;> simp_all [Call.founds, Call.tables]
      have hhouses : cm.tx.writes.houses = [] := hspares
      exact hi.2.2.persist hk.founded.1.step.toPersist
        (show (cm.before.houses.patch cm.tx.writes.houses) = _ by rw [hhouses, Table.patch_nil])
  rely_commit _ _ hk _ _ hheld' hheld hc _ :=
    ⟨LedgerRely.commit hk.founded.1.step hc hheld hheld' False.elim False.elim,
      .commit hk.founded hk.house hheld' hheld hc⟩
  apart_empty _ := trivial
  start c d _ _ := config_safe c d d
  killed _ _ _ _ := trivial

end calls

/-! ## Section 7: Runs -/

theorem settled_reachable {s : HomiState} (h : HomiReachable env s) : ∀ c ∈ s.wal, Settled env c := by
  intro c hc
  have hfounded := founded_reachable h c hc
  obtain ⟨hinv, hguar⟩ := (households_reachable h).commits c hc
  exact ⟨hfounded, hfounded.1.houseGuar hinv.2 hguar⟩

/-- Where a room-weighted posting commits, every active member of its house
    who has a room is locked. -/
def LocksHoused (s : HomiState) (a : Action Call) : Prop :=
  ∀ c, Commits s a c → RoomWeighted c → MembersLocked c

/-- A committed database. -/
def Committed (s : HomiState) (d : Db) : Prop := ∃ c ∈ s.wal, d = c.before ∨ d = c.after

/-- Every room-weighted posting has the splits that one committed database
    gives. -/
def SeesOneConfiguration (s : HomiState) : Prop :=
  ∀ c ∈ s.wal, RoomWeighted c → ∃ d, Committed s d ∧ OneConfiguration c d

/-- In every run whose room-weighted postings commit with all members of the
    house locked who have a room, their splits are those of the database
    they are applied to. -/
theorem postings_see_one_configuration (env : Env) (s : HomiState) (h : Run (homi env) LocksHoused s) :
    SeesOneConfiguration s := by
  intro c hc hrw
  have hreach : HomiReachable env s := h.mono fun _ _ _ => trivial
  have hholds : (configProtocol env).Holds s :=
    Protocol.sound config_lawful
      { allows := fun _ _ _ _ _ _ => trivial
        stops := fun _ _ _ _ _ => trivial
        apart := fun _ _ _ _ _ _ _ _ _ => trivial
        known := fun _ hs => settled_reachable hs } hreach
  have hlocked : RoomWeighted c → MembersLocked c :=
    h.commits (fun s a c hok hcommit => hok c hcommit) c hc
  exact ⟨c.before, ⟨c, hc, Or.inl rfl⟩, (hholds.commits c hc).2.derived c.pid hrw (hlocked hrw)⟩

/-- Whoever steps after it has booked an expense has locked every active
    member of the house who has a room. -/
def holdsHoused (s : HomiState) : Action Call → Bool
  | .run p _ => s.procs[p]?.all fun pr => pr.tx.writes.expenses.all fun r => r.2.all fun row =>
      (activeMembers s.db (toUuid row.houseId) none).all fun m => m.roomId.isNone ||
        pr.tx.locks.any fun x => x.1 = .member (toUuid row.houseId) m.userId
  | _ => true

theorem locksHoused_of_holds (s : HomiState) (a : Action Call) (h : holdsHoused s a = true) :
    LocksHoused s a := by
  rintro c ⟨now, pr, next, rfl, hp, _, hc⟩ _ e row hmem u m hm hroom
  rw [holdsHoused, hp, Option.all_some] at h
  rw [hc] at hmem hm ⊢
  have hrow := List.all_eq_true.mp h (e, some row) hmem
  have hin : m ∈ activeMembers s.db (toUuid row.houseId) none := by
    obtain ⟨rfl, _⟩ := activeMember_eq_some hm
    exact mem_activeMembers.mpr ⟨hm, rfl⟩
  have hlocked := List.all_eq_true.mp hrow m hin
  rw [Option.isNone_eq_false_iff.mpr hroom, Bool.false_or] at hlocked
  obtain ⟨x, hx, heq⟩ := List.any_eq_true.mp hlocked
  obtain ⟨rfl, _⟩ := activeMember_eq_some hm
  exact ⟨x.2, by rw [← of_decide_eq_true heq]; exact hx⟩

/-- `ann` shares the loft with a placeholder. -/
def loft : List RoomInput := [⟨js "Loft", 10000, [ann, sampleUuid 3]⟩]

def loftDinner (participants : List Uuid) : CreateExpenseInput :=
  { dinner 1000 participants with mode := .room_weighted }

def loftSession : List (Call × ℕ) := opening ++ [
  (.createPlaceholder theHouse ann (js "Pat"), 8),
  (.setRooms theHouse ann loft, 13),
  (.createInvite theHouse ann (some (sampleUuid 3)), 5)]

/-- The two share a dinner. -/
def sharedDinner : List (Action Call) := serial 1000 0 (loftSession ++ [
  (.createExpense theHouse ann (sampleUuid 200) (loftDinner [ann, sampleUuid 3]), 13)])

theorem postings_see_one_configuration_loft : ∃ s : HomiState, SeesOneConfiguration s ∧
    ∃ c ∈ s.wal, RoomWeighted c ∧
      (c.tx.writes.expenseSplits.filterMap fun r => r.2.join).map Split.amountCents = [500, 500] := by
  obtain ⟨s, hrun, hs⟩ := Run.exists_of_driveIf (homi sampleEnv) locksHoused_of_holds sharedDinner
    (fun s => s.wal.any fun c => match c.call with
      | .createExpense _ _ _ body => body.mode = .room_weighted &&
          (c.tx.writes.expenseSplits.filterMap fun r => r.2.join).map Split.amountCents = [500, 500]
      | _ => false) (by decide +kernel)
  obtain ⟨c, hc, hq⟩ := List.any_eq_true.mp hs
  refine ⟨s, postings_see_one_configuration sampleEnv s hrun, c, hc, ?_⟩
  unfold RoomWeighted
  split at hq
  · next heq =>
    obtain ⟨hmode, hcents⟩ := Bool.and_eq_true_iff.mp hq
    rw [heq]
    exact ⟨of_decide_eq_true hmode, of_decide_eq_true hcents⟩
  · cases hq

/-- `cleo`'s claim of the placeholder commits while `ann`'s dinner waits for
    the members of its snapshot. -/
def claimedLoft : List (Action Call) := serial 1000 0 (loftSession ++ [
    (.acceptInvite (js "token-5") cleo, 18),
    (.createExpense theHouse ann (sampleUuid 200) (loftDinner [ann]), 5)]) ++
  List.replicate 3 (.run 6 1000) ++ List.replicate 8 (.run 7 1000)

/-- No committed database accepts the split that the commit has made. -/
def unexplained (s : HomiState) (c : HomiCommit) : Bool :=
  match c.call with
  | .createExpense _ _ _ body => body.mode = .room_weighted &&
      c.tx.writes.expenses.all fun r => r.2.all fun row => s.wal.all fun c' =>
        !(splitsAt c'.before row.houseId body.resolve).isOk &&
          !(splitsAt c'.after row.houseId body.resolve).isOk
  | _ => false

theorem not_sees_of_unexplained {s : HomiState} {c : HomiCommit} (hc : c ∈ s.wal)
    (h : unexplained s c = true) : ¬ SeesOneConfiguration s := by
  intro hsees
  rw [unexplained] at h
  split at h
  · next heq =>
    obtain ⟨hmode, hnone⟩ := Bool.and_eq_true_iff.mp h
    obtain ⟨d, ⟨c', hc', hd⟩, e, row, splits, input, hexpenses, hasks, hsplits, _⟩ :=
      hsees c hc (by rw [RoomWeighted, heq]; exact of_decide_eq_true hmode)
    rw [Asks, heq] at hasks
    rw [hexpenses] at hnone
    have hrow := List.all_eq_true.mp hnone (e, some row) (List.mem_singleton_self _)
    obtain ⟨hbefore, hafter⟩ := Bool.and_eq_true_iff.mp (List.all_eq_true.mp hrow c' hc')
    rw [hasks] at hsplits
    rcases hd with rfl | rfl
    · rw [hsplits] at hbefore
      cases hbefore
    · rw [hsplits] at hafter
      cases hafter
  · cases h

/-- A dinner for `ann` alone is split by the rooms although two live in
    them at any time: between the snapshot of its scan and the locks one has
    left, and the other is not in the snapshot. -/
theorem claimed_loft_is_unexplained : ¬ ∀ s, HomiReachable sampleEnv s → SeesOneConfiguration s := by
  intro h
  obtain ⟨s, hrun, hs⟩ := Run.exists_of_drive (homi sampleEnv) claimedLoft
    (fun s => s.wal.any (unexplained s)) (by decide +kernel)
  obtain ⟨c, hc, hq⟩ := List.any_eq_true.mp hs
  exact not_sees_of_unexplained hc hq (h s hrun)

end Homi
