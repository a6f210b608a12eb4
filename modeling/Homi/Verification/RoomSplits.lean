import Homi.Framework.Alone
import Homi.Domain.Rooms
import Homi.Verification.Postings

/-! # Room-weighted splits

  What `resolveSplits` returns when it sees one state of the database, and
  when it accepts a room-weighted split of a house whose rooms are
  configured.
-/

namespace Homi

open ReadCommitted

/-! ## Section 1: Resolving against one state -/

/-- The members that a posting resolves against. -/
def membersAt (d : Db) (houseId : JsString) (mode : SplitMode) (involved : List JsString) :
    List ActiveMember :=
  activeMembers d (toUuid houseId)
    (if mode = .room_weighted then none else some (involved.map toUuid))

/-- The rooms that the participants live in. -/
def roomsAt (d : Db) (houseId : JsString) (participants : List JsString)
    (members : List ActiveMember) : List (Uuid × Room) :=
  d.rooms.rows.filter fun (id, room) => room.houseId = toUuid houseId ∧
    id ∈ (participants.filterMap fun id => (byId members id).bind ActiveMember.roomId).eraseDups

/-- `deriveRoomWeights`, from the rooms of one state. -/
def roomWeightsAt (d : Db) (houseId : JsString) (participants : List JsString)
    (members : List ActiveMember) : Except Err (Record JsString JsNumber) :=
  ((roomShares members (roomsAt d houseId participants members)).mapError Err.split).bind
    fun shareByUser => participants.foldlM (fun weights userId =>
      match shareByUser.lookup userId with
      | some share => .ok (weights.insert userId (JsNumber.int share))
      | none => .error (.posting .noRoom)) ∅

def weightsAt (d : Db) (houseId : JsString) (input : ResolveSplitsInput)
    (members : List ActiveMember) : Except Err (Option (Record JsString JsNumber)) :=
  if input.mode = .room_weighted then
    if input.weightsBp.isSome then .error (.posting .weightsSent)
    else (roomWeightsAt d houseId input.participants members).map some
  else .ok input.weightsBp

/-- What `computeSplits` is asked. -/
def ResolveSplitsInput.toSplit (input : ResolveSplitsInput)
    (weightsBp : Option (Record JsString JsNumber)) : SplitInput JsString where
  totalCents := .int input.amountCents
  paidBy := input.paidBy
  mode := input.mode
  participants := input.participants
  exactCents := input.exactCents
  weightsBp := weightsBp

/-- `resolveSplits` against the database `d`. -/
def splitsAt (d : Db) (houseId : JsString) (input : ResolveSplitsInput) :
    Except Err (Splits JsString) :=
  let involved := (input.participants ++ [input.paidBy]).eraseDups
  let members := membersAt d houseId input.mode involved
  if involved.any fun id => (byId members id).isNone then .error (.posting .notMembers)
  else if (byId members input.paidBy).any ActiveMember.isPlaceholder then
    .error (.posting .placeholderPays)
  else (weightsAt d houseId input members).bind fun weightsBp =>
    (computeSplits (input.toSplit weightsBp)).mapError Err.split

section reads

variable {d : Db} {houseId : JsString}

theorem mem_activeMembers {h : Uuid} {ids : Option (List Uuid)} {m : ActiveMember} :
    m ∈ activeMembers d h ids ↔
      activeMember d h m.userId = some m ∧ ids.all (fun ids => m.userId ∈ ids) = true := by
  unfold activeMembers
  rw [List.mem_filterMap]
  constructor
  · rintro ⟨⟨⟨k, u⟩, row⟩, _, hm⟩
    dsimp only at hm
    split at hm
    · next hk =>
      obtain ⟨rfl, hids⟩ := hk
      obtain ⟨rfl, _⟩ := activeMember_eq_some hm
      exact ⟨hm, hids⟩
    · cases hm
  · rintro ⟨hm, hids⟩
    obtain ⟨_, row, hrow, _⟩ := activeMember_eq_some hm
    refine ⟨((h, m.userId), row), Table.mem_rows.mpr hrow, ?_⟩
    dsimp only
    rw [if_pos ⟨rfl, hids⟩]
    exact hm

/-- Reading the members again gives them again. -/
theorem filterMap_activeMembers (h : Uuid) (ids : Option (List Uuid)) :
    (activeMembers d h ids).filterMap (fun m => activeMember d h m.userId) =
      activeMembers d h ids := by
  have hsome : ∀ m ∈ activeMembers d h ids, activeMember d h m.userId = some m :=
    fun m hm => (mem_activeMembers.mp hm).1
  generalize activeMembers d h ids = members at hsome
  induction members with
  | nil => rfl
  | cons m rest ih =>
    rw [List.filterMap_cons, hsome m (List.mem_cons_self ..)]
    dsimp only
    rw [ih fun m hm => hsome m (List.mem_cons_of_mem _ hm)]

theorem reads_lockActiveMembers (ids : Option (List JsString)) :
    (lockActiveMembers houseId ids).Reads fun v =>
      .ok (activeMembers v.db (toUuid houseId) (ids.map fun ids => ids.map toUuid)) := by
  refine (Txn.reads_bind (Txn.reads_select _) fun found =>
    Txn.reads_exec (fun _ => rfl) fun _ => rfl).congr fun v => ?_
  exact congrArg Except.ok (filterMap_activeMembers _ _)

theorem reads_liftSplit {α : Type} (x : Except (SplitError JsString) α) :
    (liftSplit x).Reads fun _ => x.mapError Err.split := by
  cases x with
  | ok a => exact Txn.reads_pure a
  | error e => exact Txn.reads_throw _

theorem reads_deriveRoomWeights (participants : List JsString) (members : List ActiveMember) :
    (deriveRoomWeights houseId participants members).Reads fun v =>
      roomWeightsAt v.db houseId participants members := by
  have hrooms : ∀ roomIds : List Uuid, (selectRooms houseId roomIds).Reads fun v =>
      .ok (v.db.rooms.rows.filter fun (id, room) =>
        room.houseId = toUuid houseId ∧ id ∈ roomIds) := by
    intro roomIds
    unfold selectRooms
    split
    · next hnil =>
      refine (Txn.reads_pure _).congr fun v => ?_
      rw [hnil]
      simp
    · exact Txn.reads_select _
  exact Txn.reads_bind (hrooms _) fun rooms =>
    Txn.reads_bind (reads_liftSplit _) fun shareByUser => Txn.reads_ofExcept _

/-- `resolveSplits` over members that it was given or that it has read. -/
def splitsOver (d : Db) (houseId : JsString) (input : ResolveSplitsInput) (members : List ActiveMember) :
    Except Err (Splits JsString) :=
  if (input.participants ++ [input.paidBy]).eraseDups.any fun id => (byId members id).isNone then
    .error (.posting .notMembers)
  else if (byId members input.paidBy).any ActiveMember.isPlaceholder then
    .error (.posting .placeholderPays)
  else (weightsAt d houseId input members).bind fun weightsBp =>
    (computeSplits (input.toSplit weightsBp)).mapError Err.split

theorem reads_resolveSplits_over (input : ResolveSplitsInput) {pre : Option (List ActiveMember)}
    (ms : Db → List ActiveMember)
    (hms : (postingMembers houseId input.mode (input.participants ++ [input.paidBy]).eraseDups pre).Reads
      fun v => .ok (ms v.db)) :
    (resolveSplits houseId input pre).Reads fun v => splitsOver v.db houseId input (ms v.db) := by
  -- after the members, only the rooms are read
  have hweights : ∀ members, (postingWeights houseId input members).Reads fun v =>
      weightsAt v.db houseId input members := by
    intro members
    unfold postingWeights weightsAt
    split
    · split
      · exact Txn.reads_throw _
      · exact (Txn.reads_bind (reads_deriveRoomWeights _ _) fun weights =>
          Txn.reads_pure (some weights)).congr fun v => by
            cases roomWeightsAt v.db houseId input.participants members <;> rfl
    · exact Txn.reads_pure _
  refine (Txn.reads_bind hms (q := fun members v => splitsOver v.db houseId input members)
    fun members => ?_).congr fun v => rfl
  unfold splitsOver
  split
  · exact Txn.reads_throw _
  · split
    · exact Txn.reads_throw _
    · exact Txn.reads_bind (hweights members) fun weightsBp => reads_liftSplit _

/-- Run alone, `resolveSplits` resolves against the database it sees. -/
theorem reads_resolveSplits (input : ResolveSplitsInput) :
    (resolveSplits houseId input none).Reads fun v => splitsAt v.db houseId input := by
  let involved := (input.participants ++ [input.paidBy]).eraseDups
  let ms : Db → List ActiveMember := fun d => membersAt d houseId input.mode involved
  have hms : (postingMembers houseId input.mode involved none).Reads fun v => .ok (ms v.db) := by
    refine (reads_lockActiveMembers _).congr fun v => ?_
    simp only [ms, membersAt]
    split <;> rfl
  exact reads_resolveSplits_over input ms hms

end reads

/-! ## Section 2: Occupants and shares -/

/-- The occupants of a room, the earliest first. -/
def roomOccupants (members : List ActiveMember) (id : Uuid) : List Uuid :=
  ((members.filter fun m => m.roomId = some id).insertionSort earlier).map ActiveMember.userId

section occupants

variable {d : Db} {h : Uuid} {members : List ActiveMember} {id u : Uuid}

/-- Members are listed once. -/
theorem nodup_activeMembers (ids : Option (List Uuid)) :
    ((activeMembers d h ids).map ActiveMember.userId).Nodup := by
  have hkeys : d.houseMembers.rows.Pairwise fun a b => a.1 ≠ b.1 :=
    List.pairwise_map.mp d.houseMembers.nodup_keys_rows
  unfold activeMembers
  rw [List.Nodup, List.pairwise_map, List.pairwise_filterMap]
  refine hkeys.imp ?_
  rintro ⟨⟨k, v⟩, row⟩ ⟨⟨k', v'⟩, row'⟩ hne a ha b hb hab
  dsimp only at ha hb
  split at ha
  · next hk =>
    split at hb
    · next hk' =>
      obtain ⟨rfl, _⟩ := hk
      obtain ⟨rfl, _⟩ := hk'
      obtain ⟨rfl, _⟩ := activeMember_eq_some ha
      obtain ⟨rfl, _⟩ := activeMember_eq_some hb
      exact hne (by rw [hab])
    · cases hb
  · cases ha

theorem mem_roomOccupants :
    u ∈ roomOccupants members id ↔ ∃ m ∈ members, m.userId = u ∧ m.roomId = some id := by
  simp only [roomOccupants, List.mem_map, List.mem_insertionSort, List.mem_filter,
    decide_eq_true_eq]
  constructor
  · rintro ⟨m, ⟨hm, hroom⟩, hu⟩
    exact ⟨m, hm, hu, hroom⟩
  · rintro ⟨m, hm, hu, hroom⟩
    exact ⟨m, ⟨hm, hroom⟩, hu⟩

theorem nodup_roomOccupants (hnd : (members.map ActiveMember.userId).Nodup) (id : Uuid) :
    (roomOccupants members id).Nodup := by
  have hfilter : ((members.filter fun m => m.roomId = some id).map ActiveMember.userId).Nodup :=
    hnd.sublist (List.filter_sublist.map _)
  exact (((List.perm_insertionSort earlier _).map _).nodup_iff).mpr hfilter

/-- A member occupies one room. -/
theorem room_unique (hnd : (members.map ActiveMember.userId).Nodup) {id' : Uuid}
    (hu : u ∈ roomOccupants members id) (hu' : u ∈ roomOccupants members id') : id = id' := by
  obtain ⟨m, hm, rfl, hroom⟩ := mem_roomOccupants.mp hu
  obtain ⟨m', hm', heq, hroom'⟩ := mem_roomOccupants.mp hu'
  obtain rfl := List.inj_on_of_nodup_map hnd hm' hm heq
  rw [hroom] at hroom'
  exact Option.some.inj hroom'

theorem byId_activeMembers : byId (activeMembers d h none) u = activeMember d h u := by
  cases hfind : byId (activeMembers d h none) u with
  | some m =>
    obtain ⟨hm, rfl⟩ := byId_eq_some hfind
    exact (mem_activeMembers.mp hm).1.symm
  | none =>
    symm
    rw [Option.eq_none_iff_forall_ne_some]
    intro m hm
    obtain ⟨rfl, _⟩ := activeMember_eq_some hm
    have hmem : m ∈ activeMembers d h none := mem_activeMembers.mpr ⟨hm, rfl⟩
    exact absurd (List.find?_eq_none.mp hfind m hmem) (by simp)

end occupants

/-! ## Section 3: Deriving the weights -/

section weights

variable {houseId : JsString} {members : List ActiveMember}

/-- Entering all shares of a room. -/
theorem lookup_enterShares (shares r : Record JsString ℤ) (u : JsString) :
    (shares.rows.foldl (fun r (u, share) => r.insert u share) r).lookup u =
      (shares.lookup u).or (r.lookup u) := by
  -- the loop is a patch
  have hpatch : shares.rows.foldl (fun (r : Record JsString ℤ) (u, share) => r.insert u share) r =
      Table.patch r (shares.rows.map fun x => (x.1, some x.2)) := by
    rw [Table.patch, List.foldl_map]
    rfl
  rw [hpatch, Table.lookup_patch]
  cases hu : shares.lookup u with
  | some share =>
    rw [Table.lastEdit_of_mem (o := some share) ?_ ?_]
    · rfl
    · rw [List.map_map]
      exact shares.nodup_keys_rows
    · exact List.mem_map.mpr ⟨(u, share), Table.mem_rows.mpr hu, rfl⟩
  | none =>
    rw [Table.lastEdit_eq_none.mpr ?_]
    · rfl
    · intro hmem
      rw [List.map_map] at hmem
      obtain ⟨⟨k, share⟩, hrow, rfl⟩ := List.mem_map.mp hmem
      have hsome : shares.lookup k = some share := Table.mem_rows.mp hrow
      exact absurd (hsome.symm.trans hu) (by simp)

/-- The loop of `roomShares`. -/
def enterRoom (members : List ActiveMember) (shareByUser : Record JsString ℤ)
    (r : Uuid × Room) : Except (SplitError JsString) (Record JsString ℤ) :=
  divideRoomWeight (.int r.2.weightBp) (roomOccupants members r.1) >>= fun shares =>
    pure (shares.rows.foldl (fun shareByUser (u, share) => shareByUser.insert u share) shareByUser)

theorem roomShares_foldlM (members : List ActiveMember) (rooms : List (Uuid × Room)) :
    roomShares members rooms = rooms.foldlM (enterRoom members) ∅ := rfl

/-- The shares of all rooms in a list, each of which somebody lives in. -/
theorem roomShares_eq (hnd : (members.map ActiveMember.userId).Nodup) {rooms : List (Uuid × Room)}
    (hids : (rooms.map Prod.fst).Nodup)
    (hweight : ∀ r ∈ rooms, 1 ≤ r.2.weightBp ∧ r.2.weightBp ≤ 10000)
    (hused : ∀ r ∈ rooms, roomOccupants members r.1 ≠ []) :
    ∃ shares, roomShares members rooms = .ok shares ∧
      (∀ r ∈ rooms, ∀ u ∈ roomOccupants members r.1,
        shares.lookup u = some (roomShare r.2.weightBp (roomOccupants members r.1) u)) ∧
      ∀ u, (∀ r ∈ rooms, u ∉ roomOccupants members r.1) → shares.lookup u = none := by
  -- over the rooms, from the shares of those before
  have hloop : ∀ acc : Record JsString ℤ, ∃ shares,
      rooms.foldlM (enterRoom members) acc = .ok shares ∧
      (∀ r ∈ rooms, ∀ u ∈ roomOccupants members r.1,
        shares.lookup u = some (roomShare r.2.weightBp (roomOccupants members r.1) u)) ∧
      ∀ u, (∀ r ∈ rooms, u ∉ roomOccupants members r.1) → shares.lookup u = acc.lookup u := by
    induction rooms with
    | nil => exact fun acc => ⟨acc, rfl, fun r hr => absurd hr List.not_mem_nil, fun _ _ => rfl⟩
    | cons first rest ih =>
      intro acc
      obtain ⟨hfirst, hrest⟩ := List.nodup_cons.mp hids
      obtain ⟨hlo, hhi⟩ := hweight first (List.mem_cons_self ..)
      obtain ⟨own, hown, hlook⟩ := divideRoomWeight_eq hlo hhi (hused first (List.mem_cons_self ..))
        (nodup_roomOccupants hnd first.1)
      obtain ⟨shares, hshares, hin, hout⟩ := ih hrest (fun r hr => hweight r (List.mem_cons_of_mem _ hr))
        (fun r hr => hused r (List.mem_cons_of_mem _ hr))
        (own.rows.foldl (fun shareByUser (u, share) => shareByUser.insert u share) acc)
      refine ⟨shares, ?_, ?_, ?_⟩
      · rw [List.foldlM_cons, enterRoom, hown]
        exact hshares
      · intro r hr u hu
        rcases List.mem_cons.mp hr with rfl | hr
        · -- the rooms after it have other occupants
          rw [hout u fun r' hr' hu' => hfirst (List.mem_map.mpr ⟨r', hr', room_unique hnd hu' hu⟩),
            lookup_enterShares, lookup_inst, hlook u, if_pos hu, Option.some_or]
        · exact hin r hr u hu
      · intro u hu
        rw [hout u fun r hr => hu r (List.mem_cons_of_mem _ hr), lookup_enterShares,
          lookup_inst, hlook u, if_neg (hu first (List.mem_cons_self ..)), Option.none_or]
  rw [roomShares_foldlM]
  exact hloop ∅

/-- The loop over the participants: each needs an entry. -/
def enterWeights (shareByUser : Record JsString ℤ) (participants : List JsString)
    (weights : Record JsString JsNumber) : Except Err (Record JsString JsNumber) :=
  participants.foldlM (fun weights userId =>
    match shareByUser.lookup userId with
    | some share => .ok (weights.insert userId (JsNumber.int share))
    | none => .error (.posting .noRoom)) weights

theorem enterWeights_error {shares : Record JsString ℤ} {participants : List JsString}
    {weights : Record JsString JsNumber} {e : Err} (h : enterWeights shares participants weights = .error e) :
    e = .posting .noRoom := by
  induction participants generalizing weights with
  | nil => cases h
  | cons first rest ih =>
    rw [enterWeights, List.foldlM_cons] at h
    cases hfirst : shares.lookup first with
    | none =>
      rw [hfirst] at h
      cases h
      rfl
    | some share =>
      rw [hfirst] at h
      exact ih h

variable {d : Db} {h : Uuid}

/-- What the rooms of a house should be: weights in `1..10000` with the sum
    10000, and members that live in rooms of the house. -/
structure RoomsConfigured (d : Db) (h : Uuid) : Prop where
  weights : ∀ id room, d.rooms.lookup id = some room → room.houseId = h →
    1 ≤ room.weightBp ∧ room.weightBp ≤ 10000
  sum : d.rooms.total (fun _ room => if room.houseId = h then room.weightBp else 0) = 10000
  homes : ∀ u m id, d.houseMembers.lookup (h, u) = some m → m.roomId = some id →
    ∃ room, d.rooms.lookup id = some room ∧ room.houseId = h

theorem RoomsConfigured.room (hc : RoomsConfigured d h) {u : Uuid} {m : ActiveMember} {id : Uuid}
    (hm : activeMember d h u = some m) (hid : m.roomId = some id) :
    ∃ room, d.rooms.lookup id = some room ∧ room.houseId = h := by
  unfold activeMember at hm
  split at hm
  · next row hrow =>
    split at hm
    · cases hm
      exact hc.homes u row id hrow hid
    · cases hm
  · cases hm

end weights

/-! ## Section 4: When a split is accepted -/

section accepted

variable {d : Db} {h : Uuid}

end accepted

section wholeHouse

variable {members : List ActiveMember} {rooms : List (Uuid × Room)}

/-- A house in which every room is lived in and every member has one, with
    room weights that make up the whole. -/
structure WholeHouse (members : List ActiveMember) (rooms : List (Uuid × Room)) : Prop where
  distinct : (members.map ActiveMember.userId).Nodup
  separate : (rooms.map Prod.fst).Nodup
  weights : ∀ r ∈ rooms, 1 ≤ r.2.weightBp
  sum : (rooms.map fun r => r.2.weightBp).sum = 10000
  occupied : ∀ r ∈ rooms, ∃ m ∈ members, m.roomId = some r.1
  housed : ∀ m ∈ members, ∃ r ∈ rooms, m.roomId = some r.1

theorem WholeHouse.weight_le (hw : WholeHouse members rooms) : ∀ r ∈ rooms, r.2.weightBp ≤ 10000 := by
  intro r hr
  rw [← hw.sum]
  refine List.single_le_sum ?_ _ (List.mem_map_of_mem hr)
  intro x hx
  obtain ⟨r', hr', rfl⟩ := List.mem_map.mp hx
  have := hw.weights r' hr'
  omega

theorem WholeHouse.used (hw : WholeHouse members rooms) :
    ∀ r ∈ rooms, roomOccupants members r.1 ≠ [] := by
  intro r hr hnil
  obtain ⟨m, hm, hroom⟩ := hw.occupied r hr
  have hmem : m.userId ∈ roomOccupants members r.1 := mem_roomOccupants.mpr ⟨m, hm, rfl, hroom⟩
  rw [hnil] at hmem
  exact List.not_mem_nil hmem

/-- The occupants of all rooms are the members, each once. -/
theorem WholeHouse.perm (hw : WholeHouse members rooms) :
    (rooms.flatMap fun r => roomOccupants members r.1).Perm (members.map ActiveMember.userId) := by
  refine (List.perm_ext_iff_of_nodup ?_ hw.distinct).mpr ?_
  · rw [List.nodup_flatMap]
    refine ⟨fun r _ => nodup_roomOccupants hw.distinct r.1, ?_⟩
    refine (List.pairwise_map.mp hw.separate).imp ?_
    intro r r' hne u hu hu'
    exact hne (room_unique hw.distinct hu hu')
  · intro u
    rw [List.mem_flatMap, List.mem_map]
    constructor
    · rintro ⟨r, _, hu⟩
      obtain ⟨m, hm, hid, _⟩ := mem_roomOccupants.mp hu
      exact ⟨m, hm, hid⟩
    · rintro ⟨m, hm, rfl⟩
      obtain ⟨r, hr, hroom⟩ := hw.housed m hm
      exact ⟨r, hr, mem_roomOccupants.mpr ⟨m, hm, rfl, hroom⟩⟩

/-- The shares of all rooms are the weights of the house. -/
theorem roomShares_whole (hw : WholeHouse members rooms) :
    ∃ shares, roomShares members rooms = .ok shares ∧
      WeightMap (members.map ActiveMember.userId) shares := by
  obtain ⟨shares, hshares, hin, hout⟩ := roomShares_eq hw.distinct hw.separate
    (fun r hr => ⟨hw.weights r hr, hw.weight_le r hr⟩) hw.used
  let all := rooms.flatMap fun r => roomOccupants members r.1
  have hlook : ∀ u, shares.lookup u = if u ∈ all then some ((shares.lookup u).getD 0) else none := by
    intro u
    by_cases hu : u ∈ all
    · obtain ⟨r, hr, hur⟩ := List.mem_flatMap.mp hu
      rw [if_pos hu, hin r hr u hur]
      rfl
    · rw [if_neg hu]
      refine hout u ?_
      intro r hr hur
      exact hu (List.mem_flatMap.mpr ⟨r, hr, hur⟩)
  have hnonneg : ∀ u share, shares.lookup u = some share → 0 ≤ share := by
    intro u share hu
    by_cases hmem : u ∈ all
    · obtain ⟨r, hr, hur⟩ := List.mem_flatMap.mp hmem
      rw [hin r hr u hur] at hu
      cases hu
      have := hw.weights r hr
      exact roomShare_nonneg (by omega) _ _
    · rw [hlook, if_neg hmem] at hu
      cases hu
  -- the shares of each room sum to its weight
  have hsum : (all.map fun u => (shares.lookup u).getD 0).sum = 10000 := by
    rw [List.map_flatMap, List.flatMap_def, List.sum_flatten, List.map_map, ← hw.sum]
    refine congrArg List.sum (List.map_congr_left ?_)
    intro r hr
    rw [← sum_roomShare (hw.used r hr) (nodup_roomOccupants hw.distinct r.1) r.2.weightBp]
    refine congrArg List.sum (List.map_congr_left ?_)
    intro u hu
    rw [hin r hr u hu]
    rfl
  refine ⟨shares, hshares, ?_⟩
  refine (weightMap_of_shares (hw.perm.nodup_iff.mpr hw.distinct) ?_ ?_ hsum).reordered hw.perm
  · intro u
    rw [← lookup_inst]
    convert hlook u
  · intro u hu
    have hsome := hlook u
    rw [if_pos hu] at hsome
    exact hnonneg u _ hsome

end wholeHouse

/-- How the weight of a room divides.

    * `divides`: what the occupants of a room get.
    * `throws`: there is no other room.
    * `house`: the shares of all rooms make up a weight map for the house. -/
structure RoomDivision : Prop where
  divides : ∀ (weightBp : ℤ) (occupants : List JsString), 1 ≤ weightBp → weightBp ≤ 10000 →
    occupants ≠ [] → occupants.Nodup →
    ∃ shares, divideRoomWeight (.int weightBp) occupants = .ok shares ∧
      DividedRoom weightBp occupants shares
  throws : ∀ (weightBp : JsNumber) (occupants : List JsString),
    ¬ (∃ w, weightBp = .int w ∧ 1 ≤ w ∧ w ≤ 10000 ∧ occupants ≠ [] ∧ occupants.Nodup) →
    ∃ err, divideRoomWeight weightBp occupants = .error err
  house : ∀ members rooms, WholeHouse members rooms →
    ∃ shares, roomShares members rooms = .ok shares ∧
      WeightMap (members.map ActiveMember.userId) shares

theorem room_division : RoomDivision where
  divides := fun _ _ hlo hhi hne hnd => divideRoomWeight_divides hlo hhi hne hnd
  throws := by
    intro weightBp occupants hother
    cases hres : divideRoomWeight weightBp occupants with
    | error err => exact ⟨err, rfl⟩
    | ok shares => exact absurd (divideRoomWeight_ok hres) hother
  house := fun _ _ hw => roomShares_whole hw

end Homi
