import Homi.Verification.Parties
import Homi.Verification.Replies
import Homi.Verification.RoomSplits

/-! # Rooms and their occupants

  A house has no rooms, or rooms whose weights sum to 10000, and whoever
  lives in a room lives in one of the house.

  What keeps two configurations apart is the membership of the creator of
  the house. It is there from the start, so that every configuration
  updates it before it looks for the rooms to delete. A claim that moves
  its user into a room takes a shared lock on the room, so that a
  configuration that has deleted the room finds it empty at its end.
-/

namespace Homi

open ReadCommitted Protocol

variable {env : Env} {c : Call} {me : Option Uuid}

/-! ## Section 1: Households -/

/-- Rooms of the house `h`, with weights in `1..10000` that sum to 10000,
    or no rooms at all. -/
def Configured (d : Db) (h : Uuid) : Prop :=
  (∀ id room, d.rooms.lookup id = some room → room.houseId ≠ h) ∨
    (∀ id room, d.rooms.lookup id = some room → room.houseId = h →
      1 ≤ room.weightBp ∧ room.weightBp ≤ 10000) ∧
    d.rooms.total (fun _ room => if room.houseId = h then room.weightBp else 0) = 10000

/-- Every membership has no room or a room of its own house. -/
def Lodged (d : Db) : Prop :=
  ∀ h u m id, d.houseMembers.lookup (h, u) = some m → m.roomId = some id →
    ∃ room, d.rooms.lookup id = some room ∧ room.houseId = h

/-- The house, the creator and the placeholder of an invite are there. -/
structure GoodInvite (me : Option Uuid) (d : Db) (r : Invite) : Prop where
  house : ∃ house, d.houses.lookup r.houseId = some house
  creator : Acts me d r.createdBy
  placeholder : ∀ p, r.placeholderUserId = some p → d.IsPlaceholder r.houseId p

/-- What holds of houses, members and rooms in every committed database. -/
structure Housed (env : Env) (d : Db) : Prop where
  ids : ∀ id room, d.rooms.lookup id = some room → ∃ n < d.fresh, id = env.uuid n
  homes : ∀ h u m, d.houseMembers.lookup (h, u) = some m → ∃ house, d.houses.lookup h = some house
  founder : ∀ h house, d.houses.lookup h = some house →
    ∃ m, d.houseMembers.lookup (h, house.createdBy) = some m
  rooms : ∀ h, Configured d h
  lodged : Lodged d
  invites : ∀ i r, d.invites.lookup i = some r → GoodInvite none d r

/-- The house has the same rooms in both. -/
def SameRooms (h : Uuid) (d d' : Db) : Prop :=
  ∀ id room, room.houseId = h → (d'.rooms.lookup id = some room ↔ d.rooms.lookup id = some room)

section rows

variable {d d' : Db} {h : Uuid}

theorem GoodInvite.keep {r : Invite} (hg : GoodInvite me d r) (hp : Persist d d')
    (hk : HousesKept d d') : GoodInvite me d' r where
  house := hg.house.imp fun _ hh => hk _ _ hh
  creator := hg.creator.persist hp
  placeholder p hpl := hp.isPlaceholder (hg.placeholder p hpl)

theorem SameRooms.refl (h : Uuid) (d : Db) : SameRooms h d d := fun _ _ _ => Iff.rfl

theorem SameRooms.trans {a b d : Db} (h₁ : SameRooms h a b) (h₂ : SameRooms h b d) :
    SameRooms h a d := fun id room hh => (h₂ id room hh).trans (h₁ id room hh)

/-- A configuration only depends on the rooms of the house. -/
theorem Configured.congr (hc : Configured d h) (hs : SameRooms h d d') : Configured d' h := by
  have hnone : (∀ id room, d.rooms.lookup id = some room → room.houseId ≠ h) →
      ∀ id room, d'.rooms.lookup id = some room → room.houseId ≠ h := fun hno id room hr hh =>
    hno id room ((hs id room hh).mp hr) hh
  rcases hc with hno | ⟨hweights, hsum⟩
  · exact Or.inl (hnone hno)
  · refine Or.inr ⟨fun id room hr hh => hweights id room ((hs id room hh).mp hr) hh, ?_⟩
    -- both totals are that of the rows of the house in `d`
    have hrows : ∀ k room, (k, room) ∈ d.rooms.rows.filter (fun r => decide (r.2.houseId = h)) ↔
        d.rooms.lookup k = some room ∧ room.houseId = h := fun k room => by
      rw [List.mem_filter, Table.mem_rows, decide_eq_true_eq]
    have hnd : ((d.rooms.rows.filter fun r => decide (r.2.houseId = h)).map Prod.fst).Nodup :=
      d.rooms.nodup_keys_rows.sublist (List.filter_sublist.map _)
    rw [← hsum, Table.total_filter Room.weightBp hnd hrows]
    refine Table.total_filter Room.weightBp hnd fun k room => (hrows k room).trans ?_
    constructor
    · exact fun hr => ⟨(hs k room hr.2).mpr hr.1, hr.2⟩
    · exact fun hr => ⟨(hs k room hr.2).mp hr.1, hr.2⟩

end rows

/-! ## Section 2: The protocol -/

/-- Calls that write houses, memberships, rooms or invites. -/
def Call.settles : Call → Bool
  | .createHouse _ _ | .createPlaceholder _ _ _ | .setDisplayName _ _ _ | .setRooms _ _ _
  | .createInvite _ _ _ | .acceptInvite _ _ => true
  | _ => false

/-- What others do meanwhile: they leave the rooms of a house alone whose
    creator's membership is locked, and move nobody into a room that `tx`
    has deleted or inserted. -/
structure HouseRely (tx : DbTx) (d d' : Db) : Prop where
  persist : Persist d d'
  houses : HousesKept d d'
  frame : Frame tx d d'
  fresh : d.fresh ≤ d'.fresh
  steady : ∀ h house, d.houses.lookup h = some house → tx.Holds (.member h house.createdBy) →
    SameRooms h d d'
  lodgers : ∀ k m id, d'.houseMembers.lookup k = some m → m.roomId = some id →
    tx.Owns (.room id) → ∃ m₀, d.houseMembers.lookup k = some m₀ ∧ m₀.roomId = some id

/-- What a commit leaves behind. -/
structure HouseGuar (env : Env) (me : Option Uuid) (tx : DbTx) (d : Db) : Prop where
  ids : ∀ id room, (tx.commit d).rooms.lookup id = some room → ∃ n < d.fresh, id = env.uuid n
  homes : ∀ h u m, (tx.commit d).houseMembers.lookup (h, u) = some m →
    ∃ house, (tx.commit d).houses.lookup h = some house
  founder : ∀ h house, (tx.commit d).houses.lookup h = some house →
    ∃ m, (tx.commit d).houseMembers.lookup (h, house.createdBy) = some m
  rooms : ∀ h, Configured (tx.commit d) h
  lodged : Lodged (tx.commit d)
  invites : ∀ i r, (i, some r) ∈ tx.writes.invites → GoodInvite me d r
  steady : ∀ h house, d.houses.lookup h = some house → SameRooms h d (tx.commit d) ∨
    tx.Owns (.member h house.createdBy)
  lodgers : ∀ k m id, (tx.commit d).houseMembers.lookup k = some m → m.roomId = some id →
    (∃ m₀, d.houseMembers.lookup k = some m₀ ∧ m₀.roomId = some id) ∨ tx.Holds (.room id)

def householdsProtocol (env : Env) : DbProtocol where
  inv d := LedgerBase env d ∧ Housed env d
  rely := HouseRely
  guar c _ tx d := c.settles = true → HouseGuar env c.user? tx d
  post _ _ _ := True
  allows _ _ _ _ _ := True
  stops _ _ := True

/-- What is known of a commit here. -/
def Founded (env : Env) (c : HomiCommit) : Prop := Known env c ∧ HousesKept c.before c.after

/-- A transaction that writes none of the tables. -/
theorem HouseGuar.of_spares {tx : DbTx} {d : Db} (hb : Housed env d)
    (hh : tx.writes.houses = []) (hm : tx.writes.houseMembers = []) (hr : tx.writes.rooms = [])
    (hi : tx.writes.invites = []) : HouseGuar env me tx d := by
  have hhouses : (tx.commit d).houses = d.houses := by simp [Writes.apply, hh]
  have hmembers : (tx.commit d).houseMembers = d.houseMembers := by simp [Writes.apply, hm]
  have hrooms : (tx.commit d).rooms = d.rooms := by simp [Writes.apply, hr]
  refine ⟨?_, ?_, ?_, fun h => (hb.rooms h).congr ?_, ?_, ?_, fun h house _ => Or.inl ?_, ?_⟩
  · rw [hrooms]; exact hb.ids
  · rw [hmembers, hhouses]; exact hb.homes
  · rw [hmembers, hhouses]; exact hb.founder
  · rw [SameRooms, hrooms]; exact fun _ _ _ => Iff.rfl
  · rw [Lodged, hmembers, hrooms]; exact hb.lodged
  · intro i r hmem
    rw [hi] at hmem
    cases hmem
  · rw [SameRooms, hrooms]; exact fun _ _ _ => Iff.rfl
  · rw [hmembers]; exact fun _ m _ hm hid => Or.inl ⟨m, hm, hid⟩

theorem Known.houseGuar {c : HomiCommit} (h : Known env c) (hb : Housed env c.before)
    (hg : c.call.settles = true → HouseGuar env c.call.user? c.tx c.before) :
    HouseGuar env c.call.user? c.tx c.before := by
  by_cases hm : c.call.settles = true
  · exact hg hm
  · have hspares : ∀ t ∈ [TableName.houses, .houseMembers, .rooms, .invites],
        c.tx.writes.Spares t := by
      intro t ht
      refine h.within.tables t ?_
      cases hc : c.call <;> simp_all [Call.settles, Call.tables] <;>
        rcases ht with rfl | rfl | rfl | rfl <;> decide
    exact .of_spares hb (hspares .houses (by decide)) (hspares .houseMembers (by decide))
      (hspares .rooms (by decide)) (hspares .invites (by decide))

theorem HouseGuar.housed {c : HomiCommit} (hg : HouseGuar env c.call.user? c.tx c.before)
    (hb : Housed env c.before) (hk : Founded env c) : Housed env c.after where
  ids := hg.ids
  homes := hg.homes
  founder := hg.founder
  rooms := hg.rooms
  lodged := hg.lodged
  invites i r hr := by
    have hpersist := hk.1.step.toPersist
    rcases lookup_patch_cases hr with hold | hnew
    · exact (hb.invites i r hold).keep hpersist hk.2
    · have hgood := hg.invites i r hnew
      exact GoodInvite.keep ⟨hgood.house, hgood.creator.settled hk.1.account, hgood.placeholder⟩
        hpersist hk.2

theorem HouseRely.refl (tx : DbTx) (d : Db) : HouseRely tx d d :=
  ⟨Persist.refl d, fun _ _ h => h, Frame.refl tx d, le_refl _, fun h _ _ _ => .refl h d,
    fun _ m _ hm hid _ => ⟨m, hm, hid⟩⟩

theorem HouseRely.trans {tx : DbTx} {a b d : Db} (h : HouseRely tx a b) (h' : HouseRely tx b d) :
    HouseRely tx a d where
  persist := h.persist.trans h'.persist
  houses k r hr := h'.houses k r (h.houses k r hr)
  frame := h.frame.trans h'.frame
  fresh := h.fresh.trans h'.fresh
  steady k house hk hown := (h.steady k house hk hown).trans
    (h'.steady k house (h.houses k house hk) hown)
  lodgers k m id hm hid hown := by
    obtain ⟨m₀, hm₀, hid₀⟩ := h'.lodgers k m id hm hid hown
    exact h.lodgers k m₀ id hm₀ hid₀ hown

theorem HouseRely.tick (tx : DbTx) (n : ℕ) (d : Db) : HouseRely tx d (tick n d) :=
  have h : HouseRely tx d d := .refl tx d
  ⟨(LedgerRely.tick tx n d : LedgerRely False False _ _ _).toPersist, h.houses, Frame.tick tx n d,
    Nat.le_add_right _ _, h.steady, h.lodgers⟩

/-- What a commit does to the others. -/
theorem HouseRely.commit {c : HomiCommit} {tx : DbTx} (hk : Founded env c)
    (hg : HouseGuar env c.call.user? c.tx c.before)
    (hheld' : ∀ k ∈ written c.tx.writes, (k, Mode.exclusive) ∈ c.tx.locks)
    (hheld : ∀ k ∈ written tx.writes, (k, Mode.exclusive) ∈ tx.locks)
    (hc : Compatible tx.locks c.tx.locks) : HouseRely tx c.before c.after where
  persist := hk.1.step.toPersist
  houses := hk.2
  frame := Frame.commit hc hheld hheld'
  fresh := le_refl _
  steady h house hh hown := by
    rcases hg.steady h house hh with hsame | howned
    · exact hsame
    · exact absurd hown (not_holds_of_owns hc hheld hheld' howned)
  lodgers k m id hm hid hown := by
    rcases hg.lodgers k m id hm hid with hold | hheldRoom
    · exact hold
    · exact absurd hheldRoom (not_holds_of_owns hc.symm hheld' hheld hown)

/-! ## Section 3: Memberships

    The calls beside `setRooms` write no room. -/

/-- The house has been created. -/
def HouseThere (h : Uuid) (d : Db) : Prop := ∃ house, d.houses.lookup h = some house

/-- The row `m` under `k` lives where the old row lived, or in a room of
    the house that `tx` has locked. -/
structure Placed (tx : DbTx) (d : Db) (k : Uuid × Uuid) (m : HouseMember) : Prop where
  house : HouseThere k.1 d
  room : ∀ id, m.roomId = some id →
    (∃ m₀, d.houseMembers.lookup k = some m₀ ∧ m₀.roomId = some id) ∨
      tx.Holds (.room id) ∧ ∃ room, d.rooms.lookup id = some room ∧ room.houseId = k.1

/-- A transaction that writes no house and no room. -/
structure Lodging (me : Option Uuid) (tx : DbTx) (d : Db) : Prop where
  houses : tx.writes.houses = []
  rooms : tx.writes.rooms = []
  members : ∀ k o, (k, o) ∈ tx.writes.houseMembers → ∃ m, o = some m ∧ Placed tx d k m
  invites : ∀ i r, (i, some r) ∈ tx.writes.invites → GoodInvite me d r

/-- Whoever inherits a room has locked the row that has it. -/
def Heir (h : Uuid) (roomId : Option Uuid) (tx : DbTx) (d : Db) : Prop :=
  ∀ id, roomId = some id → ∃ p m, tx.Owns (.member h p) ∧
    d.houseMembers.lookup (h, p) = some m ∧ m.roomId = some id

/-- Writes of memberships in `h` that have no room. -/
structure Writes.Settles (h : Uuid) (w : Writes) : Prop where
  houses : w.houses = []
  rooms : w.rooms = []
  invites : w.invites = []
  members : ∀ k o, (k, o) ∈ w.houseMembers → k.1 = h ∧ ∃ m, o = some m ∧ m.roomId = none

/-- Writes to none of the four tables. -/
structure Writes.Unhoused (w : Writes) : Prop where
  houses : w.houses = []
  houseMembers : w.houseMembers = []
  rooms : w.rooms = []
  invites : w.invites = []

theorem unhoused_nothing : Writes.Unhoused {} := ⟨rfl, rfl, rfl, rfl⟩

theorem Writes.Unhoused.settles {w : Writes} (hw : w.Unhoused) (h : Uuid) : w.Settles h :=
  ⟨hw.houses, hw.rooms, hw.invites, fun k o hmem => by rw [hw.houseMembers] at hmem; cases hmem⟩

theorem settles_row {h u : Uuid} {m : HouseMember} (hm : m.roomId = none) :
    Writes.Settles h { houseMembers := [((h, u), some m)] } :=
  ⟨rfl, rfl, rfl, fun k o hmem => by
    obtain ⟨rfl, rfl⟩ := Prod.mk.inj (List.mem_singleton.mp hmem)
    exact ⟨rfl, m, rfl, hm⟩⟩

section lodging

variable {tx : DbTx} {d d' : Db} {now : ℕ} {h u : Uuid} {α : Type} {roomId : Option Uuid}

theorem lodging_empty : Lodging me Tx.empty d :=
  ⟨rfl, rfl, fun _ _ h => (by cases h), fun _ _ h => (by cases h)⟩

theorem Placed.add {k : Uuid × Uuid} {m : HouseMember} (hp : Placed tx d k m)
    (e : Effect Writes LockKey Note) : Placed (tx.add e) d k m :=
  ⟨hp.house, fun id hid => (hp.room id hid).imp_right fun hr => ⟨holds_add _ _ hr.1, hr.2⟩⟩

/-- The same place, or none. -/
theorem Placed.of_room {k : Uuid × Uuid} {m m' : HouseMember} (hp : Placed tx d k m)
    (h : ∀ id, m'.roomId = some id → m.roomId = some id) : Placed tx d k m' :=
  ⟨hp.house, fun id hid => hp.room id (h id hid)⟩

theorem HouseThere.kept (hh : HouseThere h d) (hk : HousesKept d d') : HouseThere h d' :=
  hh.imp fun _ hlook => hk _ _ hlook

theorem passive_there (q : Writes → Prop) (h : Uuid) :
    (householdsProtocol env).Passive q fun _ d => HouseThere h d where
  stable _ _ _ hr _ hh := hh.kept hr.houses
  step _ _ _ _ hh := hh

theorem passive_heir (q : Writes → Prop) :
    (householdsProtocol env).Passive q (Heir h roomId) where
  stable tx d d' hr _ hA id hid := by
    obtain ⟨p, m, hown, hm, hroom⟩ := hA id hid
    have hsame : d'.houseMembers.lookup (h, p) = d.houseMembers.lookup (h, p) :=
      hr.frame (.member h p) hown.holds
    exact ⟨p, m, hown, hsame.trans hm, hroom⟩
  step tx d e _ hA id hid := by
    obtain ⟨p, m, hown, hm, hroom⟩ := hA id hid
    exact ⟨p, m, owns_add _ _ hown, hm, hroom⟩

theorem stable_lodging : (householdsProtocol env).Stable (Lodging me) := by
  intro tx d d' hr _ hA
  refine ⟨hA.houses, hA.rooms, fun k o hmem => ?_, fun i r hmem =>
    (hA.invites i r hmem).keep hr.persist hr.houses⟩
  obtain ⟨m, hm, hplaced⟩ := hA.members k o hmem
  refine ⟨m, hm, hplaced.house.kept hr.houses, fun id hid => ?_⟩
  rcases hplaced.room id hid with ⟨m₀, hm₀, hroom⟩ | ⟨hheld, room, hroom, hhouse⟩
  · -- the old row is locked by the write
    have hsame : d'.houseMembers.lookup k = d.houseMembers.lookup k :=
      hr.frame (.member k.1 k.2) (Or.inl (Writes.mem_written.mpr (List.mem_map.mpr ⟨(k, o), hmem, rfl⟩)))
    exact Or.inl ⟨m₀, hsame.trans hm₀, hroom⟩
  · have hsame : d'.rooms.lookup id = d.rooms.lookup id := hr.frame (.room id) hheld
    exact Or.inr ⟨hheld, room, hsame.trans hroom, hhouse⟩

/-- One more statement that writes memberships. -/
theorem Lodging.add (hA : Lodging me tx d) {e : Effect Writes LockKey Note}
    (hh : e.writes.houses = []) (hr : e.writes.rooms = [])
    (hm : ∀ k o, (k, o) ∈ e.writes.houseMembers → ∃ m, o = some m ∧ Placed (tx.add e) d k m)
    (hi : ∀ i r, (i, some r) ∈ e.writes.invites → GoodInvite me d r) :
    Lodging me (tx.add e) (tick e.ids d) := by
  refine ⟨?_, ?_, fun k o hmem => ?_, fun i r hmem => ?_⟩
  · simp [Writes.append, hA.houses, hh]
  · simp [Writes.append, hA.rooms, hr]
  · have hplaced : ∃ m, o = some m ∧ Placed (tx.add e) d k m := by
      rcases List.mem_append.mp (show (k, o) ∈ tx.writes.houseMembers ++ e.writes.houseMembers
        from hmem) with hold | hnew
      · obtain ⟨m, ho, hplaced⟩ := hA.members k o hold
        exact ⟨m, ho, hplaced.add e⟩
      · exact hm k o hnew
    obtain ⟨m, ho, hplaced⟩ := hplaced
    exact ⟨m, ho, hplaced.house, hplaced.room⟩
  · have hgood : GoodInvite me d r := by
      rcases List.mem_append.mp (show (i, some r) ∈ tx.writes.invites ++ e.writes.invites
        from hmem) with hold | hnew
      · exact hA.invites i r hold
      · exact hi i r hnew
    exact ⟨hgood.house, hgood.creator, hgood.placeholder⟩

/-- Writes without rooms, under the house of the transaction. -/
theorem passive_lodging (h : Uuid) :
    (householdsProtocol env).Passive (Writes.Settles h) fun tx d =>
      Lodging me tx d ∧ HouseThere h d where
  stable := stable_lodging.and (passive_there (fun _ => True) h).stable
  step tx d e hq hA := by
    refine ⟨hA.1.add hq.houses hq.rooms (fun k o hmem => ?_) fun i r hmem => ?_, hA.2⟩
    · obtain ⟨rfl, m, rfl, hnone⟩ := hq.members k o hmem
      exact ⟨m, rfl, hA.2, fun id hid => by rw [hnone] at hid; cases hid⟩
    · rw [hq.invites] at hmem
      cases hmem

/-- One more statement that writes none of the tables. -/
theorem Lodging.read (hA : Lodging me tx d) {e : Effect Writes LockKey Note}
    (hq : e.writes.Unhoused) : Lodging me (tx.add e) (tick e.ids d) :=
  hA.add hq.houses hq.rooms (fun k o hmem => by rw [hq.houseMembers] at hmem; cases hmem)
    fun i r hmem => by rw [hq.invites] at hmem; cases hmem

theorem passive_unhoused : (householdsProtocol env).Passive Writes.Unhoused (Lodging me) :=
  ⟨stable_lodging, fun _ _ _ hq hA => hA.read hq⟩

/-- What the transaction sees of a membership. -/
theorem Lodging.view_member (hA : Lodging me tx d) (hb : Housed env d) {k : Uuid × Uuid}
    {m : HouseMember} (hm : (tx.view d now).db.houseMembers.lookup k = some m) :
    Placed tx d k m := by
  rcases lookup_patch_cases hm with hold | hnew
  · exact ⟨hb.homes k.1 k.2 m hold, fun id hid => Or.inl ⟨m, hold, hid⟩⟩
  · obtain ⟨m', ho, hplaced⟩ := hA.members k _ hnew
    cases ho
    exact hplaced

theorem Lodging.view_invite (hA : Lodging me tx d) (hb : Housed env d) {i : Uuid} {r : Invite}
    (hr : (tx.view d now).db.invites.lookup i = some r) : GoodInvite me d r := by
  rcases lookup_patch_cases hr with hold | hnew
  · have hgood := hb.invites i r hold
    exact ⟨hgood.house, hgood.creator.of_none, hgood.placeholder⟩
  · exact hA.invites i r hnew

/-- The row that an heir gets. -/
theorem Heir.placed (hA : Heir h roomId tx d) (hb : Housed env d) (hh : HouseThere h d)
    {m : HouseMember} (hm : m.roomId = roomId) {e : Effect Writes LockKey Note}
    (he : e.locks = roomLocks roomId) : Placed (tx.add e) d (h, u) m := by
  refine ⟨hh, fun id hid => Or.inr ⟨?_, ?_⟩⟩
  · rw [hm] at hid
    refine @holds_of_lock _ _ _ .shared ?_
    rw [he, hid]
    exact List.mem_singleton_self _
  · obtain ⟨p, m₀, _, hm₀, hroom⟩ := hA id (hm.symm.trans hid)
    exact hb.lodged h p m₀ id hm₀ hroom

/-- An update that leaves the room or clears it. -/
theorem triple_updateMember_lodged {matching : HouseMember → Bool}
    {set : Millis → HouseMember → HouseMember}
    (hset : ∀ now m id, (set now m).roomId = some id → m.roomId = some id) :
    (householdsProtocol env).Triple (Lodging me) (updateMember h u matching set)
      fun _ => Lodging me := by
  refine triple_exec stable_lodging fun tx d now _ hA hi _ => ?_
  refine hA.add rfl rfl (fun k o hmem => ?_) fun i r hmem => by cases hmem
  dsimp only at hmem
  split at hmem
  · next m hm =>
    split at hmem
    · obtain ⟨rfl, rfl⟩ := Prod.mk.inj (List.mem_singleton.mp hmem)
      exact ⟨_, rfl, ((hA.view_member hi.2 hm).of_room fun id => hset _ m id).add _⟩
    · cases hmem
  · cases hmem

/-- A membership that moves into the inherited room. -/
theorem triple_moveMember_lodged {matching : HouseMember → Bool}
    {set : Millis → HouseMember → HouseMember} (hset : ∀ now m, (set now m).roomId = roomId) :
    (householdsProtocol env).Triple
      (fun tx d => Lodging me tx d ∧ HouseThere h d ∧ Heir h roomId tx d)
      (moveMember h u roomId matching set)
      fun _ tx d => Lodging me tx d ∧ HouseThere h d ∧ Heir h roomId tx d := by
  have hkeep : (householdsProtocol env).Passive (fun _ => True)
      fun tx d => HouseThere h d ∧ Heir h roomId tx d := (passive_there _ h).and (passive_heir _)
  refine triple_exec (stable_lodging.and hkeep.stable) fun tx d now _ hA hi _ => ⟨?_, ?_⟩
  · split
    · refine hA.1.add rfl rfl (fun k o hmem => ?_) fun i r hmem => by cases hmem
      obtain ⟨rfl, rfl⟩ := Prod.mk.inj (List.mem_singleton.mp hmem)
      exact ⟨_, rfl, hA.2.2.placed hi.2 hA.2.1 (hset _ _) rfl⟩
    · exact hA.1.add rfl rfl (fun k o hmem => by cases hmem) fun i r hmem => by cases hmem
  · exact hkeep.step tx d _ trivial hA.2

theorem triple_joinHouse_lodged {startedAt : Millis} :
    (householdsProtocol env).Triple
      (fun tx d => Lodging me tx d ∧ HouseThere h d ∧ Heir h roomId tx d)
      (joinHouse h u roomId startedAt)
      fun _ tx d => Lodging me tx d ∧ HouseThere h d ∧ Heir h roomId tx d := by
  have hkeep : (householdsProtocol env).Passive (fun _ => True)
      fun tx d => HouseThere h d ∧ Heir h roomId tx d := (passive_there _ h).and (passive_heir _)
  refine triple_exec (stable_lodging.and hkeep.stable) fun tx d now _ hA hi _ => ⟨?_, ?_⟩
  · split
    · exact hA.1.add rfl rfl (fun k o hmem => by cases hmem) fun i r hmem => by cases hmem
    · refine hA.1.add rfl rfl (fun k o hmem => ?_) fun i r hmem => by cases hmem
      obtain ⟨rfl, rfl⟩ := Prod.mk.inj (List.mem_singleton.mp hmem)
      exact ⟨_, rfl, hA.2.2.placed hi.2 hA.2.1 rfl rfl⟩
  · exact hkeep.step tx d _ trivial hA.2

/-- What a transaction that writes no room leaves behind. -/
theorem Lodging.guar (hA : Lodging me tx d) (hb : Housed env d) : HouseGuar env me tx d := by
  have hhouses : (tx.commit d).houses = d.houses := by simp [Writes.apply, hA.houses]
  have hrooms : (tx.commit d).rooms = d.rooms := by simp [Writes.apply, hA.rooms]
  have hsame : ∀ h, SameRooms h d (tx.commit d) := fun h => by
    rw [SameRooms, hrooms]; exact fun _ _ _ => Iff.rfl
  have hplaced : ∀ k m, (tx.commit d).houseMembers.lookup k = some m → Placed tx d k m :=
    fun k m hm => @Lodging.view_member env me tx d 0 hA hb k m hm
  refine ⟨?_, fun h u m hm => ?_, fun h house hh => ?_, fun h => (hb.rooms h).congr (hsame h),
    fun h u m id hm hid => ?_, hA.invites, fun h house _ => Or.inl (hsame h),
    fun k m id hm hid => ?_⟩
  · rw [hrooms]; exact hb.ids
  · rw [hhouses]; exact (hplaced (h, u) m hm).house
  · rw [hhouses] at hh
    obtain ⟨m, hm⟩ := hb.founder h house hh
    show ∃ m, (d.houseMembers.patch tx.writes.houseMembers).lookup (h, house.createdBy) = some m
    rw [Table.lookup_patch]
    cases hedit : Table.lastEdit tx.writes.houseMembers (h, house.createdBy) with
    | none => exact ⟨m, hm⟩
    | some o =>
      obtain ⟨m', ho, _⟩ := hA.members _ o (Table.mem_of_lastEdit hedit)
      exact ⟨m', ho⟩
  · rw [hrooms]
    rcases (hplaced (h, u) m hm).room id hid with ⟨m₀, hm₀, hroom⟩ | ⟨_, hroom⟩
    · exact hb.lodged h u m₀ id hm₀ hroom
    · exact hroom
  · exact ((hplaced k m hm).room id hid).imp_right And.left

end lodging

/-! ## Section 4: The calls beside `setRooms` -/

section calls

variable {tx : DbTx} {d : Db} {now : ℕ} {h u : Uuid} {startedAt : Millis}

/-- A transaction that ends in `Lodging` keeps to the protocol. -/
theorem lodging_keeps {α : Type} {m : DbTxn α} (hm : (householdsProtocol env).Triple
    (fun tx _ => tx = Tx.empty) m fun _ => Lodging c.user?) : Keeps (householdsProtocol env) c m := by
  intro k hk seen d
  exact safe_of_triple hm rfl (fun _ => stable_lodging) (fun _ _ _ hA hi _ => hA.guar hi.2)
    (fun a _ _ _ _ => hk (.ok a) _ _) fun e d => hk (.error e) _ d

theorem lodging_begin {α : Type} {fn : Millis → DbTxn α} (hm : ∀ startedAt,
    (householdsProtocol env).Triple (fun tx _ => tx = Tx.empty) (fn startedAt)
      fun _ => Lodging c.user?) : Keeps (householdsProtocol env) c (begin >>= fn) :=
  lodging_keeps (triple_bind (triple_begin (stable_const _)) hm)

/-- An admin's house is there. -/
theorem triple_requireAdmin_there {action : JsString} :
    (householdsProtocol env).Triple (fun tx _ => tx = Tx.empty) (requireAdmin h u action)
      fun _ tx d => tx = Tx.empty ∧ HouseThere h d := by
  refine triple_bind (B := fun role tx d => tx = Tx.empty ∧ (role = some .admin → HouseThere h d))
    (triple_select (stable_const _) fun tx d now htx hi => ⟨htx, fun hrole => ?_⟩) fun role => ?_
  · subst htx
    have hview : ((Tx.empty : DbTx).view d now).db = d := LawfulStore.apply_nothing d
    rw [hview, activeMemberRole] at hrole
    cases hm : d.houseMembers.lookup (h, u) with
    | none => rw [hm] at hrole; cases hrole
    | some m => exact hi.2.homes h u m hm
  · refine triple_weaken (triple_reject _) (fun _ _ hA => hA) fun _ _ _ hB => ⟨hB.1.1, hB.1.2 ?_⟩
    exact not_not.mp hB.2

theorem createPlaceholder_settles {houseId name : JsString} :
    Keeps (householdsProtocol env) c (begin >>= createPlaceholderTx env houseId u name) := by
  refine lodging_begin fun startedAt => triple_bind triple_requireAdmin_there fun _ => ?_
  have hpassive := (@passive_lodging env c.user? (toUuid houseId))
  refine triple_weaken (A := fun tx d => Lodging c.user? tx d ∧ HouseThere (toUuid houseId) d)
    ?_ ?_ fun _ _ _ hB => hB
  · refine triple_bind (triple_passive hpassive (Txn.only_exec fun _ =>
      Writes.Unhoused.settles ⟨rfl, rfl, rfl, rfl⟩ _)) fun id => ?_
    refine triple_bind (triple_passive hpassive (Txn.only_exec fun _ => settles_row rfl)) fun _ => ?_
    exact triple_bind (triple_passive hpassive (only_log
      (Writes.Unhoused.settles ⟨rfl, rfl, rfl, rfl⟩ _))) fun _ => triple_pure fun _ _ hA => hA.1
  · rintro tx d ⟨rfl, hh⟩
    exact ⟨lodging_empty, hh⟩

theorem setDisplayName_settles {houseId : JsString} {name : Option JsString} :
    Keeps (householdsProtocol env) c (begin >>= setDisplayNameTx houseId u name) := by
  refine lodging_begin fun startedAt => ?_
  refine triple_weaken (A := fun tx d => Lodging c.user? tx d) ?_
    (by rintro _ _ rfl; exact lodging_empty) fun _ _ _ hB => hB
  refine triple_bind (triple_passive passive_unhoused (only_read unhoused_nothing)) fun current => ?_
  split
  · exact triple_pure fun _ _ hA => hA
  · refine triple_bind (triple_updateMember_lodged fun _ _ _ hid => hid) fun _ => ?_
    exact triple_bind (triple_passive passive_unhoused (only_log ⟨rfl, rfl, rfl, rfl⟩)) fun _ =>
      triple_pure fun _ _ hA => hA

/-! ### New houses -/

/-- A transaction that inserts a house and its creator. -/
def Founding (tx : DbTx) (_ : Db) : Prop :=
  ∃ h house m, tx.writes.houses = [(h, some house)] ∧
    tx.writes.houseMembers = [((h, house.createdBy), some m)] ∧ m.roomId = none ∧
    tx.writes.rooms = [] ∧ tx.writes.invites = []

theorem Founding.guar (hA : Founding tx d) (hb : Housed env d) : HouseGuar env me tx d := by
  obtain ⟨h₀, house₀, m₀, hhouses, hmembers, hnone, hrooms, hinvites⟩ := hA
  have hroomsEq : (tx.commit d).rooms = d.rooms := by simp [Writes.apply, hrooms]
  have hsame : ∀ h, SameRooms h d (tx.commit d) := fun h => by
    rw [SameRooms, hroomsEq]; exact fun _ _ _ => Iff.rfl
  have hhouse : ∀ h, (tx.commit d).houses.lookup h = if h₀ = h then some house₀ else d.houses.lookup h := by
    intro h
    show (d.houses.patch tx.writes.houses).lookup h = _
    rw [hhouses, Table.lookup_patch_singleton]
  have hmember : ∀ k, (tx.commit d).houseMembers.lookup k =
      if (h₀, house₀.createdBy) = k then some m₀ else d.houseMembers.lookup k := by
    intro k
    show (d.houseMembers.patch tx.writes.houseMembers).lookup k = _
    rw [hmembers, Table.lookup_patch_singleton]
  -- a row after the commit is the new one or an old one
  have hrow : ∀ k m, (tx.commit d).houseMembers.lookup k = some m →
      k = (h₀, house₀.createdBy) ∧ m.roomId = none ∨ d.houseMembers.lookup k = some m := by
    intro k m hm
    rw [hmember] at hm
    split at hm
    · next hk => cases hm; exact Or.inl ⟨hk.symm, hnone⟩
    · exact Or.inr hm
  refine ⟨?_, fun h u m hm => ?_, fun h house hh => ?_, fun h => (hb.rooms h).congr (hsame h),
    fun h u m id hm hid => ?_, fun i r hmem => ?_, fun h house _ => Or.inl (hsame h),
    fun k m id hm hid => ?_⟩
  · -- no room is written
    rw [hroomsEq]; exact hb.ids
  · rw [hhouse]
    -- members live in houses that exist
    split
    · exact ⟨house₀, rfl⟩
    · next hne =>
      rcases hrow _ m hm with ⟨hk, _⟩ | hold
      · exact absurd (Prod.mk.inj hk).1.symm hne
      · exact hb.homes h u m hold
  · -- the creator is a member
    rw [hmember]
    split
    · exact ⟨m₀, rfl⟩
    · next hne =>
      rw [hhouse] at hh
      split at hh
      · next hk =>
        cases hh
        exact absurd (by rw [hk]) hne
      · exact hb.founder h house hh
  · -- the new member has no room
    rw [hroomsEq]
    rcases hrow _ m hm with ⟨_, hno⟩ | hold
    · rw [hno] at hid; cases hid
    · exact hb.lodged h u m id hold hid
  · rw [hinvites] at hmem; cases hmem
  · rcases hrow _ m hm with ⟨_, hno⟩ | hold
    · rw [hno] at hid; cases hid
    · exact Or.inl ⟨m, hold, hid⟩

theorem createHouse_settles {input : CreateHouseInput} :
    Keeps (householdsProtocol env) c (begin >>= createHouseTx env u input) := by
  intro k hk seen d
  refine safe_of_triple (A := fun tx _ => tx = Tx.empty) (B := fun _ => Founding)
    ?_ rfl (fun _ _ _ _ _ _ hA => hA) (fun _ _ _ hA hi _ => hA.guar hi.2)
    (fun a _ _ _ _ => hk (.ok a) _ _) fun e d => hk (.error e) _ d
  refine triple_bind (triple_begin (stable_const _)) fun startedAt => ?_
  refine triple_bind (B := fun id tx _ => tx.writes =
    { houses := [(id, some ⟨input.name, input.timezone, input.currency, u, startedAt⟩)] }) ?_ fun id => ?_
  · refine triple_exec (stable_const _) fun tx d now id htx _ hid => ?_
    subst htx
    cases hid
    rfl
  · refine triple_bind (B := fun _ => Founding) ?_ fun _ => triple_bind (triple_passive ?_
      (only_log (p := Writes.Unhoused) ⟨rfl, rfl, rfl, rfl⟩)) fun _ => triple_pure fun _ _ hA => hA
    · refine triple_exec (stable_const _) fun tx d now _ hw _ _ => ?_
      refine ⟨id, ⟨input.name, input.timezone, input.currency, u, startedAt⟩,
        ⟨.admin, none, false, none, none, startedAt, none⟩, ?_, ?_, rfl, ?_, ?_⟩ <;>
        simp [Writes.append, hw]
    · refine ⟨fun _ _ _ _ _ hA => hA, ?_⟩
      rintro tx d e hq ⟨h, house, m, hh, hm, hnone, hr, hi⟩
      refine ⟨h, house, m, ?_, ?_, hnone, ?_, ?_⟩
      · simp [Writes.append, hh, hq.houses]
      · simp [Writes.append, hm, hq.houseMembers]
      · simp [Writes.append, hr, hq.rooms]
      · simp [Writes.append, hi, hq.invites]

/-! ### Accepts and invites -/

/-- An accept that has written no membership yet. -/
def Calling (me : Option Uuid) (h : Uuid) (tx : DbTx) (d : Db) : Prop :=
  (Lodging me tx d ∧ tx.writes.houseMembers = []) ∧ HouseThere h d

theorem passive_calling : (householdsProtocol env).Passive Writes.Unhoused (Calling me h) :=
  (passive_unhoused.and (passive_writes (p := fun w => w.houseMembers = []) fun w w' hw hq => by
    simp [Writes.append, hw, hq.houseMembers])).and (passive_there _ h)

theorem triple_lockInvite_there {token : JsString} :
    (householdsProtocol env).Triple (fun tx _ => tx = Tx.empty) (lockInvite env token)
      fun found => Calling me found.2.houseId := by
  refine triple_exec (stable_const _) fun tx d now found htx hi hres => ?_
  subst htx
  have hlodging : Lodging me Tx.empty d := lodging_empty
  have hfound : ∃ i, ((Tx.empty : DbTx).view d now).db.invites.lookup i = some found.2 := by
    dsimp only at hres
    split at hres
    · next id invite hrow =>
      split at hres
      · cases hres
        exact ⟨id, Table.mem_rows.mp (List.mem_of_find?_eq_some hrow)⟩
      · cases hres
    · cases hres
  obtain ⟨i, hinvite⟩ := hfound
  exact ⟨⟨hlodging.read ⟨rfl, rfl, rfl, rfl⟩, rfl⟩,
    (hlodging.view_invite hi.2 hinvite).house⟩

theorem triple_lockPlaceholder_heir {p : Uuid} :
    (householdsProtocol env).Triple (Calling me h) (lockPlaceholder h p)
      fun roomId tx d => Lodging me tx d ∧ HouseThere h d ∧ Heir h roomId tx d := by
  refine triple_exec passive_calling.stable fun tx d now roomId hA hi hres => ?_
  have hview : (tx.view d now).db.houseMembers = d.houseMembers := view_houseMembers hA.1.2
  refine ⟨hA.1.1.read ⟨rfl, rfl, rfl, rfl⟩, hA.2, fun id hid => ?_⟩
  dsimp only at hres
  rw [hview] at hres
  cases hfound : (d.houseMembers.lookup (h, p)).filter HouseMember.isPlaceholder with
  | none => rw [hfound] at hres; cases hres
  | some m =>
    rw [hfound] at hres
    dsimp only at hres
    split at hres
    · cases hres
      refine ⟨p, m, owns_of_lock _ _ ?_, Option.eq_some_of_filter_eq_some hfound, hid⟩
      dsimp only
      rw [if_pos (by rw [hview, hfound]; rfl)]
      exact List.mem_singleton_self _
    · cases hres

theorem triple_lockBound_heir {invite : Invite} :
    (householdsProtocol env).Triple (Calling me invite.houseId) (lockBound invite)
      fun roomId tx d => Lodging me tx d ∧ HouseThere invite.houseId d ∧
        Heir invite.houseId roomId tx d := by
  unfold lockBound
  split
  · exact triple_lockPlaceholder_heir
  · exact triple_pure fun tx d hA => ⟨hA.1.1, hA.2, fun _ hid => by cases hid⟩

theorem triple_consumeUse_lodged {id : Uuid} : (householdsProtocol env).Triple (Lodging me)
    (consumeUse id) fun _ => Lodging me := by
  refine triple_exec stable_lodging fun tx d now _ hA hi _ => ?_
  refine hA.add rfl rfl (fun k o hmem => by cases hmem) fun i r hmem => ?_
  dsimp only at hmem
  split at hmem
  · next invite hinvite =>
    obtain ⟨_, hrow⟩ := Prod.mk.inj (List.mem_singleton.mp hmem)
    cases hrow
    have hgood := hA.view_invite hi.2 hinvite
    exact ⟨hgood.house, hgood.creator, hgood.placeholder⟩
  · cases hmem

theorem triple_becomeMember_lodged {invite : Invite} {existing : Option HouseMember}
    {roomId : Option Uuid} : (householdsProtocol env).Triple
      (fun tx d => Lodging me tx d ∧ HouseThere invite.houseId d ∧ Heir invite.houseId roomId tx d)
      (becomeMember invite u existing roomId startedAt)
      fun _ tx d => Lodging me tx d ∧ HouseThere invite.houseId d ∧
        Heir invite.houseId roomId tx d := by
  unfold becomeMember
  split
  · refine triple_bind triple_joinHouse_lodged fun inserted => ?_
    split <;> exact triple_pure fun _ _ hA => hA
  · split
    · exact triple_pure fun _ _ hA => hA
    · exact triple_bind (triple_moveMember_lodged fun _ _ => rfl) fun _ =>
        triple_pure fun _ _ hA => hA

theorem triple_finishAccept_lodged {id : Uuid} {invite : Invite} {roomId : Option Uuid}
    {already : Bool} : (householdsProtocol env).Triple
      (fun tx d => Lodging me tx d ∧ HouseThere invite.houseId d ∧ Heir invite.houseId roomId tx d)
      (finishAccept id invite u roomId already) fun _ => Lodging me := by
  have hpassive := @passive_lodging env me invite.houseId
  refine triple_bind (B := fun _ => Lodging me) ?_ fun claimed => ?_
  · unfold claimBound
    split
    · refine triple_bind (B := fun _ tx d => Lodging me tx d ∧ HouseThere invite.houseId d) ?_ fun _ => ?_
      · unfold inheritRoom
        split
        · exact triple_weaken (triple_moveMember_lodged fun _ _ => rfl) (fun _ _ hA => hA)
            fun _ _ _ hB => ⟨hB.1, hB.2.1⟩
        · exact triple_pure fun _ _ hA => ⟨hA.1, hA.2.1⟩
      · -- the claim clears the room of the placeholder
        have hclaim : ∀ {w : Writes}, w.Unhoused → w.Settles invite.houseId := fun hw => hw.settles _
        refine triple_bind (triple_passive hpassive (only_claimHistory_row (hclaim unhoused_nothing)
          (fun _ => hclaim ⟨rfl, rfl, rfl, rfl⟩) (fun _ => hclaim ⟨rfl, rfl, rfl, rfl⟩)
          (fun _ _ => hclaim ⟨rfl, rfl, rfl, rfl⟩) (fun _ _ => settles_row rfl)
          fun _ => hclaim ⟨rfl, rfl, rfl, rfl⟩)) fun _ => ?_
        exact triple_bind (triple_passive hpassive (only_log (hclaim ⟨rfl, rfl, rfl, rfl⟩)))
          fun _ => triple_pure fun _ _ hA => hA.1
    · exact triple_pure fun _ _ hA => hA.1
  · refine triple_bind triple_consumeUse_lodged fun _ => triple_bind (triple_passive passive_unhoused
      (only_logJoined fun _ _ => ⟨rfl, rfl, rfl, rfl⟩)) fun _ => triple_pure fun _ _ hA => hA

theorem acceptInvite_settles {token : JsString} :
    Keeps (householdsProtocol env) c (begin >>= acceptInviteTx env token u) := by
  refine lodging_begin fun startedAt =>
    triple_bind (B := fun found => Calling c.user? found.2.houseId) triple_lockInvite_there fun found => ?_
  refine triple_bind (triple_passive passive_calling (only_selectExisting unhoused_nothing))
    fun existing => ?_
  split
  · exact triple_pure fun _ _ hA => hA.1.1
  · refine triple_bind triple_lockBound_heir fun roomId =>
      triple_bind triple_becomeMember_lodged fun member => ?_
    split
    · exact triple_pure fun _ _ hA => hA.1
    · exact triple_finishAccept_lodged

theorem triple_createInvite_lodged {placeholderId : Option Uuid} {expiresAt : Millis} :
    (householdsProtocol env).Triple (fun tx d => tx = Tx.empty ∧ HouseThere h d)
      (createInviteTx env h u placeholderId expiresAt) fun _ => Lodging (some u) := by
  refine triple_bind (B := fun _ tx d => Calling (some u) h tx d ∧
    ∀ p, placeholderId = some p → d.IsPlaceholder h p) ?_ fun _ => ?_
  · have hempty : ∀ {tx : DbTx} {d : Db}, tx = Tx.empty → HouseThere h d → Calling (some u) h tx d := by
      rintro _ d rfl hh
      exact ⟨⟨lodging_empty, rfl⟩, hh⟩
    cases placeholderId with
    | none => exact triple_pure fun tx d hA => ⟨hempty hA.1 hA.2, fun _ hp => by cases hp⟩
    | some p =>
      have hstable := (stable_const (P := householdsProtocol env) fun tx : DbTx => tx = Tx.empty).and
        (@passive_there env (fun _ => True) h).stable
      refine triple_exec hstable fun tx d now _ hA hi hres => ⟨?_, ?_⟩
      · obtain ⟨⟨hlodging, _⟩, hthere⟩ := hempty hA.1 hA.2
        obtain ⟨rfl, _⟩ := hA
        exact ⟨⟨hlodging.read ⟨rfl, rfl, rfl, rfl⟩, rfl⟩, hthere⟩
      · rintro _ ⟨⟩
        obtain ⟨rfl, _⟩ := hA
        have hview : ((Tx.empty : DbTx).view d now).db = d := LawfulStore.apply_nothing d
        dsimp only at hres
        rw [hview] at hres
        split at hres
        · next m hfound =>
          obtain ⟨hm, hboth⟩ := Option.filter_eq_some_iff.mp hfound
          rw [Bool.and_eq_true] at hboth
          exact ⟨m, hm, hboth.1⟩
        · cases hres
  · refine triple_exec (passive_calling.stable.and fun tx d d' hr _ hA p hp =>
      hr.persist.isPlaceholder (hA p hp)) fun tx d now _ hA hi _ => ?_
    refine hA.1.1.1.add rfl rfl (fun k o hmem => by cases hmem) fun i r hmem => ?_
    obtain ⟨_, hrow⟩ := Prod.mk.inj (List.mem_singleton.mp hmem)
    cases hrow
    exact ⟨hA.1.2, Or.inr rfl, hA.2⟩

/-- The admin who creates an invite is a member of the house. -/
theorem createInvite_settles {houseId : JsString} {placeholderId : Option JsString} (d : Db) :
    (householdsProtocol env).Safe (.createInvite houseId u placeholderId)
      (route env (.createInvite houseId u placeholderId)) d Tx.empty d := by
  have hrefuses : Closed (Always (householdsProtocol env) (.createInvite houseId u placeholderId)) :=
    always_closed fun _ _ => trivial
  refine hrefuses.houseMemberGuard (hrefuses.parseBody ?_) d d
  intro seen d d' now hr hi _
  have hview : ((Tx.empty : DbTx).view d' now).db = d' := LawfulStore.apply_nothing d'
  dsimp only
  split
  · exact trivial
  · next hadmin =>
    have hthere : HouseThere (toUuid houseId) d' := by
      rw [hview, activeMemberRole] at hadmin
      cases hm : d'.houseMembers.lookup (toUuid houseId, u) with
      | none => rw [hm] at hadmin; exact absurd (by simp) hadmin
      | some m => exact hi.2.homes _ u m hm
    refine safe_of_triple triple_createInvite_lodged ⟨rfl, hthere⟩ (fun _ => stable_lodging)
      (fun _ _ _ hA hi _ => hA.guar hi.2) (fun a _ _ _ _ => ?_) fun e d => trivial
    exact trivial

end calls

/-! ## Section 5: `setRooms` -/

/-- A configuration that has cleared the rooms of all members of `h`, and
    owns the membership of the creator. -/
structure Vacated (h : Uuid) (house : House) (tx : DbTx) (d : Db) : Prop where
  there : d.houses.lookup h = some house
  owns : tx.Owns (.member h house.createdBy)
  houses : tx.writes.houses = []
  invites : tx.writes.invites = []
  rooms : tx.writes.rooms = []
  members : ∀ k o, (k, o) ∈ tx.writes.houseMembers → k.1 = h ∧ ∃ m, o = some m ∧ m.roomId = none

/-- A configuration that has deleted the rooms of `h` and inserted `created`.

    * `gone`: no room of the house is left out.
    * `vacant`: nobody whose row the configuration has not written lives in
      a deleted room. -/
structure Furnishing (env : Env) (h : Uuid) (house : House) (created : List (Uuid × Room))
    (tx : DbTx) (d : Db) : Prop where
  there : d.houses.lookup h = some house
  owns : tx.Owns (.member h house.createdBy)
  houses : tx.writes.houses = []
  invites : tx.writes.invites = []
  members : ∀ k o, (k, o) ∈ tx.writes.houseMembers →
    k.1 = h ∧ ∃ m, o = some m ∧ ∀ id, m.roomId = some id → id ∈ created.map Prod.fst
  rooms : ∀ id o, (id, o) ∈ tx.writes.rooms →
    (o = none ∧ ∃ room, d.rooms.lookup id = some room ∧ room.houseId = h) ∨
      ∃ room, o = some room ∧ (id, room) ∈ created
  gone : ∀ id room, d.rooms.lookup id = some room → room.houseId = h → (id, none) ∈ tx.writes.rooms
  vacant : ∀ k m id, d.houseMembers.lookup k = some m → k ∉ tx.writes.houseMembers.map Prod.fst →
    m.roomId = some id → (id, none) ∉ tx.writes.rooms
  inserted : ∀ id room, (id, room) ∈ created → (id, some room) ∈ tx.writes.rooms ∧
    d.rooms.lookup id = none ∧ (∃ n < d.fresh, id = env.uuid n) ∧ room.houseId = h
  nodup : (created.map Prod.fst).Nodup

/-- The weights of new rooms. -/
structure WeighIn (created : List (Uuid × Room)) : Prop where
  each : ∀ r ∈ created, 1 ≤ r.2.weightBp ∧ r.2.weightBp ≤ 10000
  sum : (created.map fun r => r.2.weightBp).sum = 10000

section setRooms

variable {tx : DbTx} {d d' : Db} {now : ℕ} {h u : Uuid} {house : House}
  {created : List (Uuid × Room)}

theorem owns_room {id : Uuid} {o : Option Room} (hmem : (id, o) ∈ tx.writes.rooms) :
    tx.Owns (.room id) :=
  Or.inl (Writes.mem_written.mpr (List.mem_map.mpr ⟨(id, o), hmem, rfl⟩))

theorem stable_vacated : (householdsProtocol env).Stable (Vacated h house) :=
  fun _ _ _ hr _ hA => { hA with there := hr.houses _ _ hA.there }

theorem stable_furnishing : (householdsProtocol env).Stable (Furnishing env h house created) := by
  intro tx d d' hr hi hA
  -- the rooms of the house stay while the creator's row is owned
  have hsame : SameRooms h d d' := hr.steady h house hA.there hA.owns.holds
  have hroom : ∀ id o, (id, o) ∈ tx.writes.rooms → d'.rooms.lookup id = d.rooms.lookup id :=
    fun id o hmem => hr.frame (.room id) (owns_room hmem).holds
  refine { hA with
    there := hr.houses _ _ hA.there
    rooms := fun id o hmem => ?_
    gone := fun id room hlook hh => hA.gone id room ((hsame id room hh).mp hlook) hh
    vacant := fun k m id hm hk hid hmem => ?_
    inserted := fun id room hmem => ?_ }
  · rw [hroom id o hmem]
    exact hA.rooms id o hmem
  · obtain ⟨m₀, hm₀, hid₀⟩ := hr.lodgers k m id hm hid (owns_room hmem)
    exact hA.vacant k m₀ id hm₀ hk hid₀ hmem
  · obtain ⟨hwritten, hnone, ⟨n, hn, heq⟩, hh⟩ := hA.inserted id room hmem
    exact ⟨hwritten, by rw [hroom id _ hwritten, hnone], ⟨n, lt_of_lt_of_le hn hr.fresh, heq⟩, hh⟩

theorem passive_furnishing :
    (householdsProtocol env).Passive Writes.Unhoused (Furnishing env h house created) where
  stable := stable_furnishing
  step tx d e hq hA := by
    have hrooms : (tx.add e).writes.rooms = tx.writes.rooms := by simp [Writes.append, hq.rooms]
    have hmembers : (tx.add e).writes.houseMembers = tx.writes.houseMembers := by
      simp [Writes.append, hq.houseMembers]
    refine ⟨hA.there, owns_add _ _ hA.owns, ?_, ?_, ?_, ?_, ?_, ?_, ?_, hA.nodup⟩
    · simp [Writes.append, hA.houses, hq.houses]
    · simp [Writes.append, hA.invites, hq.invites]
    · rw [hmembers]; exact hA.members
    · rw [hrooms]; exact hA.rooms
    · rw [hrooms]; exact hA.gone
    · rw [hrooms, hmembers]; exact hA.vacant
    · rw [hrooms]
      intro id room hmem
      obtain ⟨hwritten, hnone, ⟨n, hn, heq⟩, hh⟩ := hA.inserted id room hmem
      exact ⟨hwritten, hnone, ⟨n, Nat.lt_of_lt_of_le hn (Nat.le_add_right _ _), heq⟩, hh⟩

/-! ### Its statements -/

theorem triple_vacateRooms_owned : (householdsProtocol env).Triple
    (fun tx d => tx.writes = {} ∧ d.houses.lookup h = some house) (vacateRooms h)
    fun _ => Vacated h house := by
  have hstable : (householdsProtocol env).Stable fun tx d =>
      tx.writes = {} ∧ d.houses.lookup h = some house :=
    fun _ _ _ hr _ hA => ⟨hA.1, hr.houses _ _ hA.2⟩
  have hview : ∀ {tx : DbTx} {d : Db} {now : ℕ}, tx.writes = {} → (tx.view d now).db = d := by
    intro tx d now hw
    show tx.writes.apply d = d
    rw [hw]
    exact LawfulStore.apply_nothing d
  refine triple_bind (B := fun found tx d => (tx.writes = {} ∧ d.houses.lookup h = some house) ∧
    (h, house.createdBy) ∈ found ∧ ∀ k ∈ found, k.1 = h) (triple_select hstable ?_) fun found => ?_
  · -- the creator's membership is there from the start
    intro tx d now hA hi
    obtain ⟨m, hm⟩ := hi.2.founder h house hA.2
    rw [hview hA.1]
    refine ⟨hA, List.mem_filter.mpr ⟨?_, by simp⟩, fun k hk => ?_⟩
    · exact List.mem_map.mpr ⟨((h, house.createdBy), m), Table.mem_rows.mpr hm, rfl⟩
    · exact of_decide_eq_true (List.mem_filter.mp hk).2
  · refine triple_exec (hstable.and fun _ _ _ _ _ hF => hF) fun tx d now _ hA hi _ => ?_
    obtain ⟨⟨hw, hhouse⟩, hfounder, hfound⟩ := hA
    obtain ⟨m, hm⟩ := hi.2.founder h house hhouse
    refine ⟨hhouse, owns_of_write _ _ (Writes.mem_written.mpr ?_), ?_, ?_, ?_, fun k o hmem => ?_⟩
    · refine List.mem_map.mpr ⟨((h, house.createdBy), some { m with roomId := none }), ?_, rfl⟩
      refine List.mem_filterMap.mpr ⟨(h, house.createdBy), hfounder, ?_⟩
      rw [hview hw, hm]
      rfl
    · simp [Writes.append, hw]
    · simp [Writes.append, hw]
    · simp [Writes.append, hw]
    · simp only [Tx.add_writes, Writes.append_eq, Writes.append, hw, List.nil_append] at hmem
      obtain ⟨k', hk', hrow⟩ := List.mem_filterMap.mp hmem
      obtain ⟨m', _, heq⟩ := Option.map_eq_some_iff.mp hrow
      obtain ⟨rfl, rfl⟩ := Prod.mk.inj heq
      exact ⟨hfound k' hk', _, rfl, rfl⟩

theorem triple_deleteRooms_gone : (householdsProtocol env).Triple (Vacated h house) (deleteRooms h)
    fun _ => Furnishing env h house [] := by
  have hview : ∀ {tx : DbTx} {d : Db} {now : ℕ}, Vacated h house tx d →
      (tx.view d now).db.rooms = d.rooms := by
    intro tx d now hA
    show d.rooms.patch tx.writes.rooms = d.rooms
    rw [hA.rooms, Table.patch_nil]
  -- `found` has exactly the rooms of the house
  refine triple_bind (B := fun found tx d => Vacated h house tx d ∧ ∀ id, id ∈ found ↔
    ∃ room, d.rooms.lookup id = some room ∧ room.houseId = h) (triple_select stable_vacated ?_)
    fun found => ?_
  · intro tx d now hA _
    refine ⟨hA, fun id => ?_⟩
    rw [hview hA]
    simp [List.mem_map, List.mem_filter]
  · refine triple_exec ?_ fun tx d now _ hA hi hres => ?_
    · -- the house is locked, so its rooms stay as found
      intro tx d d' hr hi hA
      have hsame : SameRooms h d d' := hr.steady h house hA.1.there hA.1.owns.holds
      refine ⟨stable_vacated tx d d' hr hi hA.1, fun id => (hA.2 id).trans ?_⟩
      constructor
      · exact fun ⟨room, hlook, hh⟩ => ⟨room, (hsame id room hh).mpr hlook, hh⟩
      · exact fun ⟨room, hlook, hh⟩ => ⟨room, (hsame id room hh).mp hlook, hh⟩
    · obtain ⟨hV, hfound⟩ := hA
      -- the rows that are deleted
      have hdeleted : ∀ id o, (id, o) ∈ (found.filterMap fun id =>
          (((tx.view d now).db.rooms.lookup id).filter fun room => room.houseId = h).map
            fun _ => ((id, none) : Uuid × Option Room)) ↔
          o = none ∧ ∃ room, d.rooms.lookup id = some room ∧ room.houseId = h := by
        intro id o
        rw [hview hV]
        simp only [List.mem_filterMap, Option.map_eq_some_iff, Option.filter_eq_some_iff,
          decide_eq_true_eq]
        constructor
        · rintro ⟨id', _, room, ⟨hlook, hh⟩, heq⟩
          obtain ⟨rfl, rfl⟩ := Prod.mk.inj heq
          exact ⟨rfl, room, hlook, hh⟩
        · rintro ⟨rfl, room, hlook, hh⟩
          exact ⟨id, (hfound id).mpr ⟨room, hlook, hh⟩, room, ⟨hlook, hh⟩, rfl⟩
      refine ⟨hV.there, owns_add _ _ hV.owns, ?_, ?_, fun k o hmem => ?_, fun id o hmem => ?_,
        fun id room hlook hh => ?_, fun k m id hm hk hid hmem => ?_,
        fun id room hmem => (by cases hmem), List.nodup_nil⟩
      · simp [Writes.append, hV.houses]
      · simp [Writes.append, hV.invites]
      · simp only [Tx.add_writes, Writes.append_eq, Writes.append, List.append_nil] at hmem
        obtain ⟨hk, m, ho, hnone⟩ := hV.members k o hmem
        exact ⟨hk, m, ho, fun id hid => by rw [hnone] at hid; cases hid⟩
      · simp only [Tx.add_writes, Writes.append_eq, Writes.append, hV.rooms, List.nil_append] at hmem
        exact Or.inl ((hdeleted id o).mp hmem)
      · simp only [Tx.add_writes, Writes.append_eq, Writes.append, hV.rooms, List.nil_append]
        exact (hdeleted id none).mpr ⟨rfl, room, hlook, hh⟩
      · -- the foreign key check has found nobody in a deleted room
        simp only [Tx.add_writes, Writes.append_eq, Writes.append, hV.rooms, List.nil_append,
          List.append_nil] at hmem hk
        obtain ⟨_, hroom⟩ := (hdeleted id none).mp hmem
        have hseen : (tx.view d now).db.houseMembers.lookup k = some m :=
          (Table.lookup_patch_of_notMem hk).trans hm
        dsimp only at hres
        rw [if_pos (List.any_eq_true.mpr ⟨(k, m), Table.mem_rows.mpr hseen, by
          rw [hid]; simpa using (hfound id).mpr hroom⟩)] at hres
        cases hres

/-- The rows of `insertRooms`, by the number of ids drawn before. -/
def newRooms (env : Env) (h : Uuid) (rooms : List RoomInput) (n : ℕ) : List (Uuid × Room) :=
  rooms.zipIdx.map fun (r, i) => (env.uuid (n + i), ⟨h, r.name, r.weightBp⟩)

theorem mem_newRooms {rooms : List RoomInput} {n : ℕ} {id : Uuid} {room : Room}
    (hmem : (id, room) ∈ newRooms env h rooms n) :
    ∃ i r, r ∈ rooms ∧ i < rooms.length ∧ id = env.uuid (n + i) ∧ room = ⟨h, r.name, r.weightBp⟩ := by
  obtain ⟨⟨r, i⟩, hr, heq⟩ := List.mem_map.mp hmem
  obtain ⟨rfl, rfl⟩ := Prod.mk.inj heq
  obtain ⟨hi, hget⟩ := List.getElem?_eq_some_iff.mp (List.mem_zipIdx_iff_getElem?.mp hr)
  refine ⟨i, r, ?_, hi, rfl, rfl⟩
  rw [← show rooms[i] = r from hget]
  exact List.getElem_mem hi

theorem nodup_newRooms (rooms : List RoomInput) (n : ℕ) :
    ((newRooms env h rooms n).map Prod.fst).Nodup := by
  have hids : (newRooms env h rooms n).map Prod.fst =
      (rooms.zipIdx.map Prod.snd).map fun i => env.uuid (n + i) := by
    rw [newRooms, List.map_map, List.map_map]
    rfl
  rw [hids]
  refine List.Nodup.map (fun i j hij => Nat.add_left_cancel (env.uuid_inj hij)) ?_
  rw [List.zipIdx_map_snd]
  exact List.nodup_range'

theorem weights_newRooms (rooms : List RoomInput) (n : ℕ) :
    ((newRooms env h rooms n).map fun r => r.2.weightBp) = rooms.map RoomInput.weightBp := by
  have hfst : rooms.map RoomInput.weightBp =
      (rooms.zipIdx.map Prod.fst).map RoomInput.weightBp := by rw [List.zipIdx_map_fst]
  rw [hfst, newRooms, List.map_map, List.map_map]
  rfl

theorem triple_insertRooms_inserted {rooms : List RoomInput}
    (hsum : (rooms.map RoomInput.weightBp).sum = 10000) : (householdsProtocol env).Triple
      (Furnishing env h house []) (insertRooms env h rooms)
      fun created tx d => Furnishing env h house created tx d ∧ WeighIn created := by
  refine triple_exec stable_furnishing fun tx d now created hA hi hres => ?_
  dsimp only at hres
  split at hres
  · cases hres
  · next hweights =>
    have hcreated : created = newRooms env h rooms d.fresh := by
      cases hres
      rfl
    -- fresh ids are free
    have hfree : ∀ id room, (id, room) ∈ created → d.rooms.lookup id = none ∧
        (∃ n < d.fresh + rooms.length, id = env.uuid n) ∧ room.houseId = h := by
      intro id room hmem
      rw [hcreated] at hmem
      obtain ⟨i, r, _, hi', rfl, rfl⟩ := mem_newRooms hmem
      refine ⟨?_, ⟨d.fresh + i, Nat.add_lt_add_left hi' _, rfl⟩, rfl⟩
      cases hold : d.rooms.lookup (env.uuid (d.fresh + i)) with
      | none => rfl
      | some room =>
        obtain ⟨n, hn, heq⟩ := hi.2.ids _ room hold
        have := env.uuid_inj heq
        omega
    have hedits : ∀ id o, (id, o) ∈ (created.map fun r => (r.1, some r.2)) ↔
        ∃ room, o = some room ∧ (id, room) ∈ created := by
      intro id o
      simp only [List.mem_map, Prod.exists, Prod.mk.injEq]
      constructor
      · rintro ⟨id', room, hmem, rfl, rfl⟩
        exact ⟨room, rfl, hmem⟩
      · rintro ⟨room, rfl, hmem⟩
        exact ⟨id, room, hmem, rfl, rfl⟩
    -- the edits are the old ones and the new rooms
    have hrooms : ∀ id o, (id, o) ∈ (tx.add ((fun v : View Db => ({
        writes := { rooms := (newRooms env h rooms v.db.fresh).map fun r => (r.1, some r.2) }
        ids := rooms.length } : Effect Writes LockKey Note)) (tx.view d now))).writes.rooms ↔
        (id, o) ∈ tx.writes.rooms ∨ ∃ room, o = some room ∧ (id, room) ∈ created := by
      intro id o
      rw [← hedits, hcreated]
      exact List.mem_append
    refine ⟨⟨hA.there, owns_add _ _ hA.owns, ?_, ?_, fun k o hmem => ?_, fun id o hmem => ?_,
      fun id room hlook hh => ?_, fun k m id hm hk hid hmem => ?_, fun id room hmem => ?_, ?_⟩, ?_, ?_⟩
    · simp [Writes.append, hA.houses]
    · simp [Writes.append, hA.invites]
    · simp only [Tx.add_writes, Writes.append_eq, Writes.append, List.append_nil] at hmem
      obtain ⟨hk, m, ho, hnone⟩ := hA.members k o hmem
      exact ⟨hk, m, ho, fun id hid => (by cases hnone id hid)⟩
    · rcases (hrooms id o).mp hmem with hold | hnew
      · exact (hA.rooms id o hold).imp_right fun ⟨_, _, hmem⟩ => by cases hmem
      · exact Or.inr hnew
    · exact (hrooms id none).mpr (Or.inl (hA.gone id room hlook hh))
    · simp only [Tx.add_writes, Writes.append_eq, Writes.append, List.append_nil] at hk
      rcases (hrooms id none).mp hmem with hold | ⟨_, hno, _⟩
      · exact hA.vacant k m id hm hk hid hold
      · cases hno
    · obtain ⟨hnone, hid, hh⟩ := hfree id room hmem
      exact ⟨(hrooms id _).mpr (Or.inr ⟨room, rfl, hmem⟩), hnone, hid, hh⟩
    · rw [hcreated]; exact nodup_newRooms rooms _
    · -- the check before the insert
      intro r hmem
      rw [hcreated] at hmem
      obtain ⟨i, input, hinput, _, _, hroom⟩ := mem_newRooms hmem
      rw [hroom]
      have hok : ¬ (input.weightBp < 1 ∨ 10000 < input.weightBp) := fun hbad =>
        hweights (List.any_eq_true.mpr ⟨input, hinput, decide_eq_true hbad⟩)
      show 1 ≤ input.weightBp ∧ input.weightBp ≤ 10000
      omega
    · rw [hcreated, weights_newRooms, hsum]

/-- Members move into inserted rooms. -/
theorem triple_assignRoom_inserted {id : Uuid} {userIds : List JsString}
    (hid : id ∈ created.map Prod.fst) : (householdsProtocol env).Triple
      (Furnishing env h house created) (assignRoom h id userIds)
      fun _ => Furnishing env h house created := by
  refine triple_exec stable_furnishing fun tx d now _ hA hi _ => ?_
  have hsame : ∀ {e : Effect Writes LockKey Note}, e.writes.rooms = [] →
      (tx.add e).writes.rooms = tx.writes.rooms := fun he => by simp [Writes.append, he]
  refine ⟨hA.there, owns_add _ _ hA.owns, ?_, ?_, fun k o hmem => ?_, ?_, ?_,
    fun k m id' hm hk => ?_, ?_, hA.nodup⟩
  · simp [Writes.append, hA.houses]
  · simp [Writes.append, hA.invites]
  · rcases List.mem_append.mp hmem with hold | hnew
    · exact hA.members k o hold
    · obtain ⟨u, _, hrow⟩ := List.mem_filterMap.mp hnew
      obtain ⟨m, _, heq⟩ := Option.map_eq_some_iff.mp hrow
      obtain ⟨rfl, rfl⟩ := Prod.mk.inj heq
      refine ⟨rfl, _, rfl, fun id' hid' => ?_⟩
      cases hid'
      exact hid
  · rw [hsame rfl]; exact hA.rooms
  · rw [hsame rfl]; exact hA.gone
  · have hnot : k ∉ tx.writes.houseMembers.map Prod.fst := fun hold => hk (by
      simp only [Tx.add_writes, Writes.append_eq, Writes.append, List.map_append]
      exact List.mem_append_left _ hold)
    rw [hsame rfl]
    exact hA.vacant k m id' hm hnot
  · rw [hsame rfl]; exact hA.inserted

theorem triple_assignRooms_inserted {l : List ((Uuid × Room) × RoomInput)}
    (hl : ∀ x ∈ l, x.1.1 ∈ created.map Prod.fst) : (householdsProtocol env).Triple
      (Furnishing env h house created) (assignRooms h l)
      fun _ => Furnishing env h house created := by
  induction l with
  | nil => exact triple_pure fun _ _ hA => hA
  | cons x l ih =>
    exact triple_bind (triple_assignRoom_inserted (hl x (List.mem_cons_self ..))) fun _ =>
      ih fun y hy => hl y (List.mem_cons_of_mem _ hy)

/-! ### Its end -/

/-- The rooms after the commit: those of other houses, and the new ones. -/
theorem Furnishing.rooms_after (hA : Furnishing env h house created tx d) {id : Uuid} {room : Room} :
    (tx.commit d).rooms.lookup id = some room ↔
      (d.rooms.lookup id = some room ∧ room.houseId ≠ h) ∨ (id, room) ∈ created := by
  show (d.rooms.patch tx.writes.rooms).lookup id = some room ↔ _
  rw [Table.lookup_patch]
  constructor
  · intro hlook
    cases hedit : Table.lastEdit tx.writes.rooms id with
    | none =>
      rw [hedit] at hlook
      refine Or.inl ⟨hlook, fun hh => ?_⟩
      exact Table.lastEdit_eq_none.mp hedit (List.mem_map.mpr ⟨_, hA.gone id room hlook hh, rfl⟩)
    | some o =>
      rw [hedit] at hlook
      rcases hA.rooms id o (Table.mem_of_lastEdit hedit) with ⟨rfl, _⟩ | ⟨room', rfl, hmem⟩
      · cases hlook
      · cases hlook
        exact Or.inr hmem
  · rintro (⟨hlook, hh⟩ | hmem)
    · -- rooms of other houses are not written
      cases hedit : Table.lastEdit tx.writes.rooms id with
      | none => exact hlook
      | some o =>
        rcases hA.rooms id o (Table.mem_of_lastEdit hedit) with ⟨_, room', hlook', hh'⟩ | ⟨room', _, hnew⟩
        · rw [hlook] at hlook'
          cases hlook'
          exact absurd hh' hh
        · rw [(hA.inserted id room' hnew).2.1] at hlook
          cases hlook
    · obtain ⟨hwritten, hnone, _, _⟩ := hA.inserted id room hmem
      cases hedit : Table.lastEdit tx.writes.rooms id with
      | none => exact absurd (List.mem_map.mpr ⟨_, hwritten, rfl⟩) (Table.lastEdit_eq_none.mp hedit)
      | some o =>
        rcases hA.rooms id o (Table.mem_of_lastEdit hedit) with ⟨_, room', hlook', _⟩ | ⟨room', rfl, hnew⟩
        · rw [hnone] at hlook'
          cases hlook'
        · have hsame : room' = room := by
            have hinj := List.inj_on_of_nodup_map hA.nodup hnew hmem rfl
            exact (Prod.mk.inj hinj).2
          exact congrArg some hsame

/-- A membership after the commit: one that nobody was moved from, or one
    of the house, with no room or a new one. -/
theorem Furnishing.members_after (hA : Furnishing env h house created tx d) {k : Uuid × Uuid}
    {m : HouseMember} (hm : (tx.commit d).houseMembers.lookup k = some m) :
    (k ∉ tx.writes.houseMembers.map Prod.fst ∧ d.houseMembers.lookup k = some m) ∨
      k.1 = h ∧ ∀ id, m.roomId = some id → id ∈ created.map Prod.fst := by
  change (d.houseMembers.patch tx.writes.houseMembers).lookup k = some m at hm
  rw [Table.lookup_patch] at hm
  cases hedit : Table.lastEdit tx.writes.houseMembers k with
  | none =>
    rw [hedit] at hm
    exact Or.inl ⟨Table.lastEdit_eq_none.mp hedit, hm⟩
  | some o =>
    rw [hedit] at hm
    obtain ⟨hk, m', rfl, hroom⟩ := hA.members k o (Table.mem_of_lastEdit hedit)
    cases hm
    exact Or.inr ⟨hk, hroom⟩

theorem Furnishing.guar (hA : Furnishing env h house created tx d) (hw : WeighIn created)
    (hb : Housed env d) : HouseGuar env me tx d := by
  have hhouses : (tx.commit d).houses = d.houses := by simp [Writes.apply, hA.houses]
  have hothers : ∀ h', h' ≠ h → SameRooms h' d (tx.commit d) := by
    intro h' hne id room hh
    rw [hA.rooms_after]
    constructor
    · rintro (⟨hlook, _⟩ | hmem)
      · exact hlook
      · exact absurd (hh.symm.trans (hA.inserted id room hmem).2.2.2) hne
    · exact fun hlook => Or.inl ⟨hlook, fun hh' => hne (hh.symm.trans hh')⟩
  have hnew : ∀ id, id ∈ created.map Prod.fst →
      ∃ room, (tx.commit d).rooms.lookup id = some room ∧ room.houseId = h := by
    intro id hid
    obtain ⟨⟨_, room⟩, hmem, rfl⟩ := List.mem_map.mp hid
    exact ⟨room, hA.rooms_after.mpr (Or.inr hmem), (hA.inserted _ room hmem).2.2.2⟩
  refine ⟨fun id room hlook => ?_, fun h' u m hm => ?_, fun h' house' hh => ?_, fun h' => ?_,
    fun h' u m id hm hid => ?_, fun i r hmem => ?_, fun h' house' hh => ?_, fun k m id hm hid => ?_⟩
  · rcases hA.rooms_after.mp hlook with ⟨hold, _⟩ | hmem
    · exact hb.ids id room hold
    · exact (hA.inserted id room hmem).2.2.1
  · -- members live in houses that exist
    rw [hhouses]
    rcases hA.members_after hm with ⟨_, hold⟩ | ⟨hk, _⟩
    · exact hb.homes h' u m hold
    · exact ⟨house, by rw [show h' = h from hk]; exact hA.there⟩
  · rw [hhouses] at hh
    obtain ⟨m, hm⟩ := hb.founder h' house' hh
    show ∃ m, (d.houseMembers.patch tx.writes.houseMembers).lookup (h', house'.createdBy) = some m
    rw [Table.lookup_patch]
    cases hedit : Table.lastEdit tx.writes.houseMembers (h', house'.createdBy) with
    | none => exact ⟨m, hm⟩
    | some o =>
      obtain ⟨_, m', ho, _⟩ := hA.members _ o (Table.mem_of_lastEdit hedit)
      exact ⟨m', ho⟩
  · by_cases hh : h' = h
    · -- the new configuration
      subst hh
      have hrows : ∀ id room, (id, room) ∈ created ↔
          (tx.commit d).rooms.lookup id = some room ∧ room.houseId = h' := by
        intro id room
        rw [hA.rooms_after]
        constructor
        · exact fun hmem => ⟨Or.inr hmem, (hA.inserted id room hmem).2.2.2⟩
        · rintro ⟨⟨_, hne⟩ | hmem, hh⟩
          · exact absurd hh hne
          · exact hmem
      refine Or.inr ⟨fun id room hlook hh => hw.each (id, room) ((hrows id room).mpr ⟨hlook, hh⟩), ?_⟩
      rw [Table.total_filter Room.weightBp hA.nodup hrows]
      exact hw.sum
    · exact (hb.rooms h').congr (hothers h' hh)
  · rcases hA.members_after hm with ⟨hk, hold⟩ | ⟨hk, hroom⟩
    · -- an old room is still there, unless it was one of the house
      obtain ⟨room, hlook, hh⟩ := hb.lodged h' u m id hold hid
      refine ⟨room, hA.rooms_after.mpr (Or.inl ⟨hlook, fun hh' => ?_⟩), hh⟩
      exact hA.vacant _ m id hold hk hid (hA.gone id room hlook hh')
    · rw [show h' = h from hk]
      exact hnew id (hroom id hid)
  · rw [hA.invites] at hmem
    cases hmem
  · by_cases hh' : h' = h
    · subst hh'
      have hsame := hA.there
      rw [hh] at hsame
      cases hsame
      exact Or.inr hA.owns
    · exact Or.inl (hothers h' hh')
  · rcases hA.members_after hm with ⟨_, hold⟩ | ⟨_, hroom⟩
    · exact Or.inl ⟨m, hold, hid⟩
    · obtain ⟨⟨_, room⟩, hmem, rfl⟩ := List.mem_map.mp (hroom id hid)
      exact Or.inr (owns_room (hA.inserted _ room hmem).1).holds

theorem setRooms_settles {houseId : JsString} {rooms : List RoomInput}
    (hsum : (rooms.map RoomInput.weightBp).sum = 10000) :
    Keeps (householdsProtocol env) c (begin >>= setRoomsTx env houseId u rooms) := by
  intro k hk seen d
  refine safe_of_triple (A := fun tx _ => tx = Tx.empty) (B := fun created tx d =>
      (∃ house, Furnishing env (toUuid houseId) house created.1 tx d) ∧ WeighIn created.1) ?_ rfl
    (fun _ => ?_) (fun _ _ _ hA hi _ => hA.1.elim fun _ hF => hF.guar hA.2 hi.2)
    (fun a _ _ _ _ => hk (.ok a) _ _) fun e d => hk (.error e) _ d
  swap
  · rintro tx d d' hr hi ⟨⟨house, hF⟩, hw⟩
    exact ⟨⟨house, stable_furnishing tx d d' hr hi hF⟩, hw⟩
  refine triple_bind (triple_begin (stable_const _)) fun startedAt => ?_
  refine triple_bind triple_requireAdmin_there fun _ => ?_
  -- from here on the house has a name
  intro tx d hA
  obtain ⟨rfl, house, hthere⟩ := hA
  have hpassive : (householdsProtocol env).Passive (fun w => w = {}) fun tx d =>
      tx.writes = {} ∧ d.houses.lookup (toUuid houseId) = some house :=
    ⟨fun _ _ _ hr _ hA => ⟨hA.1, hr.houses _ _ hA.2⟩, fun tx d e hq hA =>
      ⟨by rw [Tx.add_writes, hA.1, hq]; rfl, hA.2⟩⟩
  refine triple_bind (A := fun tx d => tx.writes = {} ∧
    d.houses.lookup (toUuid houseId) = some house) (triple_passive hpassive
      (Txn.only_exec (p := fun w : Writes => w = {}) fun _ => rfl)) (fun found => ?_) _ _ ⟨rfl, hthere⟩
  refine triple_bind (triple_passive hpassive only_reject) fun _ => ?_
  refine triple_bind triple_vacateRooms_owned fun _ => triple_bind triple_deleteRooms_gone fun _ =>
    triple_bind (triple_insertRooms_inserted hsum) fun created => ?_
  have hweigh : (householdsProtocol env).Passive Writes.Unhoused fun tx d =>
      Furnishing env (toUuid houseId) house created tx d ∧ WeighIn created :=
    passive_furnishing.and (passive_const _ _)
  have hinserted : ∀ x ∈ created.zip rooms, x.1.1 ∈ created.map Prod.fst := fun x hx =>
    List.mem_map.mpr ⟨x.1, (List.of_mem_zip hx).1, rfl⟩
  have hassign := triple_and (@triple_assignRooms_inserted env (toUuid houseId) house created _ hinserted)
    (triple_passive (passive_const (fun _ => True) (WeighIn created)) (Txn.only_true _))
  refine triple_bind hassign fun _ => triple_bind (triple_passive hweigh
    (only_log ⟨rfl, rfl, rfl, rfl⟩)) fun _ => triple_pure fun _ _ hA => ⟨⟨house, hA.1⟩, hA.2⟩

end setRooms

/-! ## Section 6: Runs -/

theorem households_safe (c : Call) (d : Db) :
    (householdsProtocol env).Safe c (route env c) d Tx.empty d := by
  have hclosed : Closed (Always (householdsProtocol env) c) := always_closed fun _ _ => trivial
  have hroute : ∀ {c : Call}, KeepsAll (householdsProtocol env) env c →
      (householdsProtocol env).Safe c (route env c) d Tx.empty d :=
    fun h => always_route (fun _ _ => trivial) h _ _
  cases c with
  | createHouse u input => exact hroute createHouse_settles
  | createPlaceholder h u name => exact hroute createPlaceholder_settles
  | setDisplayName h u name => exact hroute setDisplayName_settles
  | acceptInvite token u => exact hroute acceptInvite_settles
  | createInvite h u placeholderId => exact createInvite_settles d
  | setRooms h u rooms =>
    refine hclosed.houseMemberGuard (hclosed.parseBody ?_) d d
    unfold setRooms
    dsimp only
    split
    · exact hclosed.done _
    · next hsum =>
      split
      · exact hclosed.done _
      · refine Keeps.transact (setRooms_settles (not_not.mp hsum)) fun r => ?_
        cases r <;> exact hclosed.done _
  | _ =>
    refine safe_trivial (fun _ _ _ hm => ?_) (fun _ _ => trivial) _ _ _ _
    cases hm

theorem housed_empty (env : Env) : Housed env Db.empty :=
  ⟨fun _ _ h => (by cases h), fun _ _ _ h => (by cases h), fun _ _ h => (by cases h),
    fun _ => Or.inl fun _ _ h => (by cases h), fun _ _ _ _ h => (by cases h),
    fun _ _ h => (by cases h)⟩

theorem Housed.tick {d : Db} (hb : Housed env d) (n : ℕ) : Housed env (tick n d) where
  ids id room hlook := by
    obtain ⟨m, hm, hid⟩ := hb.ids id room hlook
    exact ⟨m, lt_of_lt_of_le hm (Nat.le_add_right _ _), hid⟩
  homes := hb.homes
  founder := hb.founder
  rooms := hb.rooms
  lodged := hb.lodged
  invites i r hr := ⟨(hb.invites i r hr).house, (hb.invites i r hr).creator,
    (hb.invites i r hr).placeholder⟩

theorem households_lawful :
    (householdsProtocol env).Lawful (homi env) (Founded env) fun _ _ => True where
  rely_refl tx d := .refl tx d
  rely_trans _ _ _ _ h h' := h.trans h'
  rely_tick tx n _ _ := .tick tx n _
  inv_tick n _ h := ⟨h.1.tick n, h.2.tick n⟩
  inv_init := ⟨ledgerBase_empty env, housed_empty env⟩
  inv_commit _ hk hi hg _ := ⟨hk.1.after, (hk.1.houseGuar hi.2 hg).housed hi.2 hk⟩
  rely_commit _ _ hk hi hg hheld' hheld hc _ :=
    .commit hk (hk.1.houseGuar hi.2 hg) hheld' hheld hc
  apart_empty _ := trivial
  start c d _ _ := households_safe c d
  killed _ _ _ _ := trivial

theorem founded_reachable {s : HomiState} (h : HomiReachable env s) : ∀ c ∈ s.wal, Founded env c := by
  intro c hc
  have hknown := known_reachable h c hc
  exact ⟨hknown, (hknown.partiesGuar ((parties_reachable h).commits c hc).2).housesKept⟩

theorem households_reachable {s : HomiState} (h : HomiReachable env s) :
    (householdsProtocol env).Holds s :=
  Protocol.sound households_lawful
    { allows := fun _ _ _ _ _ _ => trivial
      stops := fun _ _ _ _ _ => trivial
      apart := fun _ _ _ _ _ _ _ _ _ => trivial
      known := fun _ hs => founded_reachable hs } h

/-- What holds of the rooms in every state of every run. -/
structure RoomsHold (s : HomiState) : Prop where
  configured : ∀ h, Configured s.db h
  lodged : Lodged s.db
  failed : ∀ (p : ℕ) (pr : Proc Db Writes LockKey Note Hint Reply Call) h u rooms err,
    s.procs[p]? = some pr → pr.call = .setRooms h u rooms → pr.prog = .done (.failure err) →
      ∀ c ∈ s.wal, c.pid ≠ p

/-- In every state of every run a house has no rooms, or rooms with weights
    in `1..10000` that sum to 10000, and every membership has no room or one
    of its own house. And a configuration that fails has committed nothing. -/
theorem rooms_hold (env : Env) (s : HomiState) (h : HomiReachable env s) : RoomsHold s := by
  have hhoused : Housed env s.db := (households_reachable h).inv.2
  refine ⟨hhoused.rooms, hhoused.lodged, fun p pr k u rooms err hp hcall hprog => ?_⟩
  exact failed_commits_nothing h hp (by rw [hcall]; rfl) hprog

/-- `ann` lives in the attic, and `u` in the cellar. -/
def atticAndCellar (u : Uuid) : List RoomInput :=
  [⟨js "Attic", 4000, [ann]⟩, ⟨js "Cellar", 6000, [u]⟩]

/-- `cleo` claims the guest in the cellar, who cannot have a room after that. -/
def roomSession : List (Action Call) := serial 1000 0 (opening ++ [
  (.createPlaceholder theHouse ann (js "Pat"), 8),
  (.setRooms theHouse ann (atticAndCellar (sampleUuid 3)), 14),
  (.createInvite theHouse ann (some (sampleUuid 3)), 5),
  (.acceptInvite (js "token-6") cleo, 21),
  (.setRooms theHouse ann (atticAndCellar (sampleUuid 3)), 4)])

theorem rooms_hold_cellar : ∃ s : HomiState, RoomsHold s ∧ s.db.rooms.rows.length = 2 ∧
    ∃ m, s.db.houseMembers.lookup (theHouse, cleo) = some m ∧ m.roomId = some (sampleUuid 5) := by
  obtain ⟨s, hrun, hs⟩ := Run.exists_of_drive (homi sampleEnv) roomSession (fun s =>
    s.db.rooms.rows.length = 2 && (s.db.houseMembers.lookup (theHouse, cleo)).any fun m =>
      m.roomId = some (sampleUuid 5)) (by decide +kernel)
  obtain ⟨hrooms, hcleo⟩ := Bool.and_eq_true_iff.mp hs
  obtain ⟨m, hm, hroom⟩ := (Option.any_eq_true _ _).mp hcleo
  exact ⟨s, rooms_hold sampleEnv s hrun, of_decide_eq_true hrooms, m, hm, of_decide_eq_true hroom⟩

end Homi
