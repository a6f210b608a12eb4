import Homi.Verification.Configurations
import Homi.Verification.WorkerRuns

/-! # Scoped and whole reads of the members

  The worker reads all members of the house before it resolves the splits
  of a bill. The API reads the members that the request names, and all of
  them only where the rooms count. Whatever the mode asks of the members,
  both lists answer it in the same way.
-/

namespace Homi

open ReadCommitted

variable {d : Db} {houseId : JsString} {input : ResolveSplitsInput} {ms ms' : List ActiveMember}

/-! ## Section 1: Lists with the same members -/

theorem byId_iff (hnd : (ms.map ActiveMember.userId).Nodup) {id : JsString} {m : ActiveMember} :
    byId ms id = some m ↔ m ∈ ms ∧ m.userId = id := by
  constructor
  · exact byId_eq_some
  · rintro ⟨hm, hid⟩
    cases hfound : byId ms id with
    | none =>
      have hnone := List.find?_eq_none.mp hfound m hm
      exact absurd hid (by simpa using hnone)
    | some m' =>
      obtain ⟨hm', hid'⟩ := byId_eq_some hfound
      rw [List.inj_on_of_nodup_map hnd hm' hm (hid'.trans hid.symm)]

/-- Who has the id is a matter of the members, not of their order. -/
theorem byId_congr (hnd : (ms.map ActiveMember.userId).Nodup) (hnd' : (ms'.map ActiveMember.userId).Nodup)
    {id : JsString} (h : ∀ m : ActiveMember, m.userId = id → (m ∈ ms ↔ m ∈ ms')) : byId ms id = byId ms' id := by
  apply Option.ext
  intro m
  rw [byId_iff hnd, byId_iff hnd']
  constructor
  · rintro ⟨hm, hid⟩
    exact ⟨(h m hid).mp hm, hid⟩
  · rintro ⟨hm, hid⟩
    exact ⟨(h m hid).mpr hm, hid⟩

theorem byId_perm (hnd : (ms.map ActiveMember.userId).Nodup) (hp : ms.Perm ms') : byId ms = byId ms' := by
  funext id
  apply byId_congr hnd ((hp.map _).nodup_iff.mp hnd)
  intro m _
  exact hp.mem_iff

/-- What the split asks of the members: those who are involved, and the
    weights. -/
theorem splitsOver_congr (hinvolved : ∀ id ∈ input.participants ++ [input.paidBy], byId ms id = byId ms' id)
    (hweights : weightsAt d houseId input ms = weightsAt d houseId input ms') :
    splitsOver d houseId input ms = splitsOver d houseId input ms' := by
  have hany : ((input.participants ++ [input.paidBy]).eraseDups.any fun id => (byId ms id).isNone) =
      (input.participants ++ [input.paidBy]).eraseDups.any fun id => (byId ms' id).isNone := by
    rw [Bool.eq_iff_iff, List.any_eq_true, List.any_eq_true]
    apply exists_congr
    intro id
    apply and_congr_right
    intro hid
    rw [hinvolved id (List.mem_eraseDups.mp hid)]
  rw [splitsOver, splitsOver, hany, hinvolved input.paidBy (by simp), hweights]

/-- Rooms divide in the same way, in whatever order their occupants come. -/
theorem weightsAt_perm (hnd : (ms.map ActiveMember.userId).Nodup) (hp : ms.Perm ms') :
    weightsAt d houseId input ms = weightsAt d houseId input ms' := by
  have hoccupants : ∀ id, roomOccupants ms id = roomOccupants ms' id := fun id =>
    roomOccupants_perm hnd (hp.filter _)
  have hshares : ∀ rooms, roomShares ms rooms = roomShares ms' rooms := by
    intro rooms
    unfold roomShares
    congr 1
    funext shareByUser r
    have hr := hoccupants r.1
    unfold roomOccupants at hr
    simp only [hr]
  rw [weightsAt, weightsAt, roomWeightsAt, roomWeightsAt, roomsAt, roomsAt, byId_perm hnd hp, hshares]

/-! ## Section 2: The two reads -/

/-- The ids of the members are as a `uuid` column prints them. -/
def CanonicalMembers (d : Db) : Prop :=
  ∀ h u m, d.houseMembers.lookup (h, u) = some m → toUuid u = u

theorem nodup_of_perm {h : Uuid} {ids : Option (List Uuid)} (hp : ms.Perm (activeMembers d h ids)) :
    (ms.map ActiveMember.userId).Nodup := (hp.map _).nodup_iff.mpr (nodup_activeMembers ids)

/-- Whoever is involved is in both reads, or in none. -/
theorem byId_scoped (hd : CanonicalMembers d) {involved : List JsString}
    (hwhole : ms.Perm (activeMembers d (toUuid houseId) none))
    (hscoped : ms'.Perm (activeMembers d (toUuid houseId) (some (involved.map toUuid)))) {id : JsString}
    (hid : id ∈ involved) : byId ms id = byId ms' id := by
  apply byId_congr (nodup_of_perm hwhole) (nodup_of_perm hscoped)
  intro m hm
  rw [hwhole.mem_iff, hscoped.mem_iff, mem_activeMembers, mem_activeMembers]
  apply and_congr_right
  intro hactive
  -- the row has the id in the form in which it was asked for
  obtain ⟨_, row, hrow, _⟩ := activeMember_eq_some hactive
  have hcanonical : toUuid id = id := by
    rw [← hm]
    exact hd _ _ _ hrow
  have hmem : m.userId ∈ involved.map toUuid := by
    rw [hm]
    exact List.mem_map.mpr ⟨id, hid, hcanonical⟩
  simp [hmem]

/-- The members as the API reads them for the input. -/
def readsOf (d : Db) (houseId : JsString) (input : ResolveSplitsInput) : List ActiveMember :=
  membersAt d houseId input.mode (input.participants ++ [input.paidBy]).eraseDups

/-- All members and those that the API reads resolve to the same splits, or
    to the same error. -/
theorem splitsOver_reads (hd : CanonicalMembers d) (hwhole : ms.Perm (activeMembers d (toUuid houseId) none))
    (hread : ms'.Perm (readsOf d houseId input)) :
    splitsOver d houseId input ms = splitsOver d houseId input ms' := by
  unfold readsOf membersAt at hread
  by_cases hmode : input.mode = .room_weighted
  · rw [if_pos hmode] at hread
    have hp : ms.Perm ms' := hwhole.trans hread.symm
    have hnd := nodup_of_perm hwhole
    apply splitsOver_congr
    · intro id _
      rw [byId_perm hnd hp]
    · exact weightsAt_perm hnd hp
  · rw [if_neg hmode] at hread
    apply splitsOver_congr
    · intro id hid
      exact byId_scoped hd hwhole hread (List.mem_eraseDups.mpr hid)
    · -- the request has the weights, whoever the members are
      rw [weightsAt, weightsAt, if_neg hmode, if_neg hmode]

/-! ## Section 3: Resolving -/

/-- A transaction that only reads, run alone, gives what it reads of the database. -/
theorem reads_alone {p : DbTxn (Splits JsString)} (f : Db → Except Err (Splits JsString))
    (h : p.Reads fun v => f v.db) (now : Millis) : p.alone now d {} = (f d, d, {}) := by
  have hseen : (seen ({} : Writes) d now).db = d := congrArg View.db (seen_nothing d now)
  have hrun : p.alone now d {} = (f (seen ({} : Writes) d now).db, d, {}) := h now d {}
  rw [hseen] at hrun
  exact hrun

theorem resolveSplits_over_alone (now : Millis) :
    (resolveSplits houseId input (some ms)).alone now d {} = (splitsOver d houseId input ms, d, {}) := by
  apply reads_alone fun d => splitsOver d houseId input ms
  exact reads_resolveSplits_over input (fun _ => ms) (Txn.reads_pure _)

theorem resolveSplits_own_alone (now : Millis) : (resolveSplits houseId input none).alone now d {} =
    (splitsOver d houseId input (readsOf d houseId input), d, {}) := by
  apply reads_alone fun d => splitsOver d houseId input (readsOf d houseId input)
  exact reads_resolveSplits input

/-- Whoever has read the members, and how many, the splits are the same.

    * `resolve`: all members of the house, and those that the API reads for
      the input, in any order: the result is that of the API's own read.
    * `bill`: a bill is posted with the splits that `createExpense` computes
      for its payer, mode, amount and participants. -/
structure ReadsAgree (env : Env) (d : Db) : Prop where
  resolve : ∀ houseId input whole read now, whole.Perm (activeMembers d (toUuid houseId) none) →
    read.Perm (readsOf d houseId input) →
    (resolveSplits houseId input (some whole)).alone now d {} = (resolveSplits houseId input none).alone now d {} ∧
    (resolveSplits houseId input (some read)).alone now d {} = (resolveSplits houseId input none).alone now d {}
  bill : ∀ (bill : DueBill) period advanced now id d' w, let t := bill.template
    (postOneTx env bill period advanced).alone now d {} = (.ok id, d', w) → ∀ input : CreateExpenseInput,
    input.amountCents = t.amountCents → input.paidBy = t.ownerId → input.mode = t.splitMode →
    input.participants = billParticipants t.splitMode (activeMembers d (toUuid t.houseId) none) →
    input.exactCents = none → input.weightsBp = none →
    ∃ splits, (resolveSplitsOr400 t.houseId input.resolve).alone now d {} = (.ok splits, d, {}) ∧
      (bookBill env now bill period advanced splits).alone now d {} = (.ok id, d', w)

/-- Scoped and whole reads agree, in every state and on every input. -/
theorem membership_reads (env : Env) (d : Db) (hd : CanonicalMembers d) : ReadsAgree env d := by
  have hread : ∀ {houseId input}, (readsOf d houseId input).Perm (readsOf d houseId input) :=
    fun {_ _} => List.Perm.refl _
  have hwhole : ∀ {houseId : JsString}, (activeMembers d (toUuid houseId) none).Perm
      (activeMembers d (toUuid houseId) none) := fun {_} => List.Perm.refl _
  refine ⟨?_, ?_⟩
  · intro houseId input whole read now hw hr
    -- each read gives the splits of the list that it gives
    rw [resolveSplits_over_alone, resolveSplits_over_alone, resolveSplits_own_alone]
    rw [splitsOver_reads hd hw hread, ← splitsOver_reads hd hwhole hr, splitsOver_reads hd hwhole hread]
    exact ⟨rfl, rfl⟩
  · intro bill period advanced now id d' w t hposted input hamount hpayer hmode hparticipants hexact hweights
    rw [postOneTx_alone] at hposted
    -- the request is the input that the worker resolves
    have hinput : input.resolve = billInput t (activeMembers d (toUuid t.houseId) none) := by
      rw [CreateExpenseInput.resolve, hamount, hpayer, hmode, hparticipants, hexact, hweights]
      rfl
    cases hsplits : billSplits d t with
    | error err =>
      rw [hsplits] at hposted
      cases hposted
    | ok splits =>
      rw [hsplits] at hposted
      refine ⟨splits, ?_, hposted⟩
      have hover : splitsOver d t.houseId input.resolve (activeMembers d (toUuid t.houseId) none) = .ok splits := by
        rw [hinput]
        unfold billSplits at hsplits
        dsimp only at hsplits
        split at hsplits
        · cases hsplits
        split at hsplits
        · cases hsplits
        · exact hsplits
      rw [resolveSplitsOr400, Txn.alone_mapError, resolveSplits_own_alone,
        ← splitsOver_reads hd hwhole hread, hover]
      rfl

/-- The ids in a reachable database are canonical. -/
theorem canonicalMembers_reachable {env : Env} {s : HomiState} (hs : HomiReachable env s) :
    CanonicalMembers s.db := fun _ _ _ hrow => (templates_hold hs).inv.1.people.canonical hrow

/-- The house of a bill for every Monday. -/
theorem membership_reads_mondays : ∃ s : HomiState, succeeded s 3 = true ∧ ReadsAgree sampleEnv s.db := by
  obtain ⟨s, hrun, hs⟩ := Run.exists_of_drive (homi sampleEnv) billSession
    (fun s => succeeded s 3) (by decide +kernel)
  exact ⟨s, hs, membership_reads sampleEnv s.db (canonicalMembers_reachable hrun)⟩

end Homi
