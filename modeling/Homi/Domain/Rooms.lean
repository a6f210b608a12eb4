import Homi.Domain.Split
import Mathlib.Algebra.Order.BigOperators.Group.Finset

/-! # Rooms

  `packages/domain/src/money/rooms.ts`: what `divideRoomWeight` gives to
  each occupant, and when the shares of some members of a house make up
  the whole of it.
-/

variable {ι : Type}

/-! ## Section 1: One room -/

/-- The share of `id` in a room of weight `weightBp`: an equal part, and one
    of the leftover basis points for each of the first occupants. -/
def roomShare [LinearOrder ι] (weightBp : ℤ) (occupants : List ι) (id : ι) : ℤ :=
  weightBp / occupants.length +
    if (occupants.idxOf id : ℤ) < weightBp % occupants.length then 1 else 0

theorem roomShare_nonneg [LinearOrder ι] {weightBp : ℤ} (hw : 0 ≤ weightBp) (occupants : List ι)
    (id : ι) : 0 ≤ roomShare weightBp occupants id := by
  have hbase : 0 ≤ weightBp / occupants.length := Int.ediv_nonneg hw (by omega)
  unfold roomShare
  split <;> omega

/-- `r` of the numbers below `n` are less than `r`. -/
theorem sum_range_extra (base r : ℤ) (n : ℕ) (h0 : 0 ≤ r) (hr : r ≤ n) :
    ((List.range n).map fun i : ℕ => base + if (i : ℤ) < r then 1 else 0).sum = base * n + r := by
  induction n generalizing r with
  | zero =>
    have : r = 0 := by omega
    subst this
    simp
  | succ n ih =>
    rw [List.range_succ, List.map_append, List.sum_append]
    by_cases hlast : (n : ℤ) < r
    · -- every one of them is
      have hr' : r = (n : ℤ) + 1 := by omega
      have hsame : ((List.range n).map fun i : ℕ => base + if (i : ℤ) < r then 1 else 0) =
          (List.range n).map fun i : ℕ => base + if (i : ℤ) < n then 1 else 0 := by
        refine List.map_congr_left fun i hi => ?_
        have := List.mem_range.mp hi
        rw [if_pos (by omega), if_pos (by omega)]
      rw [hsame, ih n (by omega) le_rfl]
      rw [List.map_singleton, List.sum_singleton, if_pos hlast, hr']
      push_cast
      ring
    · rw [ih r h0 (by omega)]
      rw [List.map_singleton, List.sum_singleton, if_neg hlast]
      push_cast
      ring

/-- The shares of a room make up its weight. -/
theorem sum_roomShare [LinearOrder ι] {occupants : List ι} (hne : occupants ≠ [])
    (hnd : occupants.Nodup) (weightBp : ℤ) :
    (occupants.map (roomShare weightBp occupants)).sum = weightBp := by
  have hpos : 0 < (occupants.length : ℤ) := by
    have := List.length_pos_of_ne_nil hne
    omega
  have hidx : occupants.map (roomShare weightBp occupants) =
      (List.range occupants.length).map fun i : ℕ => weightBp / occupants.length +
        if (i : ℤ) < weightBp % occupants.length then 1 else 0 := by
    refine List.ext_getElem (by simp) fun i hi hi' => ?_
    simp [roomShare, hnd.idxOf_getElem]
  rw [hidx, sum_range_extra _ _ _ (Int.emod_nonneg _ (by omega)) (Int.emod_lt_of_pos _ hpos).le,
    mul_comm]
  exact Int.mul_ediv_add_emod _ _

section divide

variable [LinearOrder ι]

/-- The loop of `divideRoomWeight`, from a remainder that is still there. -/
theorem foldl_divide (base : ℤ) {occupants : List ι} (hnd : occupants.Nodup) (r : Record ι ℤ)
    (remainder : ℤ) (h0 : 0 ≤ remainder) (id : ι) :
    (occupants.foldl (fun (shares, remainder) occupant =>
      (shares.insert occupant (base + if remainder > 0 then 1 else 0),
        if remainder > 0 then remainder - 1 else remainder)) (r, remainder)).1.lookup id =
      if id ∈ occupants then
        some (base + if (occupants.idxOf id : ℤ) < remainder then 1 else 0)
      else r.lookup id := by
  induction occupants generalizing r remainder with
  | nil => simp
  | cons first rest ih =>
    obtain ⟨hfirst, hrest⟩ := List.nodup_cons.mp hnd
    rw [List.foldl_cons, ih hrest _ _ (by split <;> omega)]
    by_cases hid : id = first
    · subst hid
      simp [hfirst]
    · have hidx : (first :: rest).idxOf id = rest.idxOf id + 1 :=
        List.idxOf_cons_ne _ (Ne.symm hid)
      by_cases hmem : id ∈ rest
      · rw [if_pos hmem, if_pos (List.mem_cons_of_mem _ hmem), hidx]
        congr 2
        push_cast
        -- one basis point went to the first occupant, if one was left
        by_cases hleft : remainder > 0
        · rw [if_pos hleft]
          congr 1
          exact propext ⟨fun h => by omega, fun h => by omega⟩
        · rw [if_neg hleft, if_neg (by omega), if_neg (by omega)]
      · have hout : id ∉ first :: rest := by simp [hid, hmem]
        rw [if_neg hmem, if_neg hout, AList.lookup_insert_ne hid]

/-- What `divideRoomWeight` gives to each occupant. -/
theorem divideRoomWeight_eq {weightBp : ℤ} (hlo : 1 ≤ weightBp) (hhi : weightBp ≤ 10000)
    {occupants : List ι} (hne : occupants ≠ []) (hnd : occupants.Nodup) :
    ∃ shares, divideRoomWeight (.int weightBp) occupants = .ok shares ∧
      ∀ id, shares.lookup id =
        if id ∈ occupants then some (roomShare weightBp occupants id) else none := by
  have hpos : 0 < (occupants.length : ℤ) := by
    have := List.length_pos_of_ne_nil hne
    omega
  have hmod : weightBp - weightBp / occupants.length * occupants.length =
      weightBp % occupants.length := by
    have := Int.mul_ediv_add_emod weightBp occupants.length
    rw [mul_comm] at this
    omega
  -- the loop, once the checks have passed
  have hcode : divideRoomWeight (.int weightBp) occupants =
      .ok (occupants.foldl (fun ((shares, remainder) : Record ι ℤ × ℤ) occupant =>
        (shares.insert occupant
          (weightBp / occupants.length + if remainder > 0 then 1 else 0),
          if remainder > 0 then remainder - 1 else remainder))
        (∅, weightBp - weightBp / occupants.length * occupants.length)).1 := by
    have hsafe : (JsNumber.int weightBp).safe? = some weightBp :=
      JsNumber.safe?_eq_some.mpr ⟨rfl, by unfold maxSafeInteger; omega⟩
    unfold divideRoomWeight
    rw [hsafe]
    dsimp only
    rw [if_neg (by omega), if_neg hne, if_neg (not_not_intro hnd)]
    rfl
  refine ⟨_, hcode, fun id => ?_⟩
  rw [hmod, foldl_divide _ hnd _ _ (Int.emod_nonneg _ (by omega)), AList.lookup_empty]
  rfl

/-- The inputs that `divideRoomWeight` does not throw at. -/
theorem divideRoomWeight_ok {weightBp : JsNumber} {occupants : List ι} {shares : Record ι ℤ}
    (h : divideRoomWeight weightBp occupants = .ok shares) :
    ∃ w, weightBp = .int w ∧ 1 ≤ w ∧ w ≤ 10000 ∧ occupants ≠ [] ∧ occupants.Nodup := by
  unfold divideRoomWeight at h
  cases hw : weightBp.safe? with
  | none =>
    rw [hw] at h
    cases h
  | some w =>
    rw [hw] at h
    dsimp only at h
    -- the checks, in the order of the code
    by_cases hrange : w < 1 ∨ w > 10000
    · rw [if_pos hrange] at h
      cases h
    · rw [if_neg hrange] at h
      by_cases hne : occupants = []
      · rw [if_pos hne] at h
        cases h
      · rw [if_neg hne] at h
        by_cases hnd : occupants.Nodup
        · exact ⟨w, (JsNumber.safe?_eq_some.mp hw).1, by omega, by omega, hne, hnd⟩
        · rw [if_pos hnd] at h
          cases h

/-- What a room's weight divides into. Every occupant has an equal part or
    one basis point more, the earlier ones first. -/
structure DividedRoom (weightBp : ℤ) (occupants : List ι) (shares : Record ι ℤ) : Prop where
  keys : ∀ id, id ∈ shares ↔ id ∈ occupants
  part : ∀ id share, shares.lookup id = some share →
    share = weightBp / occupants.length ∨ share = weightBp / occupants.length + 1
  sum : shares.total (fun _ share => share) = weightBp
  order : occupants.Pairwise fun id id' => ∀ share share', shares.lookup id = some share →
    shares.lookup id' = some share' → share' ≤ share

/-- An occupant does not get more than those before. -/
theorem roomShare_antitone {occupants : List ι} (hnd : occupants.Nodup) (weightBp : ℤ) :
    occupants.Pairwise fun id id' => roomShare weightBp occupants id' ≤ roomShare weightBp occupants id := by
  rw [List.pairwise_iff_getElem]
  intro i j hi hj hij
  unfold roomShare
  rw [hnd.idxOf_getElem, hnd.idxOf_getElem]
  by_cases hj' : (j : ℤ) < weightBp % occupants.length
  · rw [if_pos hj', if_pos (by omega)]
  · rw [if_neg hj']
    split <;> omega

theorem divideRoomWeight_divides {weightBp : ℤ} (hlo : 1 ≤ weightBp) (hhi : weightBp ≤ 10000)
    {occupants : List ι} (hne : occupants ≠ []) (hnd : occupants.Nodup) :
    ∃ shares, divideRoomWeight (.int weightBp) occupants = .ok shares ∧
      DividedRoom weightBp occupants shares := by
  obtain ⟨shares, hshares, hlook⟩ := divideRoomWeight_eq hlo hhi hne hnd
  have hshare : ∀ {id share}, shares.lookup id = some share →
      share = roomShare weightBp occupants id := by
    intro id share h
    rw [hlook] at h
    split at h
    · exact (Option.some.inj h).symm
    · cases h
  refine ⟨shares, hshares, ?_, ?_, ?_, ?_⟩
  · intro id
    rw [← AList.lookup_isSome, hlook]
    split <;> simp_all
  · intro id share h
    rw [hshare h]
    unfold roomShare
    split
    · exact Or.inr rfl
    · exact Or.inl (add_zero _)
  · rw [total_of_lookup hnd hlook, sum_roomShare hne hnd]
  · refine (roomShare_antitone hnd weightBp).imp ?_
    intro id id' hle share share' h h'
    rw [hshare h, hshare h']
    exact hle

/-- Weights for the members of a house, as `computeSplits` takes them: these
    have entries, the entries sum to 10000, and every valid total splits by
    them. -/
structure WeightMap (ids : List ι) (shares : Record ι ℤ) : Prop where
  keys : ∀ id, id ∈ shares ↔ id ∈ ids
  sum : shares.total (fun _ share => share) = 10000
  accepted : ∀ (input : SplitInput ι) (total : ℤ), input.totalCents = .int total → 0 < total →
    total ≤ maxSafeInteger → input.mode = .percent ∨ input.mode = .room_weighted →
    input.participants.Perm ids →
    (∃ weights, input.weightsBp = some weights ∧
      ∀ id, weights.lookup id = (shares.lookup id).map JsNumber.int) →
    ∃ splits, computeSplits input = .ok splits

theorem WeightMap.reordered {ids ids' : List ι} {shares : Record ι ℤ} (h : WeightMap ids shares)
    (hperm : ids.Perm ids') : WeightMap ids' shares where
  keys := fun id => (h.keys id).trans hperm.mem_iff
  sum := h.sum
  accepted := fun input total htotal hpos hmax hmode hparts =>
    h.accepted input total htotal hpos hmax hmode (hparts.trans hperm.symm)

/-- Shares of at least 0 that sum to 10000 are a weight map. -/
theorem weightMap_of_shares {ids : List ι} (hnd : ids.Nodup) {shares : Record ι ℤ} {share : ι → ℤ}
    (hlook : ∀ id, shares.lookup id = if id ∈ ids then some (share id) else none)
    (hshare : ∀ id ∈ ids, 0 ≤ share id) (hsum : (ids.map share).sum = 10000) :
    WeightMap ids shares where
  keys := by
    intro id
    rw [← AList.lookup_isSome, hlook]
    split <;> simp_all
  sum := by rw [total_of_lookup hnd hlook, hsum]
  accepted := by
    intro input total htotal hpos hmax hmode hparts hweights
    obtain ⟨weights, hweights, hentries⟩ := hweights
    have hconf : Configured input.weightsBp input.participants 10000 := by
      refine ⟨weights, share, hweights, ?_, ?_⟩
      · intro id hid
        have hmem := hparts.mem_iff.mp hid
        rw [hentries, hlook, if_pos hmem]
        exact ⟨rfl, hshare id hmem⟩
      · rw [← hsum]
        exact (hparts.map share).sum_eq
    refine computeSplits_total ⟨total, htotal, hpos, ?_, ?_, ?_⟩ htotal hmax
    · -- nobody would have nothing
      intro hnil
      rw [hnil] at hparts
      rw [← List.Perm.nil_eq hparts] at hsum
      cases hsum
    · exact hparts.nodup_iff.mpr hnd
    · rcases hmode with hmode | hmode
      · rw [hmode]
        exact hconf
      · rw [hmode]
        exact hconf

end divide

/-! ## Section 2: A house -/

section house

variable {ρ : Type} [DecidableEq ι] [DecidableEq ρ]

end house
