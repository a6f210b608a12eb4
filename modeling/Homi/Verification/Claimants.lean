import Homi.Domain.Renaming
import Homi.Verification.Previews

/-! # Claims and balances

  A claim gives the shares of the placeholder to its claimer. Where both
  have a split the claimer's grows and the placeholder's is deleted,
  everywhere else the split changes its user. Run alone, the three
  statements come to one function on splits (`claimedSplit`), and through
  the join behind the balances to a user renamed (`Renames`).
-/

namespace Homi

open ReadCommitted

variable {D D' : Db} {e u h p c : Uuid} {rid : Rid} {s s' : Split}

/-! ## Section 1: The splits of an expense -/

/-- The primary key of `expense_splits`. -/
def Db.Slots (D : Db) : Prop := ∀ rid rid' s s', D.split rid = some s → D.split rid' = some s' →
  s.expenseId = s'.expenseId → s.userId = s'.userId → rid = rid'

/-- The amount of the split of `u`, zero where there is none. -/
def Db.amountOf (D : Db) (e u : Uuid) : ℤ :=
  ((D.splitsOf e).find? fun r => r.2.userId = u).elim 0 fun r => r.2.amountCents

/-- The splits of an expense as the balances see them. -/
def Db.shares (D : Db) (e : Uuid) : Splits JsString :=
  (D.splitsOf e).foldl (fun splits r => splits.insert r.2.userId r.2.amountCents) ∅

theorem amountOf_split (hD : D.Slots) (hs : D.split rid = some s) :
    D.amountOf s.expenseId s.userId = s.amountCents := by
  unfold Db.amountOf
  cases hfound : (D.splitsOf s.expenseId).find? fun r => r.2.userId = s.userId with
  | none =>
    have hno := List.find?_eq_none.mp hfound (rid, s) (Db.mem_splitsOf.mpr ⟨hs, rfl⟩)
    exact absurd (decide_eq_true rfl) hno
  | some r =>
    obtain ⟨rid', s'⟩ := r
    obtain ⟨hs', he⟩ := Db.mem_splitsOf.mp (List.mem_of_find?_eq_some hfound)
    have hu : s'.userId = s.userId := by simpa using List.find?_some hfound
    -- the slot is taken once
    have hrid := hD rid' rid s' s hs' hs he hu
    subst hrid
    rw [hs] at hs'
    cases hs'
    rfl

theorem amountOf_none (h : D.hasSplit e u = false) : D.amountOf e u = 0 := by
  unfold Db.amountOf
  cases hfound : (D.splitsOf e).find? fun r => r.2.userId = u with
  | none => rfl
  | some r =>
    obtain ⟨rid, s⟩ := r
    obtain ⟨hs, he⟩ := Db.mem_splitsOf.mp (List.mem_of_find?_eq_some hfound)
    have hhas := hasSplit_iff.mpr ⟨rid, s, hs, he, by simpa using List.find?_some hfound⟩
    rw [h] at hhas
    cases hhas

theorem hasSplit_of_split (hs : D.split rid = some s) : D.hasSplit s.expenseId s.userId = true :=
  hasSplit_iff.mpr ⟨rid, s, hs, rfl, rfl⟩

/-- The users of the splits of an expense. -/
def Db.splitUsers (D : Db) (e : Uuid) : List Uuid := (D.splitsOf e).map fun r => r.2.userId

theorem mem_splitUsers : u ∈ D.splitUsers e ↔ D.hasSplit e u = true := by
  rw [hasSplit_iff]
  constructor
  · intro hu
    obtain ⟨⟨rid, s⟩, hs, rfl⟩ := List.mem_map.mp hu
    obtain ⟨hs, he⟩ := Db.mem_splitsOf.mp hs
    exact ⟨rid, s, hs, he, rfl⟩
  · rintro ⟨rid, s, hs, he, rfl⟩
    exact List.mem_map.mpr ⟨(rid, s), Db.mem_splitsOf.mpr ⟨hs, he⟩, rfl⟩

theorem nodup_splitUsers (hD : D.Slots) (e : Uuid) : (D.splitUsers e).Nodup := by
  refine List.Nodup.map_on ?_ (D.nodup_splitsOf e)
  rintro ⟨rid, s⟩ hs ⟨rid', s'⟩ hs' hu
  obtain ⟨hs, he⟩ := Db.mem_splitsOf.mp hs
  obtain ⟨hs', he'⟩ := Db.mem_splitsOf.mp hs'
  have hrid := hD rid rid' s s' hs hs' (he.trans he'.symm) hu
  subst hrid
  rw [hs] at hs'
  cases hs'
  rfl

theorem shares_eq (hD : D.Slots) (e : Uuid) :
    D.shares e = (D.splitUsers e).foldl (fun splits u => splits.insert u (D.amountOf e u)) ∅ := by
  rw [Db.splitUsers, List.foldl_map]
  refine List.foldl_ext _ _ _ ?_
  rintro splits ⟨rid, s⟩ hs
  obtain ⟨hrow, rfl⟩ := Db.mem_splitsOf.mp hs
  rw [amountOf_split hD hrow]

/-- Each user has the amount of the split. -/
theorem lookup_shares (hD : D.Slots) (hu : u ∈ D.splitUsers e) :
    (D.shares e).lookup u = some (D.amountOf e u) := by
  rw [shares_eq hD, Table.lookup_foldl_insert, if_pos hu]

theorem lookup_shares_none (hD : D.Slots) (hu : u ∉ D.splitUsers e) : (D.shares e).lookup u = none := by
  rw [shares_eq hD, Table.lookup_foldl_insert, if_neg hu, AList.lookup_empty]

theorem shareOf_shares (hD : D.Slots) (paidBy : JsString) (e u : Uuid) :
    (ExpenseRow.mk paidBy (D.shares e)).shareOf u = D.amountOf e u := by
  unfold ExpenseRow.shareOf
  by_cases hu : u ∈ D.splitUsers e
  · rw [lookup_shares hD hu]
    rfl
  · rw [lookup_shares_none hD hu]
    rw [mem_splitUsers, Bool.not_eq_true] at hu
    rw [amountOf_none hu]
    rfl

/-- The splits add up to the same, row by row or user by user. -/
theorem total_shares (hD : D.Slots) (e : Uuid) :
    (D.shares e).total (fun _ cents => cents) = D.splitSum e := by
  have htotal := Table.total_of_lookup (nodup_splitUsers hD e) (T := D.shares e) (v := D.amountOf e)
    (fun u => by
      by_cases hu : u ∈ D.splitUsers e
      · rw [lookup_shares hD hu, if_pos hu]
      · rw [lookup_shares_none hD hu, if_neg hu]) fun _ cents => cents
  rw [htotal, Db.splitUsers, List.map_map, Db.splitSum]
  refine congrArg List.sum (List.map_congr_left ?_)
  rintro ⟨rid, s⟩ hs
  obtain ⟨hrow, rfl⟩ := Db.mem_splitsOf.mp hs
  exact amountOf_split hD hrow

/-! ## Section 2: What becomes of a split -/

/-- The fold adds the placeholder's amount to the claimer's split. -/
def foldedSplit (p c : Uuid) (D : Db) (s : Split) : Split :=
  if s.userId = c then { s with amountCents := s.amountCents + D.amountOf s.expenseId p } else s

/-- The delete takes the splits of the placeholder next to one of the claimer. -/
def sweptSplit (p c : Uuid) (D : Db) (s : Split) : Option Split :=
  if s.userId = p ∧ D.hasSplit s.expenseId c = true then none else some (foldedSplit p c D s)

/-- The re-identification of a split. -/
def renamedSplit (p c : Uuid) (s : Split) : Split := if s.userId = p then { s with userId := c } else s

/-- The three statements together. -/
def claimedSplit (p c : Uuid) (D : Db) (s : Split) : Option Split :=
  (sweptSplit p c D s).map (renamedSplit p c)

@[simp] theorem foldedSplit_expenseId : (foldedSplit p c D s).expenseId = s.expenseId := by
  unfold foldedSplit
  split
  · rfl
  · rfl

@[simp] theorem foldedSplit_userId : (foldedSplit p c D s).userId = s.userId := by
  unfold foldedSplit
  split
  · rfl
  · rfl

/-- The transaction sees the splits of `D`, each as `f` says. -/
def Became (f : Split → Option Split) (D d : Db) (w : Writes) : Prop :=
  ∀ rid, (w.apply d).split rid = (D.split rid).bind f

/-! ## Section 3: The statements, run alone -/

section statements

variable {d : Db} {w : Writes} {f : Split → Option Split}

/-- One more statement on `expense_splits`: what it edits is as `g` says, and
    what it does not edit `g` leaves alone. -/
theorem became_patch {d' : Db} {w' : Writes} {l : Edits Rid (Option Split)} {g : Split → Option Split}
    (hA : Became f D d w) (hpatch : (w'.apply d').expenseSplits = (w.apply d).expenseSplits.patch l)
    (hedited : ∀ rid o, Table.lastEdit l rid = some o →
      ∃ s, (w.apply d).split rid = some s ∧ o = some (g s))
    (hkept : ∀ rid, Table.lastEdit l rid = none → ∀ s, (w.apply d).split rid = some s → g s = some s) :
    Became (fun s => (f s).bind g) D d' w' := by
  intro rid
  have hstep : (w'.apply d').split rid = ((w.apply d).split rid).bind g := by
    rw [Db.split, hpatch, Table.lookup_patch]
    cases hedit : Table.lastEdit l rid with
    | none =>
      show (w.apply d).split rid = _
      cases hs : (w.apply d).split rid with
      | none => rfl
      | some s => exact (hkept rid hedit s hs).symm
    | some o =>
      obtain ⟨s, hs, rfl⟩ := hedited rid o hedit
      rw [hs]
      rfl
  rw [hstep, hA rid]
  cases D.split rid <;> rfl

theorem Became.congr {g : Split → Option Split} (hA : Became f D d w) (hfg : ∀ s, f s = g s) :
    Became g D d w := by
  intro rid
  rw [hA rid, funext hfg]

/-- Statements on other tables. -/
theorem runs_became {α : Type} {m : DbTxn α} (hm : m.Only fun w => w.expenseSplits = [])
    (h : m.Runs (fun _ _ => True) fun _ _ _ => True) :
    m.Runs (Became f D) fun _ => Became f D := by
  refine Txn.runs_weaken (Txn.Runs.keeps (I := Became f D) ?_ hm h) (fun _ _ hA => ⟨trivial, hA⟩)
    fun _ _ _ hB => hB.2
  intro d w n w' hA hw rid
  rw [Db.split, Writes.splits_append, hw]
  exact hA rid

/-- A read before a statement. -/
theorem became_read {n : ℕ} (hA : Became f D d w) :
    Became f D (tick n d) (WriteSet.append w {}) := by
  rw [show WriteSet.append w {} = w from LawfulStore.append_nothing (D := Db) w]
  exact hA

theorem became_fold (hD : D.Slots) :
    (foldSplits p c).Runs (Became some D) fun _ => Became (fun s => some (foldedSplit p c D s)) D := by
  refine Txn.runs_bind (B := fun pairs d w => pairs = (w.apply d).foldPairs p c ∧ Became some D d w)
    (Txn.runs_exec fun now d w hA => ⟨_, rfl, ?_, became_read hA⟩) fun pairs =>
    Txn.runs_exec fun now d w hA => ⟨(), rfl, ?_⟩
  · rw [show WriteSet.append w {} = w from LawfulStore.append_nothing (D := Db) w, LawfulStore.tick_zero]
    rfl
  obtain ⟨rfl, hA⟩ := hA
  have hsame : ∀ rid, (w.apply d).split rid = D.split rid := by
    intro rid
    rw [hA rid, Option.bind_fun_some]
  refine became_patch (g := fun s => some (foldedSplit p c D s)) hA
    (l := foldEdits c ((w.apply d).foldPairs p c) (w.apply d)) Writes.splits_append ?_ ?_
  · -- an edit of the fold belongs to a pair of splits
    intro rid o ho
    obtain ⟨⟨_, mine, theirs⟩, hmatch, heq⟩ := List.mem_map.mp (Table.mem_of_lastEdit ho)
    obtain ⟨rfl, rfl⟩ := Prod.mk.inj heq
    obtain ⟨hpairs, hmine, hc⟩ := mem_foldMatches.mp hmatch
    obtain ⟨rid', mine', hpair⟩ := mem_foldPairs.mp hpairs
    have hrow : mine' = mine := Option.some.inj (hpair.mineRow.symm.trans hmine)
    subst hrow
    have htheirs : D.amountOf mine'.expenseId p = theirs.amountCents := by
      rw [← hpair.expense, ← hpair.placeholder]
      exact amountOf_split hD ((hsame rid').symm.trans hpair.theirsRow)
    exact ⟨mine', hmine, by simp [foldedSplit, hc, htheirs]⟩
  · intro rid hnone s hs
    by_cases hc : s.userId = c
    · -- there is nothing to add
      have hno : D.hasSplit s.expenseId p = false := by
        rw [Bool.eq_false_iff]
        intro hhas
        obtain ⟨rid', theirs, htheirs, he, hp⟩ := hasSplit_iff.mp hhas
        rw [← hsame] at htheirs
        refine Table.lastEdit_eq_none.mp hnone (List.mem_map.mpr ⟨_, List.mem_map.mpr
          ⟨(rid, s, theirs), mem_foldMatches.mpr ⟨?_, hs, hc⟩, rfl⟩, rfl⟩)
        exact mem_foldPairs.mpr ⟨rid', s, hs, htheirs, he, hc, hp⟩
      rw [foldedSplit, if_pos hc, amountOf_none hno, add_zero]
    · simp [foldedSplit, hc]

/-- After the fold both have a split where they had one. -/
theorem split_folded (hA : Became (fun s => some (foldedSplit p c D s)) D d w) :
    (w.apply d).split rid = some s' ↔ ∃ s, D.split rid = some s ∧ s' = foldedSplit p c D s := by
  rw [hA rid]
  cases D.split rid with
  | none => simp
  | some s => simp [eq_comm]

theorem hasSplit_folded (hA : Became (fun s => some (foldedSplit p c D s)) D d w) :
    (w.apply d).hasSplit e u = D.hasSplit e u := by
  rw [Bool.eq_iff_iff, hasSplit_iff, hasSplit_iff]
  constructor
  · rintro ⟨rid, _, hs, he, hu⟩
    obtain ⟨s, hrow, rfl⟩ := (split_folded hA).mp hs
    exact ⟨rid, s, hrow, by simpa using he, by simpa using hu⟩
  · rintro ⟨rid, s, hs, he, hu⟩
    exact ⟨rid, _, (split_folded hA).mpr ⟨s, hs, rfl⟩, by simpa using he, by simpa using hu⟩

theorem became_sweep :
    (sweepSplits p c).Runs (Became (fun s => some (foldedSplit p c D s)) D) fun _ =>
      Became (sweptSplit p c D) D := by
  refine Txn.runs_bind (B := fun found d w => found = ((w.apply d).splitsOfUser p).filter (fun theirs =>
      (w.apply d).hasSplit theirs.2.expenseId c) ∧ Became (fun s => some (foldedSplit p c D s)) D d w)
    (Txn.runs_exec fun now d w hA => ⟨_, rfl, ?_, became_read hA⟩) fun found =>
    Txn.runs_exec fun now d w hA => ⟨(), rfl, ?_⟩
  · rw [show WriteSet.append w {} = w from LawfulStore.append_nothing (D := Db) w, LawfulStore.tick_zero]
    rfl
  obtain ⟨rfl, hA⟩ := hA
  let taken (s : Split) : Bool := s.userId = p ∧ D.hasSplit s.expenseId c = true
  refine (became_patch (g := fun s => if taken s then none else some s) hA
    (l := sweepEdits p (((w.apply d).splitsOfUser p).filter fun theirs =>
      (w.apply d).hasSplit theirs.2.expenseId c) (w.apply d)) Writes.splits_append ?_ ?_).congr ?_
  · -- what is deleted was found next to a split of the claimer
    intro rid o ho
    obtain ⟨⟨_, s⟩, hmem, heq⟩ := List.mem_map.mp (Table.mem_of_lastEdit ho)
    obtain ⟨rfl, rfl⟩ := Prod.mk.inj heq
    obtain ⟨hrow, hhas⟩ := List.mem_filter.mp (List.mem_filter.mp hmem).1
    obtain ⟨hs, hp⟩ := mem_splitsOfUser.mp hrow
    refine ⟨s, hs, ?_⟩
    rw [hasSplit_folded hA] at hhas
    rw [if_pos (decide_eq_true ⟨hp, hhas⟩)]
  · intro rid hnone s hs
    refine if_neg fun htaken => ?_
    obtain ⟨hp, hhas⟩ := of_decide_eq_true htaken
    rw [← hasSplit_folded hA] at hhas
    -- then it was found
    refine Table.lastEdit_eq_none.mp hnone (List.mem_map.mpr ⟨_, List.mem_map.mpr ⟨(rid, s),
      List.mem_filter.mpr ⟨List.mem_filter.mpr ⟨mem_splitsOfUser.mpr ⟨hs, hp⟩, hhas⟩, ?_⟩, rfl⟩, rfl⟩)
    exact (Option.any_eq_true _ _).mpr ⟨s, hs, decide_eq_true hp⟩
  · intro s
    rw [Option.bind_some, sweptSplit]
    simp [taken]

theorem swept_of_became (hA : Became (sweptSplit p c D) D d w) :
    Swept p c (w.apply d) := by
  have hold : ∀ rid s', (w.apply d).split rid = some s' → ∃ s, D.split rid = some s ∧
      s.expenseId = s'.expenseId ∧ s.userId = s'.userId ∧ ¬ (s.userId = p ∧ D.hasSplit s.expenseId c = true) := by
    intro rid s' hs'
    rw [hA rid] at hs'
    obtain ⟨s, hs, hswept⟩ := Option.bind_eq_some_iff.mp hs'
    unfold sweptSplit at hswept
    split at hswept
    · cases hswept
    · next hnot =>
      cases hswept
      exact ⟨s, hs, by simp, by simp, hnot⟩
  intro rid s' hs' hp
  obtain ⟨s, hs, he, hu, hnot⟩ := hold rid s' hs'
  rw [Bool.eq_false_iff]
  intro hhas
  obtain ⟨rid₁, s₁', hs₁', he₁, hu₁⟩ := hasSplit_iff.mp hhas
  obtain ⟨s₁, hs₁, he₁', hu₁', _⟩ := hold rid₁ s₁' hs₁'
  exact hnot ⟨hu.trans hp, hasSplit_iff.mpr ⟨rid₁, s₁, hs₁, he₁'.trans (he₁.trans he.symm), hu₁'.trans hu₁⟩⟩

theorem became_rename :
    (reidentifySplits p c).Runs (Became (sweptSplit p c D) D) fun _ => Became (claimedSplit p c D) D := by
  refine Txn.runs_bind (B := fun found d w => found = (w.apply d).splitsOfUser p ∧
      Became (sweptSplit p c D) D d w) (Txn.runs_select fun now d w hA => ⟨?_, became_read hA⟩) fun found =>
    Txn.runs_exec fun now d w hA => ⟨(), if_neg ?_, ?_⟩
  · rw [show WriteSet.append w nothing = w from LawfulStore.append_nothing (D := Db) w,
      LawfulStore.tick_zero]
    rfl
  · exact renames_free (swept_of_became hA.2) found
  obtain ⟨rfl, hA⟩ := hA
  refine (became_patch (g := fun s => some (renamedSplit p c s)) hA
    (l := (renameMatches p c ((w.apply d).splitsOfUser p) (w.apply d)).map fun r => (r.1, some (some r.2)))
    Writes.splits_append ?_ ?_).congr ?_
  · intro rid o ho
    obtain ⟨⟨_, s'⟩, hmem, heq⟩ := List.mem_map.mp (Table.mem_of_lastEdit ho)
    obtain ⟨rfl, rfl⟩ := Prod.mk.inj heq
    obtain ⟨_, s, hs, hp, rfl⟩ := mem_renameMatches.mp hmem
    exact ⟨s, hs, by rw [renamedSplit, if_pos hp]⟩
  · intro rid hnone s hs
    -- every split of the placeholder is edited
    have hp : s.userId ≠ p := by
      intro hp
      refine Table.lastEdit_eq_none.mp hnone (List.mem_map.mpr ⟨_, List.mem_map.mpr
        ⟨(rid, { s with userId := c }), mem_renameMatches.mpr ⟨?_, s, hs, hp, rfl⟩, rfl⟩, rfl⟩)
      exact List.mem_map.mpr ⟨(rid, s), mem_splitsOfUser.mpr ⟨hs, hp⟩, rfl⟩
    rw [renamedSplit, if_neg hp]
  · intro s
    rw [claimedSplit]
    cases sweptSplit p c D s <;> rfl

/-- A claim, run alone. -/
theorem became_claim (hD : D.Slots) :
    (claimHistory h p c).Runs (Became some D) fun _ => Became (claimedSplit p c D) D :=
  Txn.runs_bind (runs_became (only_selectFolded (p := fun w => w.expenseSplits = []) rfl) runs_exec_ok)
    fun _ => Txn.runs_bind (runs_became (only_reviseFolded (p := fun w => w.expenseSplits = []) rfl
      (fun _ => rfl) fun _ _ => rfl) runs_reviseFolded) fun _ =>
    Txn.runs_bind (became_fold hD) fun _ => Txn.runs_bind became_sweep fun _ =>
    Txn.runs_bind became_rename fun _ =>
    Txn.runs_bind (runs_became (only_updateMember fun _ => rfl) runs_exec_ok) fun _ =>
    Txn.runs_bind (runs_became (only_softDeleteUser fun _ => rfl) runs_exec_ok) fun _ =>
    Txn.runs_pure fun _ _ hA => hA

end statements

/-! ## Section 4: Amounts after the claim -/

/-- The splits of `D'` are those of `D` after a claim. -/
def TakenOver (p c : Uuid) (D D' : Db) : Prop :=
  ∀ rid, D'.split rid = (D.split rid).bind (claimedSplit p c D)

/-- Where a split comes from that is there after the claim. -/
inductive TakenFrom (p c : Uuid) (D : Db) (s s' : Split) : Prop where
  | claimer (hu : s.userId = c)
      (hs : s' = { s with amountCents := s.amountCents + D.amountOf s.expenseId p })
  | placeholder (hu : s.userId = p) (hno : D.hasSplit s.expenseId c = false) (hs : s' = { s with userId := c })
  | other (hp : s.userId ≠ p) (hc : s.userId ≠ c) (hs : s' = s)

theorem claimedSplit_iff (hpc : p ≠ c) : claimedSplit p c D s = some s' ↔ TakenFrom p c D s s' := by
  unfold claimedSplit sweptSplit
  by_cases hc : s.userId = c
  · have hp : s.userId ≠ p := fun hp => hpc (hp.symm.trans hc)
    rw [if_neg fun h => hp h.1, Option.map_some, renamedSplit, foldedSplit_userId, if_neg hp, foldedSplit,
      if_pos hc]
    constructor
    · intro h
      exact .claimer hc (Option.some.inj h).symm
    · rintro (⟨_, rfl⟩ | ⟨hu, _, _⟩ | ⟨_, hother, _⟩)
      · rfl
      · exact absurd hu hp
      · exact absurd hc hother
  · by_cases hp : s.userId = p
    · cases hhas : D.hasSplit s.expenseId c with
      | true =>
        rw [if_pos ⟨hp, rfl⟩]
        constructor
        · intro h
          cases h
        · rintro (⟨hu, _⟩ | ⟨_, hno, _⟩ | ⟨hother, _, _⟩)
          · exact absurd hu hc
          · rw [hhas] at hno
            cases hno
          · exact absurd hp hother
      | false =>
        rw [if_neg fun h => Bool.false_ne_true h.2, Option.map_some, foldedSplit, if_neg hc, renamedSplit,
          if_pos hp]
        constructor
        · intro h
          exact .placeholder hp hhas (Option.some.inj h).symm
        · rintro (⟨hu, _⟩ | ⟨_, _, rfl⟩ | ⟨hother, _, _⟩)
          · exact absurd hu hc
          · rfl
          · exact absurd hp hother
    · rw [if_neg fun h => hp h.1, Option.map_some, foldedSplit, if_neg hc, renamedSplit, if_neg hp]
      constructor
      · intro h
        exact .other hp hc (Option.some.inj h).symm
      · rintro (⟨hu, _⟩ | ⟨hu, _, _⟩ | ⟨_, _, rfl⟩)
        · exact absurd hu hc
        · exact absurd hu hp
        · rfl

theorem TakenFrom.expenseId (h : TakenFrom p c D s s') : s'.expenseId = s.expenseId := by
  cases h with
  | claimer _ hs => rw [hs]
  | placeholder _ _ hs => rw [hs]
  | other _ _ hs => rw [hs]

theorem TakenFrom.ne (h : TakenFrom p c D s s') (hpc : p ≠ c) : s'.userId ≠ p := by
  cases h with
  | claimer hu hs =>
    rw [hs]
    exact fun hp => hpc (hp.symm.trans hu)
  | placeholder _ _ hs =>
    rw [hs]
    exact hpc.symm
  | other hp _ hs =>
    rw [hs]
    exact hp

theorem TakenOver.split_iff (hA : TakenOver p c D D') (hpc : p ≠ c) :
    D'.split rid = some s' ↔ ∃ s, D.split rid = some s ∧ TakenFrom p c D s s' := by
  rw [hA rid, Option.bind_eq_some_iff]
  simp only [claimedSplit_iff hpc]

/-- One split for each user, as before. -/
theorem TakenOver.slots (hA : TakenOver p c D D') (hD : D.Slots) (hpc : p ≠ c) : D'.Slots := by
  intro rid₁ rid₂ s₁' s₂' hs₁' hs₂' he hu
  obtain ⟨s₁, hs₁, hfrom₁⟩ := (hA.split_iff hpc).mp hs₁'
  obtain ⟨s₂, hs₂, hfrom₂⟩ := (hA.split_iff hpc).mp hs₂'
  have hexp : s₁.expenseId = s₂.expenseId := by rw [← hfrom₁.expenseId, he, hfrom₂.expenseId]
  -- a split is renamed only where the claimer has none
  have hclash : ∀ {rid} {s s₀ : Split}, D.split rid = some s → s.userId = c → s.expenseId = s₀.expenseId →
      D.hasSplit s₀.expenseId c = false → False := by
    intro rid s s₀ hs hc he hno
    have hhas := hasSplit_of_split hs
    rw [hc, he, hno] at hhas
    cases hhas
  refine hD rid₁ rid₂ s₁ s₂ hs₁ hs₂ hexp ?_
  cases hfrom₁ with
  | claimer hu₁ h₁ =>
    cases hfrom₂ with
    | claimer hu₂ h₂ => rw [hu₁, hu₂]
    | placeholder hu₂ hno₂ h₂ => exact (hclash hs₁ hu₁ hexp hno₂).elim
    | other _ hc₂ h₂ =>
      subst h₁ h₂
      exact absurd (hu.symm.trans hu₁) hc₂
  | placeholder hu₁ hno₁ h₁ =>
    cases hfrom₂ with
    | claimer hu₂ h₂ => exact (hclash hs₂ hu₂ hexp.symm hno₁).elim
    | placeholder hu₂ hno₂ h₂ => rw [hu₁, hu₂]
    | other _ hc₂ h₂ =>
      subst h₁ h₂
      exact absurd hu.symm hc₂
  | other _ hc₁ h₁ =>
    cases hfrom₂ with
    | claimer hu₂ h₂ =>
      subst h₁ h₂
      exact absurd (hu.trans hu₂) hc₁
    | placeholder hu₂ hno₂ h₂ =>
      subst h₁ h₂
      exact absurd hu hc₁
    | other _ _ h₂ =>
      subst h₁ h₂
      exact hu

theorem TakenOver.gone (hA : TakenOver p c D D') (hpc : p ≠ c) : D'.hasSplit e p = false := by
  rw [Bool.eq_false_iff]
  intro hhas
  obtain ⟨rid, s', hs', _, hu⟩ := hasSplit_iff.mp hhas
  obtain ⟨s, _, hfrom⟩ := (hA.split_iff hpc).mp hs'
  exact hfrom.ne hpc hu

/-- The splits of everyone else are as they were. -/
theorem TakenOver.split_other (hA : TakenOver p c D D') (hpc : p ≠ c) (hp : s.userId ≠ p) (hc : s.userId ≠ c) :
    D'.split rid = some s ↔ D.split rid = some s := by
  rw [hA.split_iff hpc]
  constructor
  · rintro ⟨s₀, hs₀, hfrom⟩
    cases hfrom with
    | claimer hu h =>
      subst h
      exact absurd hu hc
    | placeholder hu _ h =>
      subst h
      exact absurd rfl hc
    | other _ _ h => exact h ▸ hs₀
  · exact fun hs => ⟨s, hs, .other hp hc rfl⟩

theorem TakenOver.hasSplit_other (hA : TakenOver p c D D') (hpc : p ≠ c) (hp : u ≠ p) (hc : u ≠ c) :
    D'.hasSplit e u = D.hasSplit e u := by
  rw [Bool.eq_iff_iff, hasSplit_iff, hasSplit_iff]
  constructor
  · rintro ⟨rid, s, hs, he, rfl⟩
    exact ⟨rid, s, (hA.split_other hpc hp hc).mp hs, he, rfl⟩
  · rintro ⟨rid, s, hs, he, rfl⟩
    exact ⟨rid, s, (hA.split_other hpc hp hc).mpr hs, he, rfl⟩

theorem TakenOver.amountOf_other (hA : TakenOver p c D D') (hD : D.Slots) (hpc : p ≠ c) (hp : u ≠ p)
    (hc : u ≠ c) : D'.amountOf e u = D.amountOf e u := by
  cases hhas : D.hasSplit e u with
  | false => rw [amountOf_none hhas, amountOf_none ((hA.hasSplit_other hpc hp hc).trans hhas)]
  | true =>
    obtain ⟨rid, s, hs, rfl, rfl⟩ := hasSplit_iff.mp hhas
    rw [amountOf_split hD hs, amountOf_split (hA.slots hD hpc) ((hA.split_other hpc hp hc).mpr hs)]

/-- The claimer has the amounts of both. -/
theorem TakenOver.amountOf_claimer (hA : TakenOver p c D D') (hD : D.Slots) (hpc : p ≠ c) :
    D'.amountOf e c = D.amountOf e c + D.amountOf e p := by
  have hD' := hA.slots hD hpc
  cases hmine : D.hasSplit e c with
  | true =>
    obtain ⟨rid, s, hs, rfl, rfl⟩ := hasSplit_iff.mp hmine
    have hs' := (hA.split_iff hpc).mpr ⟨s, hs, .claimer rfl rfl⟩
    rw [amountOf_split hD hs]
    exact amountOf_split hD' hs'
  | false =>
    rw [amountOf_none hmine, zero_add]
    cases htheirs : D.hasSplit e p with
    | true =>
      obtain ⟨rid, s, hs, rfl, rfl⟩ := hasSplit_iff.mp htheirs
      have hs' := (hA.split_iff hpc).mpr ⟨s, hs, .placeholder rfl hmine rfl⟩
      rw [amountOf_split hD hs]
      exact amountOf_split hD' hs'
    | false =>
      rw [amountOf_none htheirs]
      -- neither has a split
      refine amountOf_none (Bool.eq_false_iff.mpr fun hhas => ?_)
      obtain ⟨rid, s', hs', he, hu⟩ := hasSplit_iff.mp hhas
      obtain ⟨s, hs, hfrom⟩ := (hA.split_iff hpc).mp hs'
      have hhas := hasSplit_of_split hs
      rw [← hfrom.expenseId, he] at hhas
      cases hfrom with
      | claimer hc _ =>
        rw [hc, hmine] at hhas
        cases hhas
      | placeholder hp _ _ =>
        rw [hp, htheirs] at hhas
        cases hhas
      | other _ hc h =>
        subst h
        exact hc hu

/-- An expense with splits still has some. -/
theorem TakenOver.splitsOf_eq_nil (hA : TakenOver p c D D') (hpc : p ≠ c) :
    D'.splitsOf e = [] ↔ D.splitsOf e = [] := by
  rw [List.eq_nil_iff_forall_not_mem, List.eq_nil_iff_forall_not_mem]
  constructor
  · rintro hnone ⟨rid, s⟩ hmem
    obtain ⟨hs, he⟩ := Db.mem_splitsOf.mp hmem
    have hlive : ∀ {rid s s'}, D.split rid = some s → s.expenseId = e → TakenFrom p c D s s' → False := by
      intro rid s s' hs he hfrom
      exact hnone (rid, s') (Db.mem_splitsOf.mpr ⟨(hA.split_iff hpc).mpr ⟨s, hs, hfrom⟩,
        hfrom.expenseId.trans he⟩)
    by_cases hc : s.userId = c
    · exact hlive hs he (.claimer hc rfl)
    by_cases hp : s.userId = p
    · cases hhas : D.hasSplit s.expenseId c with
      | false => exact hlive hs he (.placeholder hp hhas rfl)
      | true =>
        obtain ⟨rid₁, s₁, hs₁, he₁, hc₁⟩ := hasSplit_iff.mp hhas
        exact hlive hs₁ (he₁.trans he) (.claimer hc₁ rfl)
    · exact hlive hs he (.other hp hc rfl)
  · rintro hnone ⟨rid, s'⟩ hmem
    obtain ⟨hs', he⟩ := Db.mem_splitsOf.mp hmem
    obtain ⟨s, hs, hfrom⟩ := (hA.split_iff hpc).mp hs'
    exact hnone (rid, s) (Db.mem_splitsOf.mpr ⟨hs, hfrom.expenseId.symm.trans he⟩)

/-- To the balances the share of the placeholder is booked for the claimer. -/
theorem TakenOver.movesShare (hA : TakenOver p c D D') (hD : D.Slots) (hpc : p ≠ c) (paidBy : JsString)
    (e : Uuid) : MovesShare p c ⟨paidBy, D.shares e⟩ ⟨paidBy, D'.shares e⟩ := by
  have hD' := hA.slots hD hpc
  refine ⟨rfl, ?_, ?_, ?_⟩
  · have hno : p ∉ D'.splitUsers e := by
      rw [mem_splitUsers, hA.gone hpc]
      exact Bool.false_ne_true
    exact AList.lookup_eq_none.mp (lookup_shares_none hD' hno)
  · rw [shareOf_shares hD', shareOf_shares hD, shareOf_shares hD, hA.amountOf_claimer hD hpc]
  · intro u hp hc
    have hsame : u ∈ D'.splitUsers e ↔ u ∈ D.splitUsers e := by
      rw [mem_splitUsers, mem_splitUsers, hA.hasSplit_other hpc hp hc]
    by_cases hu : u ∈ D.splitUsers e
    · have h : (D'.shares e).lookup u = (D.shares e).lookup u := by
        rw [lookup_shares hD hu, lookup_shares hD' (hsame.mpr hu), hA.amountOf_other hD hpc hp hc]
      exact h
    · have h : (D'.shares e).lookup u = (D.shares e).lookup u := by
        rw [lookup_shares_none hD hu, lookup_shares_none hD' (mt hsame.mp hu)]
      exact h

/-- Every expense keeps the sum of its splits. -/
theorem TakenOver.splitSum (hA : TakenOver p c D D') (hD : D.Slots) (hpc : p ≠ c) (e : Uuid) :
    D'.splitSum e = D.splitSum e := by
  rw [← total_shares hD, ← total_shares (hA.slots hD hpc)]
  exact (hA.movesShare hD hpc [] e).total hpc

/-! ## Section 5: The result -/

/-- Two loops over the same rows that pass the same ones. -/
theorem forall₂_filterMap {α β : Type} {R : β → β → Prop} {f g : α → Option β} {l : List α}
    (h : ∀ a ∈ l, (f a = none ∧ g a = none) ∨ ∃ x y, f a = some x ∧ g a = some y ∧ R x y) :
    List.Forall₂ R (l.filterMap f) (l.filterMap g) := by
  induction l with
  | nil => exact .nil
  | cons a l ih =>
    have ih := ih fun b hb => h b (List.mem_cons_of_mem _ hb)
    rcases h a (List.mem_cons_self ..) with ⟨hf, hg⟩ | ⟨x, y, hf, hg, hxy⟩
    · rw [List.filterMap_cons_none hf, List.filterMap_cons_none hg]
      exact ih
    · rw [List.filterMap_cons_some hf, List.filterMap_cons_some hg]
      exact .cons hxy ih

theorem TakenOver.expenseRows (hA : TakenOver p c D D') (hD : D.Slots) (hpc : p ≠ c)
    (hsame : D'.expenses = D.expenses) (h : Uuid) :
    List.Forall₂ (MovesShare p c) (expenseRows D h) (expenseRows D' h) := by
  unfold Homi.expenseRows
  rw [hsame]
  refine forall₂_filterMap ?_
  rintro ⟨e, r⟩ _
  by_cases hshown : r.houseId = h ∧ r.deletedAt = none ∧ D.splitsOf e ≠ []
  · refine Or.inr ⟨_, _, if_pos hshown, if_pos ⟨hshown.1, hshown.2.1, ?_⟩, hA.movesShare hD hpc r.paidBy e⟩
    exact fun hnil => hshown.2.2 ((hA.splitsOf_eq_nil hpc).mp hnil)
  · refine Or.inl ⟨if_neg hshown, if_neg fun h' => hshown ⟨h'.1, h'.2.1, ?_⟩⟩
    exact fun hnil => h'.2.2 ((hA.splitsOf_eq_nil hpc).mpr hnil)

/-- What the schema promises of the rows of a house: one split for each
    expense and user, and ids without a `'|'`. -/
structure HouseLedger (D : Db) (h : Uuid) : Prop where
  slots : D.Slots
  ids : CleanIds (expenseRows D h) (paymentRows D h)

/-- A claim is no money edit.

    * `balances`: the balances of the house are those from before, with the
      claimer in the placeholder's place.
    * `expenses`, `totals`: every expense is as it was, and the sum of its
      splits too. -/
structure Reidentifies (h p c : Uuid) (D D' : Db) : Prop where
  balances : Renames p c (computeBalances (expenseRows D h) (paymentRows D h))
    (computeBalances (expenseRows D' h) (paymentRows D' h))
  expenses : D'.expenses = D.expenses
  totals : ∀ e, D'.splitSum e = D.splitSum e

theorem claim_reidentifies (h p c : Uuid) (d : Db) (w : Writes) (now : ℕ)
    (hledger : HouseLedger (w.apply d) h) (hpc : p ≠ c) (hc : bar ∉ c)
    (hp : OnlyShares (expenseRows (w.apply d) h) (paymentRows (w.apply d) h) p) :
    ∃ events d' w', (claimHistory h p c).alone now d w = (.ok events, d', w') ∧
      Reidentifies h p c (w.apply d) (w'.apply d') := by
  have hkeeps := Txn.Runs.keeps (p := fun w : Writes => w.expenses = [] ∧ w.payments = [])
    (I := fun d' w' => (Writes.apply w' d').expenses = (w.apply d).expenses ∧
      (Writes.apply w' d').payments = (w.apply d).payments)
    ?_ (only_claimHistory ⟨rfl, rfl⟩ (fun _ => ⟨rfl, rfl⟩) (fun _ => ⟨rfl, rfl⟩) (fun _ _ => ⟨rfl, rfl⟩)
      (fun _ => ⟨rfl, rfl⟩) fun _ => ⟨rfl, rfl⟩) (became_claim (h := h) (p := p) (c := c) hledger.slots)
  · obtain ⟨events, d', w', hres, hbecame, hexpenses, hpayments⟩ := hkeeps now d w
      ⟨fun rid => (Option.bind_fun_some _).symm, rfl, rfl⟩
    have hA : TakenOver p c (w.apply d) (w'.apply d') := hbecame
    have hrows : paymentRows (w'.apply d') h = paymentRows (w.apply d) h := by
      unfold paymentRows
      rw [hpayments]
    refine ⟨events, d', w', hres, ?_, hexpenses, hA.splitSum hledger.slots hpc⟩
    rw [hrows]
    exact renames_of_moves (hA.expenseRows hledger.slots hpc hexpenses h) hpc hp hledger.ids hc
  · -- the claim writes neither expenses nor payments
    intro d₁ w₁ n w₂ hI hw
    have hpatch : (Writes.apply (WriteSet.append w₁ w₂) (tick n d₁)).expenses =
        (w₁.apply d₁).expenses.patch w₂.expenses := Table.patch_append _ _ _
    have hpatch' : (Writes.apply (WriteSet.append w₁ w₂) (tick n d₁)).payments =
        (w₁.apply d₁).payments.patch w₂.payments := Table.patch_append _ _ _
    rw [hpatch, hpatch', hw.1, hw.2]
    exact hI

/-- The key of the splits, row by row. -/
theorem slots_of_rows (h : (D.splitRows.map fun r => (r.2.expenseId, r.2.userId)).Nodup) : D.Slots := by
  intro rid rid' s s' hs hs' he hu
  have hinj := List.inj_on_of_nodup_map h (Db.mem_splitRows.mpr hs) (Db.mem_splitRows.mpr hs')
    (Prod.ext he hu)
  exact congrArg Prod.fst hinj

/-- Ann paid a dinner that Bo and the guest Sam shared, Bo a taxi for Sam
    and himself. -/
def weekend : Db :=
  let bill (description payer : JsString) : Expense :=
    { houseId := js "cottage", description := description, amountCents := 1000, currency := js "EUR",
      paidBy := payer, category := none, isStaple := false, templateId := none, period := none,
      createdBy := payer, createdAt := 0, deletedAt := none }
  { Db.empty with
    expenses := Table.patch ∅ [(js "e1", some (bill (js "dinner") (js "ann"))),
      (js "e2", some (bill (js "taxi") (js "bo")))]
    expenseSplits := Table.patch ∅ [(0, some (some ⟨js "e1", js "ann", 400⟩)),
      (1, some (some ⟨js "e1", js "bo", 300⟩)), (2, some (some ⟨js "e1", js "sam", 300⟩)),
      (3, some (some ⟨js "e2", js "bo", 500⟩)), (4, some (some ⟨js "e2", js "sam", 500⟩))] }

/-- Bo turns out to be Sam. He is up 200 himself and takes over the 800 of Sam. -/
theorem claim_reidentifies_weekend : ∃ events d' w',
    (claimHistory (js "cottage") (js "sam") (js "bo")).alone 0 weekend {} = (.ok events, d', w') ∧
      (computeBalances (expenseRows (w'.apply d') (js "cottage"))
        (paymentRows (w'.apply d') (js "cottage"))).netFor (js "bo") = -600 := by
  have hpayments : ∀ x ∈ paymentRows (Writes.apply {} weekend) (js "cottage"),
      x.fromUser ≠ js "sam" ∧ x.toUser ≠ js "sam" := fun x hx => by cases hx
  obtain ⟨events, d', w', hres, hafter⟩ := claim_reidentifies (js "cottage") (js "sam") (js "bo") weekend {} 0
    ⟨slots_of_rows (by decide +kernel), by decide +kernel, by decide +kernel, by decide +kernel, by decide +kernel⟩
    (by decide) (by decide) ⟨by decide +kernel, hpayments⟩
  refine ⟨events, d', w', hres, ?_⟩
  rw [hafter.balances.claimer]
  decide +kernel

end Homi
