import Homi.Framework.Table

/-! # Rows with an owner

  Tables whose rows belong to somebody. Edits that stay with the rows of
  one owner leave the rows of all others as they are, and lists of edits
  that follow one another can be judged one by one.
-/

namespace Table

variable {K V O : Type} [DecidableEq K] {owner : V → O} {o o' : O} {T T' T'' : Table K V}
  {es fs : Edits K V}

/-! ## Section 1: Owners that stay -/

/-- A row that is there stays, with its owner. -/
def OwnerStep (owner : V → O) (old new : Option V) : Prop :=
  ∀ v, old = some v → ∃ v', new = some v' ∧ owner v' = owner v

theorem OwnerStep.refl (old : Option V) : OwnerStep owner old old := fun v h => ⟨v, h, rfl⟩

theorem OwnerStep.trans {a b c : Option V} (h : OwnerStep owner a b) (h' : OwnerStep owner b c) :
    OwnerStep owner a c := by
  intro v hv
  obtain ⟨v', hv', heq⟩ := h v hv
  obtain ⟨v'', hv'', heq'⟩ := h' v' hv'
  exact ⟨v'', hv'', heq'.trans heq⟩

/-- All rows stay, with their owners. -/
def KeepsOwners (owner : V → O) (T T' : Table K V) : Prop :=
  ∀ k, OwnerStep owner (T.lookup k) (T'.lookup k)

theorem KeepsOwners.refl (T : Table K V) : KeepsOwners owner T T := fun _ => .refl _

theorem KeepsOwners.trans (h : KeepsOwners owner T T') (h' : KeepsOwners owner T' T'') :
    KeepsOwners owner T T'' := fun k => (h k).trans (h' k)

/-- The same edits on top of both. -/
theorem KeepsOwners.patch (h : KeepsOwners owner T T') (es : Edits K V) :
    KeepsOwners owner (T.patch es) (T'.patch es) := by
  intro k
  rw [lookup_patch, lookup_patch]
  cases lastEdit es k with
  | none => exact h k
  | some e => exact .refl _

/-! ## Section 2: The edits of one owner -/

/-- The edits write rows of `o`, over rows of `o`. -/
def OnlyOf (owner : V → O) (o : O) (T : Table K V) (es : Edits K V) : Prop :=
  ∀ k e, (k, e) ∈ es → (∀ v, T.lookup k = some v → owner v = o) ∧ ∀ v, e = some v → owner v = o

theorem onlyOf_nil : OnlyOf owner o T [] := fun _ _ h => by cases h

theorem OnlyOf.append (h : OnlyOf owner o T es) (h' : OnlyOf owner o (T.patch es) fs) :
    OnlyOf owner o T (es ++ fs) := by
  intro k e hmem
  rcases List.mem_append.mp hmem with hmem | hmem
  · exact h k e hmem
  · refine ⟨?_, (h' k e hmem).2⟩
    intro v hv
    by_cases hk : k ∈ es.map Prod.fst
    · obtain ⟨⟨_, e₀⟩, hmem₀, rfl⟩ := List.mem_map.mp hk
      exact (h _ e₀ hmem₀).1 v hv
    · apply (h' k e hmem).1 v
      rw [lookup_patch_of_notMem hk]
      exact hv

theorem OnlyOf.congr (h : OnlyOf owner o T es)
    (heq : ∀ k ∈ es.map Prod.fst, T'.lookup k = T.lookup k) : OnlyOf owner o T' es := by
  intro k e hmem
  rw [heq k (List.mem_map.mpr ⟨(k, e), hmem, rfl⟩)]
  exact h k e hmem

/-- The owner of a row that may have been edited. -/
theorem OnlyOf.owner_eq (h : OnlyOf owner o T es) {k : K} {v v' : V} (hv : T.lookup k = some v)
    (hv' : (T.patch es).lookup k = some v') (heq : owner v' = o) : owner v = o := by
  by_cases hk : k ∈ es.map Prod.fst
  · obtain ⟨⟨_, e⟩, hmem, rfl⟩ := List.mem_map.mp hk
    exact (h _ e hmem).1 v hv
  · rw [lookup_patch_of_notMem hk, hv] at hv'
    cases hv'
    exact heq

/-- The rows of `o` are the same in both. -/
def SameOf (owner : V → O) (o : O) (T T' : Table K V) : Prop :=
  ∀ k v, owner v = o → (T'.lookup k = some v ↔ T.lookup k = some v)

theorem SameOf.refl (T : Table K V) : SameOf owner o T T := fun _ _ _ => Iff.rfl

/-- The rows of all others stay as they are. -/
theorem OnlyOf.others (h : OnlyOf owner o T es) (ho : o' ≠ o) : SameOf owner o' T (T.patch es) := by
  intro k v hv
  rw [lookup_patch]
  cases hedit : lastEdit es k with
  | none => exact Iff.rfl
  | some e =>
    obtain ⟨hold, hnew⟩ := h k e (mem_of_lastEdit hedit)
    constructor
    · intro heq
      exact absurd (hv.symm.trans (hnew v heq)) ho
    · intro heq
      exact absurd (hv.symm.trans (hold v heq)) ho

/-- A `SELECT` of the rows of `o` finds the same. -/
theorem SameOf.rows [DecidableEq O] (h : SameOf owner o T T') :
    (T'.rows.filter fun r => owner r.2 = o).Perm (T.rows.filter fun r => owner r.2 = o) := by
  have hnodup : ∀ T : Table K V, T.rows.Nodup := fun T => T.nodup_keys_rows.of_map
  refine (List.perm_ext_iff_of_nodup ((hnodup T').filter _) ((hnodup T).filter _)).mpr fun r => ?_
  rw [List.mem_filter, List.mem_filter, mem_rows, mem_rows]
  constructor
  · intro hr
    exact ⟨(h r.1 r.2 (of_decide_eq_true hr.2)).mp hr.1, hr.2⟩
  · intro hr
    exact ⟨(h r.1 r.2 (of_decide_eq_true hr.2)).mpr hr.1, hr.2⟩

theorem SameOf.any (h : SameOf owner o T T') [DecidableEq O] (k : K) :
    (T'.lookup k).any (fun v => owner v = o) = (T.lookup k).any fun v => owner v = o := by
  rw [Bool.eq_iff_iff, Option.any_eq_true, Option.any_eq_true]
  constructor <;> rintro ⟨v, hv, hown⟩
  · exact ⟨v, (h k v (of_decide_eq_true hown)).mp hv, hown⟩
  · exact ⟨v, (h k v (of_decide_eq_true hown)).mpr hv, hown⟩

end Table
