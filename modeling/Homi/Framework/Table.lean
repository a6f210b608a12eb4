import Mathlib.Data.List.AList
import Mathlib.Algebra.BigOperators.Group.Finset.Basic
import Mathlib.Algebra.Ring.Int.Defs
import Mathlib.Tactic.Abel

/-! # Keyed tables

  A table maps each key to at most one row. It is Mathlib's `AList`, so
  that "one row per key" is a field of the type and not an invariant.

  * `Table.rows`: what a `SELECT` without a `WHERE` returns.
  * `Table.patch`: a list of edits, later ones winning. The private write
    set of a transaction is such a list.
  * `Table.total`: an aggregate over all rows, with the lemma that moves
    it to a `Finset` sum over any superset of the keys.
-/

/-- A table with keys `K` and rows `V`. -/
abbrev Table (K V : Type) : Type := AList (fun _ : K => V)

/-- One edit: the new row of a key, or `none` where the row is removed. -/
abbrev Edits (K V : Type) : Type := List (K × Option V)

namespace Table

variable {K V : Type} [DecidableEq K]

/-! ## Section 1: Rows -/

/-- All rows with their keys. -/
def rows (T : Table K V) : List (K × V) := T.entries.map fun e => (e.1, e.2)

@[simp] theorem mem_rows {T : Table K V} {k : K} {v : V} :
    (k, v) ∈ T.rows ↔ T.lookup k = some v := by
  rw [← Option.mem_def, AList.mem_lookup_iff]
  constructor
  · intro h
    obtain ⟨⟨k', v'⟩, he, heq⟩ := List.mem_map.mp h
    obtain ⟨rfl, rfl⟩ := Prod.mk.inj heq
    exact he
  · intro h
    exact List.mem_map.mpr ⟨⟨k, v⟩, h, rfl⟩

omit [DecidableEq K] in
theorem nodup_keys_rows (T : Table K V) : (T.rows.map Prod.fst).Nodup := by
  have h : T.rows.map Prod.fst = T.keys := by
    simp [rows, AList.keys, List.keys, Function.comp_def]
  rw [h]
  exact T.keys_nodup

omit [DecidableEq K] in
@[simp] theorem rows_empty : (∅ : Table K V).rows = [] := rfl

/-! ## Section 2: Edits -/

/-- Apply one edit. -/
def edit (T : Table K V) : K × Option V → Table K V
  | (k, some v) => T.insert k v
  | (k, none) => T.erase k

/-- Apply a list of edits, the first one first. -/
def patch (T : Table K V) (es : Edits K V) : Table K V := es.foldl edit T

/-- The edit of `k` that wins, when there is one. -/
def lastEdit : Edits K V → K → Option (Option V)
  | [], _ => none
  | e :: es, k => (lastEdit es k).or (if e.1 = k then some e.2 else none)

@[simp] theorem lastEdit_nil (k : K) : lastEdit ([] : Edits K V) k = none := rfl

theorem lastEdit_append (es fs : Edits K V) (k : K) :
    lastEdit (es ++ fs) k = (lastEdit fs k).or (lastEdit es k) := by
  induction es with
  | nil => simp
  | cons e es ih => simp [lastEdit, ih, Option.or_assoc]

theorem lastEdit_eq_none {es : Edits K V} {k : K} :
    lastEdit es k = none ↔ k ∉ es.map Prod.fst := by
  induction es with
  | nil => simp
  | cons e es ih =>
    simp only [lastEdit, Option.or_eq_none_iff, ih, List.map_cons, List.mem_cons, not_or]
    by_cases h : e.1 = k
    · simp [h]
    · simp [h, Ne.symm h]

theorem mem_of_lastEdit {es : Edits K V} {k : K} {o : Option V}
    (h : lastEdit es k = some o) : (k, o) ∈ es := by
  induction es with
  | nil => simp at h
  | cons e es ih =>
    simp only [lastEdit, Option.or_eq_some_iff] at h
    rcases h with h | ⟨_, h⟩
    · exact List.mem_cons_of_mem _ (ih h)
    · split at h
      · next hk => cases h; rw [← hk]; exact List.mem_cons_self ..
      · cases h

/-- An edit that no later edit of the same key overwrites wins. -/
theorem lastEdit_of_mem {es : Edits K V} (hnd : (es.map Prod.fst).Nodup) {k : K}
    {o : Option V} (h : (k, o) ∈ es) : lastEdit es k = some o := by
  induction es with
  | nil => cases h
  | cons e es ih =>
    obtain ⟨hn, hnd'⟩ := List.nodup_cons.mp hnd
    rcases List.mem_cons.mp h with rfl | h
    · have hnone : lastEdit es k = none := lastEdit_eq_none.mpr hn
      simp [lastEdit, hnone]
    · simp [lastEdit, ih hnd' h]

@[simp] theorem patch_nil (T : Table K V) : T.patch [] = T := rfl

theorem patch_append (T : Table K V) (es fs : Edits K V) :
    T.patch (es ++ fs) = (T.patch es).patch fs := by
  simp [patch, List.foldl_append]

theorem lookup_edit (T : Table K V) (e : K × Option V) (k : K) :
    (T.edit e).lookup k = if e.1 = k then e.2 else T.lookup k := by
  obtain ⟨k', o⟩ := e
  cases o with
  | none =>
    by_cases h : k' = k
    · subst h; simp [edit]
    · simp [edit, h, AList.lookup_erase_ne (Ne.symm h)]
  | some v =>
    by_cases h : k' = k
    · subst h; simp [edit]
    · simp [edit, h, AList.lookup_insert_ne (Ne.symm h)]

/-- Reading after a patch: the winning edit, else the old row. -/
theorem lookup_patch (T : Table K V) (es : Edits K V) (k : K) :
    (T.patch es).lookup k = (lastEdit es k).getD (T.lookup k) := by
  induction es generalizing T with
  | nil => rfl
  | cons e es ih =>
    have hstep : T.patch (e :: es) = (T.edit e).patch es := rfl
    rw [hstep, ih, lookup_edit, lastEdit]
    cases lastEdit es k with
    | some o => rfl
    | none => by_cases h : e.1 = k <;> simp [h]

theorem lookup_patch_of_notMem {T : Table K V} {es : Edits K V} {k : K}
    (h : k ∉ es.map Prod.fst) : (T.patch es).lookup k = T.lookup k := by
  rw [lookup_patch, lastEdit_eq_none.mpr h]; rfl

@[simp] theorem lookup_patch_singleton (T : Table K V) (k k' : K) (o : Option V) :
    (T.patch [(k, o)]).lookup k' = if k = k' then o else T.lookup k' :=
  lookup_edit T (k, o) k'

/-- Every edit is a step of `R` from the row it replaces. -/
def Respects (R : Option V → Option V → Prop) (T : Table K V) (es : Edits K V) : Prop :=
  ∀ k o, (k, o) ∈ es → R (T.lookup k) o

theorem respects_nil (R : Option V → Option V → Prop) (T : Table K V) : T.Respects R [] := by
  intro k o h
  cases h

/-- Edits that respect a reflexive `R` take each row to a row by `R`. -/
theorem Respects.patch {R : Option V → Option V → Prop} (hrefl : ∀ o, R o o) {T : Table K V}
    {es : Edits K V} (h : T.Respects R es) (k : K) : R (T.lookup k) ((T.patch es).lookup k) := by
  rw [lookup_patch]
  cases hk : lastEdit es k with
  | none => exact hrefl _
  | some o => exact h k o (mem_of_lastEdit hk)

/-- More edits, each a step from the row as the first ones left it. -/
theorem Respects.append {R : Option V → Option V → Prop} (hrefl : ∀ o, R o o)
    (htrans : ∀ a b c, R a b → R b c → R a c) {T : Table K V} {es fs : Edits K V}
    (h : T.Respects R es) (h' : (T.patch es).Respects R fs) : T.Respects R (es ++ fs) := by
  intro k o hmem
  rcases List.mem_append.mp hmem with hmem | hmem
  · exact h k o hmem
  · exact htrans _ _ _ (h.patch hrefl k) (h' k o hmem)

/-- Edits respect `R` from another table that has the same rows under their keys. -/
theorem Respects.congr {R : Option V → Option V → Prop} {T T' : Table K V} {es : Edits K V}
    (h : T.Respects R es) (heq : ∀ k ∈ es.map Prod.fst, T'.lookup k = T.lookup k) :
    T'.Respects R es := by
  intro k o hmem
  rw [heq k (List.mem_map.mpr ⟨(k, o), hmem, rfl⟩)]
  exact h k o hmem

/-- The edits that insert a row, or none. -/
def newRows (o : Option (K × V)) : Edits K V := (o.map fun r => (r.1, some r.2)).toList

/-- Reading after the insert of a row under a free key. -/
theorem lookup_patch_newRows {T : Table K V} {o : Option (K × V)}
    (hfree : ∀ k v, o = some (k, v) → T.lookup k = none) {k : K} {v : V} :
    (T.patch (newRows o)).lookup k = some v ↔ T.lookup k = some v ∨ o = some (k, v) := by
  cases o with
  | none => simp [newRows]
  | some r =>
    obtain ⟨k', v'⟩ := r
    show (T.patch [(k', some v')]).lookup k = some v ↔ _
    rw [lookup_patch_singleton]
    by_cases h : k' = k
    · subst h
      simp [hfree k' v' rfl, eq_comm]
    · simp [h]

/-! ## Section 3: Totals -/

/-- The finite set of keys of a table. -/
def keySet (T : Table K V) : Finset K := T.keys.toFinset

theorem mem_keySet {T : Table K V} {k : K} {v : V} (h : T.lookup k = some v) :
    k ∈ T.keySet := by
  rw [keySet, List.mem_toFinset]
  exact AList.mem_keys.mp (AList.lookup_isSome.mp (by simp [h]))

/-- Sum of `f` over all rows. -/
def total (T : Table K V) (f : K → V → ℤ) : ℤ := (T.rows.map fun r => f r.1 r.2).sum

/-- What the key `k` adds to `total`. -/
def share (T : Table K V) (f : K → V → ℤ) (k : K) : ℤ := (T.lookup k).elim 0 (f k)

/-- A total is a sum over any finite set that has all the keys. -/
theorem total_eq_sum (T : Table K V) (f : K → V → ℤ) {s : Finset K}
    (hs : ∀ k v, T.lookup k = some v → k ∈ s) : T.total f = ∑ k ∈ s, T.share f k := by
  have hrow : ∀ r ∈ T.rows, f r.1 r.2 = T.share f r.1 := by
    intro r hr
    have hk : T.lookup r.1 = some r.2 := mem_rows.mp hr
    simp [share, hk]
  have hlist : T.total f = ((T.rows.map Prod.fst).map (T.share f)).sum := by
    rw [total, List.map_map]
    exact congrArg List.sum (List.map_congr_left hrow)
  rw [hlist, ← List.sum_toFinset _ T.nodup_keys_rows]
  refine Finset.sum_subset ?_ ?_
  · intro k hk
    obtain ⟨⟨k', v⟩, hr, rfl⟩ := List.mem_map.mp (List.mem_toFinset.mp hk)
    exact hs k' v (mem_rows.mp hr)
  · intro k _ hk
    have hnone : T.lookup k = none := by
      rw [Option.eq_none_iff_forall_ne_some]
      intro v hv
      exact hk (List.mem_toFinset.mpr (List.mem_map.mpr ⟨(k, v), mem_rows.mpr hv, rfl⟩))
    simp [share, hnone]

theorem total_insert (T : Table K V) (f : K → V → ℤ) (k : K) (v : V) :
    Table.total (T.insert k v) f = T.total f - T.share f k + f k v := by
  have hold : ∀ k' v', T.lookup k' = some v' → k' ∈ insert k T.keySet :=
    fun k' v' h => Finset.mem_insert_of_mem (mem_keySet h)
  have hnew : ∀ k' v', (T.insert k v).lookup k' = some v' → k' ∈ insert k T.keySet := by
    intro k' v' h
    by_cases hk : k' = k
    · exact Finset.mem_insert.mpr (Or.inl hk)
    · rw [AList.lookup_insert_ne hk] at h
      exact hold k' v' h
  rw [total_eq_sum _ f hold, total_eq_sum _ f hnew,
    ← Finset.add_sum_erase _ _ (Finset.mem_insert_self k _),
    ← Finset.add_sum_erase _ (fun k => T.share f k) (Finset.mem_insert_self k _)]
  have hrest : ∑ k' ∈ (insert k T.keySet).erase k, Table.share (T.insert k v) f k' =
      ∑ k' ∈ (insert k T.keySet).erase k, T.share f k' := by
    refine Finset.sum_congr rfl ?_
    intro k' hk'
    simp [share, AList.lookup_insert_ne (Finset.ne_of_mem_erase hk')]
  have hk : Table.share (T.insert k v) f k = f k v := by simp [share]
  rw [hrest, hk]
  omega

/-- A total over the rows that meet `P`, from any list of them. -/
theorem total_filter {T : Table K V} {P : V → Prop} [DecidablePred P] (f : V → ℤ)
    {l : List (K × V)} (hnd : (l.map Prod.fst).Nodup)
    (h : ∀ k v, (k, v) ∈ l ↔ T.lookup k = some v ∧ P v) :
    (T.total fun _ v => if P v then f v else 0) = (l.map fun r => f r.2).sum := by
  have hsum : ∀ rows : List (K × V), (rows.map fun r => if P r.2 then f r.2 else 0).sum =
      ((rows.filter fun r => decide (P r.2)).map fun r => f r.2).sum := by
    intro rows
    induction rows with
    | nil => rfl
    | cons r rows ih => by_cases hr : P r.2 <;> simp [hr, ih]
  have hperm : (T.rows.filter fun r => decide (P r.2)).Perm l := by
    refine (List.perm_ext_iff_of_nodup (T.nodup_keys_rows.of_map.filter _) hnd.of_map).mpr ?_
    rintro ⟨k, v⟩
    rw [List.mem_filter, mem_rows, h k v, decide_eq_true_eq]
  rw [total, hsum, (hperm.map _).sum_eq]

/-- A total that only looks at one key. -/
theorem total_single (T : Table K V) (f : V → ℤ) (k : K) :
    (T.total fun k' v => if k' = k then f v else 0) = (T.lookup k).elim 0 f := by
  have hkeys : ∀ k' v, T.lookup k' = some v → k' ∈ insert k T.keySet :=
    fun k' v h => Finset.mem_insert_of_mem (mem_keySet h)
  rw [total_eq_sum _ _ hkeys, Finset.sum_eq_single k]
  · cases h : T.lookup k <;> simp [share, h]
  · intro k' _ hk'
    cases h : T.lookup k' <;> simp [share, h, hk']
  · intro hk
    exact absurd (Finset.mem_insert_self k _) hk

/-! ## Section 4: Tables of given keys -/

/-- A loop that enters a row for each listed key. -/
theorem lookup_foldl_insert (keys : List K) (f : K → V) (T : Table K V) (k : K) :
    (keys.foldl (fun T k => T.insert k (f k)) T).lookup k =
      if k ∈ keys then some (f k) else T.lookup k := by
  induction keys generalizing T with
  | nil => simp
  | cons first keys ih =>
    rw [List.foldl_cons, ih]
    by_cases hk : k ∈ keys
    · simp [hk]
    · by_cases hfirst : k = first
      · subst hfirst
        simp [hk]
      · simp [hk, hfirst, AList.lookup_insert_ne hfirst]

/-- A total over known rows. -/
theorem total_of_lookup {keys : List K} (hnd : keys.Nodup) {T : Table K V} {v : K → V}
    (h : ∀ k, T.lookup k = if k ∈ keys then some (v k) else none) (f : K → V → ℤ) :
    T.total f = (keys.map fun k => f k (v k)).sum := by
  have hkeys : ∀ k v, T.lookup k = some v → k ∈ keys.toFinset := by
    intro k v hv
    rw [h] at hv
    by_contra hk
    rw [List.mem_toFinset] at hk
    simp [hk] at hv
  rw [total_eq_sum T f hkeys, ← List.sum_toFinset _ hnd]
  refine Finset.sum_congr rfl ?_
  intro k hk
  simp [share, h, List.mem_toFinset.mp hk]

/-! ## Section 5: Rows taken away -/

/-- A loop that erases the listed rows with `P`. -/
theorem lookup_foldl_erase (rows : List (K × V)) (P : V → Bool) (T : Table K V) (k : K) :
    (rows.foldl (fun T r => if P r.2 then T.erase r.1 else T) T).lookup k =
      if rows.any fun r => decide (r.1 = k) && P r.2 then none else T.lookup k := by
  induction rows generalizing T with
  | nil => simp
  | cons first rows ih =>
    obtain ⟨k₀, v₀⟩ := first
    rw [List.foldl_cons, ih, List.any_cons]
    by_cases hP : P v₀
    · by_cases hk : k₀ = k
      · subst hk
        simp [hP]
      · have hfirst : (decide (k₀ = k) && P v₀) = false := by simp [hk]
        rw [hfirst, Bool.false_or, if_pos hP, AList.lookup_erase_ne (Ne.symm hk)]
    · have hfirst : (decide (k₀ = k) && P v₀) = false := by simp [hP]
      rw [hfirst, Bool.false_or, if_neg hP]

/-- A loop over a table's own rows. -/
theorem lookup_foldl_erase_rows (P : V → Bool) (T : Table K V) (k : K) :
    (T.rows.foldl (fun T r => if P r.2 then T.erase r.1 else T) T).lookup k =
      (T.lookup k).filter fun v => !P v := by
  have hrow : (T.rows.any fun r => decide (r.1 = k) && P r.2) = (T.lookup k).any P := by
    rw [Bool.eq_iff_iff, List.any_eq_true, Option.any_eq_true]
    constructor
    · rintro ⟨⟨k', v⟩, hv, hboth⟩
      simp only [Bool.and_eq_true, decide_eq_true_eq] at hboth
      obtain ⟨rfl, hP⟩ := hboth
      exact ⟨v, mem_rows.mp hv, hP⟩
    · rintro ⟨v, hv, hP⟩
      exact ⟨(k, v), mem_rows.mpr hv, by simpa using hP⟩
  rw [lookup_foldl_erase, hrow]
  cases T.lookup k with
  | none => simp
  | some v =>
    rw [Option.filter_some, Option.any_some]
    cases P v <;> rfl

/-! ## Section 6: Sums in a group -/

section sums

variable {M : Type} [AddCommGroup M]

def sumRows (T : Table K V) (f : K → V → M) : M := (T.rows.map fun r => f r.1 r.2).sum

/-- What the row `k`, if there is one, adds. -/
def part (T : Table K V) (f : K → V → M) (k : K) : M := (T.lookup k).elim 0 (f k)

theorem sumRows_eq (T : Table K V) (f : K → V → M) {s : Finset K}
    (hs : ∀ k v, T.lookup k = some v → k ∈ s) : T.sumRows f = ∑ k ∈ s, T.part f k := by
  have hlist : T.sumRows f = ((T.rows.map Prod.fst).map (T.part f)).sum := by
    rw [sumRows, List.map_map]
    refine congrArg List.sum (List.map_congr_left fun r hr => ?_)
    have hk : T.lookup r.1 = some r.2 := mem_rows.mp hr
    simp [part, hk]
  rw [hlist, ← List.sum_toFinset _ T.nodup_keys_rows]
  refine Finset.sum_subset ?_ ?_
  · intro k hk
    obtain ⟨⟨k', v⟩, hr, rfl⟩ := List.mem_map.mp (List.mem_toFinset.mp hk)
    exact hs k' v (mem_rows.mp hr)
  · intro k _ hk
    have hnone : T.lookup k = none := by
      rw [Option.eq_none_iff_forall_ne_some]
      intro v hv
      exact hk (List.mem_toFinset.mpr (List.mem_map.mpr ⟨(k, v), mem_rows.mpr hv, rfl⟩))
    simp [part, hnone]

variable {T T' : Table K V} {f f' : K → V → M}

/-- A map that sends every part to the new one sends the sum to the new one. -/
theorem sumRows_map {N : Type} [AddCommGroup N] {f' : K → V → N} (φ : M →+ N)
    (h : ∀ k, T'.part f' k = φ (T.part f k)) : T'.sumRows f' = φ (T.sumRows f) := by
  rw [T.sumRows_eq f (s := T.keySet ∪ T'.keySet) fun k v hk => Finset.mem_union_left _ (mem_keySet hk),
    T'.sumRows_eq f' (s := T.keySet ∪ T'.keySet) fun k v hk => Finset.mem_union_right _ (mem_keySet hk),
    map_sum]
  exact Finset.sum_congr rfl fun k _ => h k

/-- Only the row `k` counts for something else. -/
theorem sumRows_change (k : K) (h : ∀ k', k' ≠ k → T'.part f' k' = T.part f k') :
    T'.sumRows f' = T.sumRows f - T.part f k + T'.part f' k := by
  have hk : k ∈ insert k (T.keySet ∪ T'.keySet) := Finset.mem_insert_self _ _
  rw [T.sumRows_eq f (s := insert k (T.keySet ∪ T'.keySet)) fun k' v hk' =>
      Finset.mem_insert_of_mem (Finset.mem_union_left _ (mem_keySet hk')),
    T'.sumRows_eq f' (s := insert k (T.keySet ∪ T'.keySet)) fun k' v hk' =>
      Finset.mem_insert_of_mem (Finset.mem_union_right _ (mem_keySet hk')),
    ← Finset.add_sum_erase _ _ hk, ← Finset.add_sum_erase _ (T.part f) hk,
    Finset.sum_congr rfl fun k' hk' => h k' (Finset.ne_of_mem_erase hk')]
  abel

end sums

end Table
