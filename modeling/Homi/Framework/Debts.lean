import Mathlib.Algebra.BigOperators.Finsupp.Basic
import Mathlib.Algebra.Group.Subgroup.Lattice
import Mathlib.Data.Finsupp.Basic
import Mathlib.Tactic.Abel

/-! # Books of debts

  Who owes whom how much, over any people and any amounts that can be added
  and taken away. A book is a sum of single debts, so what one owes another
  is always the negative of what the other owes back, and nobody owes
  oneself.

  * `debt`, `spread`: one debt, and an expense that one pays for many.
  * `rename`: the same debts between other people.
  * `net`: what a book leaves everybody with.
  * `Entry`: what can be entered in a book, and `replay` what a journal of
    entries leads to.
-/

namespace Debts

open Finsupp (single single_apply single_add singleAddHom singleAddHom_apply applyAddHom liftAddHom mapDomain
  mapDomain_single mapDomain_add mapDomain_zero)

variable {U V K A : Type} [AddCommGroup A]

/-! ## Section 1: Books -/

/-- `u` owes `v` the amount, and `v` owes `u` its negative. -/
noncomputable def owed (u v : U) : A →+ (U × U →₀ A) := singleAddHom (u, v) - singleAddHom (v, u)

/-- The sums of single debts. -/
abbrev Book (U A : Type) [AddCommGroup A] : Type :=
  ↥(AddSubgroup.closure {b : U × U →₀ A | ∃ u v a, owed u v a = b})

/-- What `u` owes `v`. -/
noncomputable def owes (u v : U) : Book U A →+ A :=
  (applyAddHom (u, v)).comp (AddSubgroup.subtype _)

noncomputable def debt (u v : U) : A →+ Book U A where
  toFun a := ⟨owed u v a, AddSubgroup.subset_closure ⟨u, v, a, rfl⟩⟩
  map_zero' := Subtype.ext (map_zero _)
  map_add' _ _ := Subtype.ext (map_add _ _ _)

theorem owes_debt [DecidableEq U] (u v x y : U) (a : A) :
    owes x y (debt u v a) = (if x = u ∧ y = v then a else 0) - if x = v ∧ y = u then a else 0 := by
  show (owed u v a) (x, y) = _
  simp only [owed, AddMonoidHom.sub_apply, singleAddHom_apply, Finsupp.sub_apply, single_apply, Prod.mk.injEq]
  congr 1 <;> exact if_congr (and_congr eq_comm eq_comm) rfl rfl

theorem mapDomain_owed (f : U × U → V) (u v : U) (a : A) :
    mapDomain f (owed u v a) = single (f (u, v)) a - single (f (v, u)) a := by
  show mapDomain.addMonoidHom f (single (u, v) a - single (v, u) a) = _
  rw [map_sub]
  exact congrArg₂ _ mapDomain_single mapDomain_single

/-! ## Section 2: Expenses -/

/-- The payer advances everybody's share. -/
noncomputable def spread (payer : U) : (U →₀ A) →+ Book U A := liftAddHom fun u => debt u payer

@[simp] theorem spread_single (payer u : U) (a : A) : spread payer (single u a) = debt u payer a := by
  simp [spread]

theorem owes_spread [DecidableEq U] (payer x y : U) (shares : U →₀ A) :
    owes x y (spread payer shares) = (if y = payer then shares x else 0) - if x = payer then shares y else 0 := by
  induction shares using Finsupp.induction_linear with
  | zero => simp
  | add s t hs ht =>
    rw [map_add, map_add, hs, ht]
    by_cases hx : x = payer <;> by_cases hy : y = payer <;> simp [hx, hy]
    abel
  | single u a =>
    rw [spread_single, owes_debt]
    by_cases hx : x = payer <;> by_cases hy : y = payer <;> simp [hx, hy, single_apply, eq_comm]

/-! ## Section 3: Other people -/

theorem rename_mem (f : U → V) (b : Book U A) :
    mapDomain (Prod.map f f) b.1 ∈ AddSubgroup.closure {b : V × V →₀ A | ∃ u v a, owed u v a = b} := by
  obtain ⟨b, hb⟩ := b
  induction hb using AddSubgroup.closure_induction with
  | mem x hx =>
    obtain ⟨u, v, a, rfl⟩ := hx
    rw [mapDomain_owed]
    exact AddSubgroup.subset_closure ⟨f u, f v, a, rfl⟩
  | zero => simp
  | add x y hx hy ihx ihy =>
    rw [mapDomain_add]
    exact add_mem ihx ihy
  | neg x hx ih =>
    have hneg : mapDomain (Prod.map f f) (-x) = -mapDomain (Prod.map f f) x :=
      map_neg (mapDomain.addMonoidHom (Prod.map f f)) x
    rw [hneg]
    exact neg_mem ih

/-- The same debts, where `f u` stands in for `u`. -/
noncomputable def rename (f : U → V) : Book U A →+ Book V A where
  toFun b := ⟨mapDomain (Prod.map f f) b.1, rename_mem f b⟩
  map_zero' := Subtype.ext (mapDomain_zero (f := Prod.map f f))
  map_add' _ _ := Subtype.ext mapDomain_add

@[simp] theorem rename_debt (f : U → V) (u v : U) (a : A) :
    rename f (debt u v a) = debt (f u) (f v) a :=
  Subtype.ext (mapDomain_owed (Prod.map f f) u v a)

theorem rename_spread (f : U → V) (payer : U) (shares : U →₀ A) :
    rename f (spread payer shares) = spread (f payer) (mapDomain f shares) := by
  induction shares using Finsupp.induction_linear with
  | zero => simp
  | add s t hs ht => rw [map_add, map_add, hs, ht, mapDomain_add, map_add]
  | single u a => rw [spread_single, rename_debt, mapDomain_single, spread_single]

/-- Of a guest and a claimer who become one, the claimer has what both had. -/
theorem mapDomain_update [DecidableEq U] {guest claimer : U} (hne : guest ≠ claimer) (s : U →₀ A) (u : U) :
    mapDomain (Function.update id guest claimer) s u =
      if u = guest then 0 else if u = claimer then s claimer + s guest else s u := by
  induction s using Finsupp.induction_linear with
  | zero => simp
  | add s t hs ht =>
    rw [mapDomain_add, Finsupp.add_apply, hs, ht]
    split_ifs
    · exact add_zero 0
    · simp only [Finsupp.add_apply]
      abel
    · rfl
  | single v a =>
    rw [mapDomain_single]
    by_cases hv : v = guest
    · subst hv
      rw [Function.update_self]
      by_cases hu : u = v
      · simp [hu, hne]
      · by_cases hu' : u = claimer
        · subst hu'
          simp [hu]
        · simp [hu, hu']
    · rw [Function.update_of_ne hv]
      by_cases hu : u = guest
      · simp [hu, hv]
      · by_cases hu' : u = claimer
        · simp [hu', hne.symm, single_apply, hv]
        · simp [hu, hu']

theorem mapDomain_update_of_zero [DecidableEq U] {guest claimer : U} (hne : guest ≠ claimer) {s : U →₀ A}
    (h : s guest = 0) : s.mapDomain (Function.update id guest claimer) = s := by
  refine Finsupp.ext fun u => ?_
  rw [mapDomain_update hne]
  by_cases hu : u = guest
  · rw [if_pos hu, hu, h]
  · rw [if_neg hu]
    by_cases hc : u = claimer
    · rw [if_pos hc, hc, h, add_zero]
    · rw [if_neg hc]

/-! ## Section 4: Nets -/

/-- What everybody is owed, less what they owe. -/
noncomputable def net : Book U A →+ (U →₀ A) :=
  (mapDomain.addMonoidHom Prod.snd).comp (AddSubgroup.subtype _)

@[simp] theorem net_debt (u v : U) (a : A) : net (debt u v a) = single v a - single u a :=
  mapDomain_owed Prod.snd u v a

/-- All shares together. -/
noncomputable def total : (U →₀ A) →+ A := liftAddHom fun _ => AddMonoidHom.id A

@[simp] theorem total_single (u : U) (a : A) : total (single u a) = a := by simp [total]

theorem net_spread (payer : U) (shares : U →₀ A) :
    net (spread payer shares) = single payer (total shares) - shares := by
  induction shares using Finsupp.induction_linear with
  | zero => simp
  | add s t hs ht =>
    rw [map_add, map_add, hs, ht, map_add, single_add]
    abel
  | single u a => rw [spread_single, net_debt, total_single]

/-! ## Section 5: Journals -/

inductive Entry (U A : Type) [AddCommGroup A] where
  /-- One pays for all. -/
  | spend (payer : U) (shares : U →₀ A)
  /-- An expense was another one. -/
  | correct (payer : U) (shares : U →₀ A) (payer' : U) (shares' : U →₀ A)
  | pay (sender recipient : U) (amount : A)
  /-- A payment did not arrive. -/
  | takeBack (sender recipient : U) (amount : A)
  /-- The guest was the claimer all along. -/
  | become (guest claimer : U)

variable [DecidableEq U] [DecidableEq K]

/-- The book after the entry. -/
noncomputable def Entry.post (b : Book U A) : Entry U A → Book U A
  | .spend payer shares => b + spread payer shares
  | .correct payer shares payer' shares' => b - spread payer shares + spread payer' shares'
  | .pay sender recipient amount => b + debt recipient sender amount
  | .takeBack sender recipient amount => b - debt recipient sender amount
  | .become guest claimer => rename (Function.update id guest claimer) b

/-- One line of a journal of many books: an entry in the book `k`, or none. -/
noncomputable def postLine (books : K → Book U A) : Option (K × Entry U A) → K → Book U A
  | some (k, entry) => Function.update books k (entry.post (books k))
  | none => books

/-- The books that the journal leads to. -/
noncomputable def replay (journal : List (Option (K × Entry U A))) : K → Book U A :=
  journal.foldl postLine 0

end Debts
