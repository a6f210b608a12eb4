import Homi.Framework.Alone

/-! # Transactions that may throw

  What a transaction throws, and in which database. `Txn.Throws` bounds
  the errors by the text of a transaction alone; `Protocol.TripleOr` is a
  triple with a second postcondition, for the errors, and it speaks about
  the runs whose statements meet the condition `ok`.
-/

namespace ReadCommitted

variable {D W κ ν H R C ε α β : Type}

/-! ## Section 1: Errors by text -/

namespace Txn

/-- Every error that the transaction can end with has `q`. -/
def Throws (q : ε → Prop) : Txn D W κ ν ε α → Prop
  | .ret _ => True
  | .throw e => q e
  | .stmt _ next => ∀ v, (next v).Throws q

variable {q : ε → Prop}

@[simp] theorem throws_pure (a : α) : (pure a : Txn D W κ ν ε α).Throws q := trivial

theorem throws_bind {m : Txn D W κ ν ε α} {k : α → Txn D W κ ν ε β} (hm : m.Throws q)
    (hk : ∀ a, (k a).Throws q) : (m >>= k).Throws q := by
  induction m with
  | ret a => exact hk a
  | throw e => exact hm
  | stmt act next ih => exact fun v => ih v (hm v)

theorem throws_ofExcept {r : Except ε α} (h : ∀ e, r = .error e → q e) :
    (.ofExcept r : Txn D W κ ν ε α).Throws q := by
  cases r with
  | ok a => trivial
  | error e => exact h e rfl

theorem throws_exec {act : View D → Effect W κ ν} {res : View D → Except ε α}
    (h : ∀ v e, res v = .error e → q e) : (.exec act res : Txn D W κ ν ε α).Throws q :=
  fun v => throws_ofExcept (h v)

theorem throws_select [WriteSet W κ] {res : View D → α} :
    (.select res : Txn D W κ ν ε α).Throws q := fun _ => trivial

theorem throws_mapError {p : ε → Prop} {f : ε → ε} (hf : ∀ e, p e → q (f e))
    {m : Txn D W κ ν ε α} (hm : m.Throws p) : (m.mapError f).Throws q := by
  induction m with
  | ret a => trivial
  | throw e => exact hf e hm
  | stmt act next ih => exact fun v => ih v (hm v)

/-- The error of a body that runs alone. -/
theorem Throws.alone [WriteSet W κ] [Store D W κ] {m : Txn D W κ ν ε α} {now : Nat} {d : D} {w : W}
    {e : ε} (hm : m.Throws q) (he : (m.alone now d w).1 = .error e) : q e := by
  induction m generalizing d w with
  | ret a => cases he
  | throw e' =>
    cases he
    exact hm
  | stmt act next ih => exact ih _ (hm _) he

end Txn

/-! ## Section 2: Two postconditions -/

namespace Protocol

variable [WriteSet W κ] [Store D W κ] (P : Protocol D W κ ν H R C)

/-- A condition on the statements of a transaction, in the database and at
    the instant at which they run. -/
abbrev StmtCond (D W κ ν : Type) : Type := (View D → Effect W κ ν) → Tx W κ ν → D → Nat → Prop

/-- Weakest precondition over the runs whose statements all meet `ok`. -/
def wpIf (ok : StmtCond D W κ ν) :
    Txn D W κ ν ε α → (Except ε α → Tx W κ ν → D → Prop) → Tx W κ ν → D → Prop
  | .ret a, Q, tx, d => Q (.ok a) tx d
  | .throw e, Q, tx, d => Q (.error e) tx d
  | .stmt act next, Q, tx, d => ∀ d' now, P.rely tx d d' → P.inv d' → ok act tx d' now →
      wpIf ok (next (tx.view d' now)) Q (tx.add (act (tx.view d' now)))
        (tick (act (tx.view d' now)).ids d')

/-- From `A`, every way through `m` that meets `ok` ends in `B` or throws
    an error with `E`. -/
def TripleOr (ok : StmtCond D W κ ν) (A : Tx W κ ν → D → Prop) (m : Txn D W κ ν ε α)
    (B : α → Tx W κ ν → D → Prop) (E : ε → D → Prop) : Prop :=
  ∀ tx d, A tx d → P.wpIf ok m (fun r tx d => match r with
    | .ok a => B a tx d
    | .error e => E e d) tx d

variable {P} {ok : StmtCond D W κ ν} {A A' : Tx W κ ν → D → Prop}
  {B B' : α → Tx W κ ν → D → Prop} {E : ε → D → Prop}

theorem wpIf_mono {m : Txn D W κ ν ε α} {Q Q' : Except ε α → Tx W κ ν → D → Prop}
    (hQ : ∀ r tx d, Q r tx d → Q' r tx d) {tx : Tx W κ ν} {d : D} (h : P.wpIf ok m Q tx d) :
    P.wpIf ok m Q' tx d := by
  induction m generalizing tx d with
  | ret a => exact hQ _ _ _ h
  | throw e => exact hQ _ _ _ h
  | stmt act next ih =>
    intro d' now hr hi hok
    exact ih _ (h d' now hr hi hok)

/-- What every run does, those that meet `ok` do; and what is thrown is in
    the text. -/
theorem wpIf_of_wp {q : ε → Prop} {m : Txn D W κ ν ε α}
    {Q : Except ε α → Tx W κ ν → D → Prop} {tx : Tx W κ ν} {d : D} (h : P.wp m Q tx d)
    (hm : m.Throws q) :
    P.wpIf ok m (fun r tx d => Q r tx d ∧ ∀ e, r = .error e → q e) tx d := by
  induction m generalizing tx d with
  | ret a => exact ⟨h, fun e he => by cases he⟩
  | throw e => exact ⟨h, fun e' he => by cases he; exact hm⟩
  | stmt act next ih =>
    intro d' now hr hi _
    exact ih _ (h d' now hr hi) (hm _)

theorem wpIf_bind {m : Txn D W κ ν ε α} {k : α → Txn D W κ ν ε β}
    {Q : Except ε β → Tx W κ ν → D → Prop} {tx : Tx W κ ν} {d : D}
    (h : P.wpIf ok m (fun r tx d => match r with
      | .ok a => P.wpIf ok (k a) Q tx d
      | .error e => Q (.error e) tx d) tx d) : P.wpIf ok (m >>= k) Q tx d := by
  induction m generalizing tx d with
  | ret a => exact h
  | throw e => exact h
  | stmt act next ih =>
    intro d' now hr hi hok
    exact ih _ (h d' now hr hi hok)

theorem tripleOr_bind {m : Txn D W κ ν ε α} {k : α → Txn D W κ ν ε β}
    {Q : β → Tx W κ ν → D → Prop} (h : P.TripleOr ok A m B E)
    (hk : ∀ a, P.TripleOr ok (B a) (k a) Q E) : P.TripleOr ok A (m >>= k) Q E := by
  intro tx d hA
  refine wpIf_bind (wpIf_mono ?_ (h tx d hA))
  intro r tx d hQ
  cases r with
  | ok a => exact hk a tx d hQ
  | error e => exact hQ

theorem tripleOr_pure {a : α} (h : ∀ tx d, A tx d → B a tx d) :
    P.TripleOr ok A (pure a : Txn D W κ ν ε α) B E := h

theorem tripleOr_throw {e : ε} (h : ∀ tx d, A tx d → E e d) :
    P.TripleOr ok A (.throw e : Txn D W κ ν ε α) B E := h

theorem tripleOr_weaken {m : Txn D W κ ν ε α} (h : P.TripleOr ok A m B E)
    (hA : ∀ tx d, A' tx d → A tx d) (hB : ∀ a tx d, B a tx d → B' a tx d) :
    P.TripleOr ok A' m B' E := by
  intro tx d hA'
  refine wpIf_mono ?_ (h tx d (hA tx d hA'))
  intro r tx d hQ
  cases r with
  | ok a => exact hB a tx d hQ
  | error e => exact hQ

/-- A triple, when all errors of the text are fine. -/
theorem tripleOr_of_throws {q : ε → Prop} {m : Txn D W κ ν ε α} (h : P.Triple A m B)
    (hm : m.Throws q) (hE : ∀ e d, q e → E e d) : P.TripleOr ok A m B E := by
  intro tx d hA
  refine wpIf_mono ?_ (wpIf_of_wp (h tx d hA) hm)
  intro r tx d hQ
  cases r with
  | ok a => exact hQ.1 a rfl
  | error e => exact hE e d (hQ.2 e rfl)

/-- More to rely on leaves fewer ways through a transaction. -/
theorem wpIf_transfer {P' : Protocol D W κ ν H R C} {m : Txn D W κ ν ε α}
    (hrely : ∀ tx d d', P'.rely tx d d' → P.rely tx d d') (hinv : ∀ d, P'.inv d → P.inv d)
    {Q : Except ε α → Tx W κ ν → D → Prop} {tx : Tx W κ ν} {d : D} (h : P.wpIf ok m Q tx d) :
    P'.wpIf ok m Q tx d := by
  induction m generalizing tx d with
  | ret a => exact h
  | throw e => exact h
  | stmt act next ih =>
    exact fun d' now hr hi hok => ih _ (h d' now (hrely _ _ _ hr) (hinv _ hi) hok)

theorem tripleOr_transfer {P' : Protocol D W κ ν H R C} {m : Txn D W κ ν ε α}
    (hrely : ∀ tx d d', P'.rely tx d d' → P.rely tx d d') (hinv : ∀ d, P'.inv d → P.inv d)
    (h : P.TripleOr ok A m B E) : P'.TripleOr ok A m B E :=
  fun tx d hA => wpIf_transfer hrely hinv (h tx d hA)

/-- What another triple says of the ways that end in a result. -/
theorem tripleOr_and {m : Txn D W κ ν ε α} (h : P.TripleOr ok A m B E) (h' : P.Triple A' m B') :
    P.TripleOr ok (fun tx d => A tx d ∧ A' tx d) m (fun a tx d => B a tx d ∧ B' a tx d) E := by
  intro tx d hA
  have h₁ := h tx d hA.1
  have h₂ := h' tx d hA.2
  clear h h' hA
  induction m generalizing tx d with
  | ret a => exact ⟨h₁, h₂ a rfl⟩
  | throw e => exact h₁
  | stmt act next ih => exact fun d' now hr hi hok => ih _ _ _ (h₁ d' now hr hi hok) (h₂ d' now hr hi)

/-- A fact about the database that nobody breaks holds at both ends. -/
theorem tripleOr_fact {F : D → Prop} (hF : P.Passive (fun _ => True) fun _ d => F d)
    {m : Txn D W κ ν ε α} (h : P.TripleOr ok A m B E) :
    P.TripleOr ok (fun tx d => A tx d ∧ F d) m (fun a tx d => B a tx d ∧ F d) fun e d => E e d ∧ F d := by
  intro tx d hA
  have hwp := h tx d hA.1
  have hfact := hA.2
  clear h hA
  induction m generalizing tx d with
  | ret a => exact ⟨hwp, hfact⟩
  | throw e => exact ⟨hwp, hfact⟩
  | stmt act next ih =>
    intro d' now hr hi hok
    exact ih _ _ _ (hwp d' now hr hi hok) (hF.step tx d' _ trivial (hF.stable tx d d' hr hi hfact))

/-- A computation that touches no table. -/
theorem tripleOr_ofExcept {r : Except ε α} (h : ∀ a, r = .ok a → ∀ tx d, A tx d → B a tx d)
    (he : ∀ e, r = .error e → ∀ tx d, A tx d → E e d) :
    P.TripleOr ok A (.ofExcept r : Txn D W κ ν ε α) B E := by
  intro tx d hA
  cases r with
  | ok a => exact h a rfl tx d hA
  | error e => exact he e rfl tx d hA

/-- One statement. -/
theorem tripleOr_exec {act : View D → Effect W κ ν} {res : View D → Except ε α}
    (hs : P.Stable A)
    (h : ∀ tx d now a, A tx d → P.inv d → ok act tx d now → res (tx.view d now) = .ok a →
      B a (tx.add (act (tx.view d now))) (tick (act (tx.view d now)).ids d))
    (he : ∀ tx d now e, A tx d → P.inv d → ok act tx d now → res (tx.view d now) = .error e →
      E e (tick (act (tx.view d now)).ids d)) : P.TripleOr ok A (.exec act res) B E := by
  intro tx d hA d' now hr hi hok
  have hA' := hs tx d d' hr hi hA
  show P.wpIf ok (Txn.ofExcept (res (tx.view d' now))) _ _ _
  cases hres : res (tx.view d' now) with
  | ok a => exact h tx d' now a hA' hi hok hres
  | error e => exact he tx d' now e hA' hi hok hres

/-- The two postconditions of one statement, each from its own argument. -/
theorem tripleOr_exec_of {act : View D → Effect W κ ν} {res : View D → Except ε α}
    (hs : P.Stable A) (h : P.Triple A (.exec act res) B)
    (he : ∀ tx d now e, A tx d → P.inv d → res (tx.view d now) = .error e →
      E e (tick (act (tx.view d now)).ids d)) : P.TripleOr ok A (.exec act res) B E := by
  intro tx d hA d' now hr hi _
  have hok := (wp_exec act res _ tx d).mp (h tx d hA) d' now hr hi
  show P.wpIf ok (Txn.ofExcept (res (tx.view d' now))) _ _ _
  cases hres : res (tx.view d' now) with
  | ok a => exact hok a hres
  | error e => exact he tx d' now e (hs tx d d' hr hi hA) hi hres

/-- A transaction is safe when the commit is where the body ends, and what
    follows the rollback is where it throws. -/
theorem safe_of_tripleOr {c : C} {m : Txn D W κ ν ε α} {k : Except ε α → Prog D W κ ν H R}
    {seen d : D} {tx : Tx W κ ν}
    (hallows : ∀ act next tx d now, P.allows c (.stmt act next) tx d now → ok act tx d now)
    (h : P.TripleOr ok A m B E) (hA : A tx d)
    (hok : ∀ a tx d, B a tx d → P.Safe c (.commit (k (.ok a))) seen tx d)
    (herr : ∀ e d, E e d → P.Safe c (k (.error e)) seen Tx.empty d) :
    P.Safe c (m.transact k) seen tx d := by
  have hwp := h tx d hA
  clear h hA
  induction m generalizing tx d with
  | ret a => exact hok a tx d hwp
  | throw e => exact herr e d hwp
  | stmt act next ih =>
    intro d' now hr hi hallow
    exact ih _ (hwp d' now hr hi (hallows act _ tx d' now hallow))

end Protocol

end ReadCommitted
