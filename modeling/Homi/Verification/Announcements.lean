import Homi.Verification.Hints
import Homi.Verification.Snapshots
import Homi.Verification.Uses

/-! # Announcements

  Nothing that a member can see changes in silence: a commit that writes a
  row of a house, its members, its expenses or its payments logs an event
  of that house, and with it goes the hint. An invite or a bill template
  can change without one; no snapshot shows them.

  The name of a user is the one thing a snapshot reads that belongs to no
  house. It never changes.
-/

namespace Homi

open ReadCommitted Protocol

variable {env : Env} {c : HomiCommit} {d d' : Db} {tx : DbTx} {h k u : Uuid} {startedAt : Millis}

/-! ## Section 1: Names -/

section names

variable {α : Type} {m : DbTxn α} {call : Call}

end names

/-! ## Section 2: What is logged -/

/-- Writes that no snapshot shows. -/
structure Writes.Unseen (w : Writes) : Prop where
  houses : w.houses = []
  houseMembers : w.houseMembers = []
  expenses : w.expenses = []
  expenseSplits : w.expenseSplits = []
  payments : w.payments = []

/-- Who logs nothing writes nothing that a snapshot shows. -/
def Announces (w : Writes) : Prop := w.activityEvents = [] → w.Unseen

/-- Whatever it reads, the transaction logs. -/
def Loud {α : Type} (m : DbTxn α) : Prop :=
  freeDb.Triple (fun _ _ => True) m fun _ tx _ => tx.writes.activityEvents ≠ []

/-- Whatever it reads, the transaction announces what it writes. -/
def Announcing {α : Type} (m : DbTxn α) : Prop :=
  freeDb.Triple (fun tx _ => tx.writes = {}) m fun _ tx _ => Announces tx.writes

section loud

variable {α β : Type} {m : DbTxn α} {f : α → DbTxn β}

theorem triple_anything : freeDb.Triple (fun _ _ => True) m fun _ _ _ => True :=
  triple_weaken (triple_passive (passive_const (fun _ => True) True) (Txn.only_true m))
    (fun _ _ _ => trivial) fun _ _ _ _ => trivial

/-- What was logged stays logged. -/
theorem passive_logged : freeDb.Passive (fun _ => True) fun tx _ => tx.writes.activityEvents ≠ [] :=
  passive_writes (p := fun w : Writes => w.activityEvents ≠ []) fun _ _ hw _ hnil =>
    hw (List.append_eq_nil_iff.mp hnil).1

theorem Loud.after (hf : ∀ a, Loud (f a)) : Loud (m >>= f) := triple_bind triple_anything hf

theorem Loud.before (hm : Loud m) : Loud (m >>= f) :=
  triple_bind hm fun _ => triple_passive passive_logged (Txn.only_true _)

/-- A first part that writes nothing. -/
theorem Announcing.after (hm : m.Only Writes.Nothing) (hf : ∀ a, Announcing (f a)) : Announcing (m >>= f) :=
  triple_bind (triple_passive passive_unwritten hm) hf

end loud

section transactions

variable {houseId : JsString} {id : KeyId} {hash : JsString}

end transactions

/-! ## Section 3: All commits announce -/

section programs

variable {α : Type}

end programs

section versions

variable {d'' : Db} {w : Writes}

namespace ShownSame

theorem refl (d : Db) : ShownSame k d d :=
  ⟨rfl, fun _ => rfl, fun _ _ => rfl, .refl _, fun _ _ => Iff.rfl, .refl _, rfl⟩

theorem trans (hs : ShownSame k d d') (hs' : ShownSame k d' d'') : ShownSame k d d'' where
  house := hs'.house.trans hs.house
  houseMembers u := (hs'.houseMembers u).trans (hs.houseMembers u)
  names u hu := by
    obtain ⟨m, hm⟩ := hu
    exact (hs'.names u ⟨m, (hs.houseMembers u).trans hm⟩).trans (hs.names u ⟨m, hm⟩)
  expenses e row hrow := (hs'.expenses e row hrow).trans (hs.expenses e row hrow)
  expenseSplits rid row := (hs'.expenseSplits rid row).trans (hs.expenseSplits rid row)
  payments p row hrow := (hs'.payments p row hrow).trans (hs.payments p row hrow)
  events := hs'.events.trans hs.events

/-- Ids that are drawn show nowhere. -/
theorem tick (n : ℕ) (d : Db) : ShownSame k d (ReadCommitted.tick n d) :=
  ⟨rfl, fun _ => rfl, fun _ _ => rfl, .refl _, fun _ _ => Iff.rfl, .refl _, rfl⟩

/-- The writes of another house. -/
theorem others (hc : Confined env h w d) (hk : k ≠ h) (hnames : ∀ u, Dwells k d u →
    ((w.apply d).users.lookup u).map User.name = (d.users.lookup u).map User.name)
    (hev : houseEvents (w.apply d) k = houseEvents d k) : ShownSame k d (w.apply d) := by
  have hsame := hc.others hk
  exact ⟨hsame.house, hsame.houseMembers, hnames, hsame.expenses, hsame.expenseSplits, hsame.payments, hev⟩

end ShownSame

variable {s s' : HomiState}

/-- What the steps of a run leave of a house: all of its events, and the
    whole of it if there are no others. -/
structure Follows (k : Uuid) (d d' : Db) : Prop where
  grows : houseEvents d k <+: houseEvents d' k
  same : (houseEvents d' k).length = (houseEvents d k).length → ShownSame k d d'

theorem Follows.refl (d : Db) : Follows k d d := ⟨List.prefix_refl _, fun _ => .refl d⟩

theorem Follows.trans (hf : Follows k d d') (hf' : Follows k d' d'') : Follows k d d'' := by
  refine ⟨hf.grows.trans hf'.grows, fun hlength => ?_⟩
  have hle := hf.grows.length_le
  have hle' := hf'.grows.length_le
  exact (hf.same (by omega)).trans (hf'.same (by omega))

end versions

end Homi
