import Homi.Verification.Replies
import Homi.Verification.Commits

/-! # Idempotency keys

  A keyed mutation commits at most once for each key, user and endpoint:
  the row of its key is part of the commit, the primary key makes a second
  insert fail, and rows are permanent. Every success is the response of
  that row, executed or replayed.

  The invariant is on the transaction alone: once it has stored its key,
  its exclusive lock keeps the key free of rows until it commits.
-/

namespace Homi

open ReadCommitted Protocol

variable {env : Env} {c : Call}

/-! ## Section 1: Keyed calls -/

/-- The key that the call stores its response under, with the hash of its
    request. -/
def Call.keyed (env : Env) : Call → Option (KeyId × JsString)
  | .createExpense h u key input =>
      some (⟨toUuid key, u, .createExpense⟩, env.hashRequest (.createExpense h input))
  | .editExpense e u key input =>
      some (⟨toUuid key, u, .editExpense⟩, env.hashRequest (.editExpense e input))
  | .recordPayment h u key input =>
      some (⟨toUuid key, u, .recordPayment⟩, env.hashRequest (.recordPayment h input))
  | .createBill h u key input =>
      some (⟨toUuid key, u, .createBill⟩, env.hashRequest (.createBill h input))
  | _ => none

/-- The call is keyed with `id`. -/
def Call.HasKey (env : Env) (c : Call) (id : KeyId) : Prop := (c.keyed env).map Prod.fst = some id

instance (c : Call) (id : KeyId) : Decidable (c.HasKey env id) :=
  inferInstanceAs (Decidable ((c.keyed env).map Prod.fst = some id))

theorem hasKey_of_keyed {id : KeyId} {hash : JsString} (h : c.keyed env = some (id, hash)) :
    c.HasKey env id := by rw [Call.HasKey, h]; rfl

theorem Call.HasKey.keyed {id : KeyId} (h : c.HasKey env id) :
    ∃ hash, c.keyed env = some (id, hash) := by
  obtain ⟨⟨id', hash⟩, hkeyed, rfl⟩ := Option.map_eq_some_iff.mp h
  exact ⟨hash, hkeyed⟩

/-- A keyed call is a request. -/
theorem isRequest_of_keyed {x : KeyId × JsString} (h : c.keyed env = some x) : c.isRequest = true := by
  cases c with
  | postDueBills now => cases h
  | _ => rfl

/-- Only keyed calls write keys. -/
theorem spares_of_unkeyed (h : c.keyed env = none) : TableName.idempotencyKeys ∉ c.tables := by
  cases c <;> first | cases h; done | simp [Call.tables]

/-! ## Section 2: The protocol -/

/-- The row of a key. -/
def Db.keyRow (d : Db) (id : KeyId) : Option KeyRow := d.idempotencyKeys.lookup id

/-- Rows of `idempotency_keys` are never changed or removed. -/
def KeysStay (d d' : Db) : Prop := ∀ id row, d.keyRow id = some row → d'.keyRow id = some row

/-- The writes insert one key, with this request and response. -/
def Writes.Stores (w : Writes) (id : KeyId) (hash : JsString) (response : StoredResponse) : Prop :=
  w.idempotencyKeys = [(id, some ⟨hash, response⟩)]

/-- The writes leave the keys alone. -/
def Writes.Keyless (w : Writes) : Prop := w.idempotencyKeys = []

theorem keyless_nothing : Writes.Keyless {} := rfl

def keysProtocol (env : Env) : DbProtocol where
  inv _ := True
  rely tx d d' := Frame tx d d' ∧ KeysStay d d'
  guar c _ tx d := ∀ id hash, c.keyed env = some (id, hash) →
    ∃ response, tx.writes.Stores id hash response ∧ d.keyRow id = none
  post c r d := ∀ id hash, c.keyed env = some (id, hash) → ∀ outcome, r = .success outcome →
    ∃ response, outcome = .response response ∧ d.keyRow id = some ⟨hash, response⟩
  allows _ _ _ _ _ := True
  stops _ _ := True

theorem keyRow_apply {w : Writes} {id : KeyId} {hash : JsString} {response : StoredResponse}
    (h : w.Stores id hash response) (d : Db) (id' : KeyId) :
    (w.apply d).keyRow id' = if id = id' then some ⟨hash, response⟩ else d.keyRow id' := by
  show (d.idempotencyKeys.patch w.idempotencyKeys).lookup id' = _
  rw [h, Table.lookup_patch_singleton]
  rfl

/-- What the keys say after a commit. -/
theorem keysStay_commit {cm : HomiCommit} (hk : Known env cm)
    (hg : (keysProtocol env).guar cm.call cm.seen cm.tx cm.before) :
    KeysStay cm.before cm.after := by
  cases hkeyed : cm.call.keyed env with
  | none =>
    have hspare : cm.tx.writes.Spares .idempotencyKeys := hk.within.tables _ (spares_of_unkeyed hkeyed)
    intro id row hrow
    show (cm.before.idempotencyKeys.patch cm.tx.writes.idempotencyKeys).lookup id = some row
    rw [show cm.tx.writes.idempotencyKeys = [] from hspare]
    exact hrow
  | some x =>
    obtain ⟨response, hstores, hnone⟩ := hg x.1 x.2 hkeyed
    intro id row hrow
    show (cm.tx.writes.apply cm.before).keyRow id = some row
    rw [keyRow_apply hstores]
    split
    · next heq => rw [heq, hrow] at hnone; cases hnone
    · exact hrow

/-! ## Section 3: Transactions -/

/-- The transaction has stored `response` under the key, and nobody else has. -/
def Stored (id : KeyId) (hash : JsString) (response : StoredResponse) (tx : DbTx) (d : Db) : Prop :=
  tx.writes.Stores id hash response ∧ d.keyRow id = none

theorem stable_stored {id : KeyId} {hash : JsString} {response : StoredResponse} :
    (keysProtocol env).Stable (Stored id hash response) := by
  rintro tx d d' ⟨hframe, _⟩ _ ⟨hstores, hnone⟩
  refine ⟨hstores, ?_⟩
  have hheld : tx.Holds (.key id) := Or.inl (Writes.mem_written.mpr (by
    rw [show tx.writes.idempotencyKeys = _ from hstores]
    exact List.mem_singleton_self _))
  have hagree : d'.keyRow id = d.keyRow id := hframe _ hheld
  rw [hagree]
  exact hnone

/-- From no key, the transaction stores the response that it returns. -/
def StoresReply (env : Env) (id : KeyId) (hash : JsString)
    (m : DbTxn (StoredResponse × List ActivityInput)) : Prop :=
  (keysProtocol env).Triple (fun tx _ => tx.writes.Keyless) m fun r => Stored id hash r.1

section transactions

variable {id : KeyId} {hash : JsString} {startedAt : Millis}

theorem passive_keyless :
    (keysProtocol env).Passive Writes.Keyless fun tx _ => tx.writes.Keyless :=
  passive_writes fun w w' h h' => by
    show w.idempotencyKeys ++ w'.idempotencyKeys = []
    rw [show w.idempotencyKeys = [] from h, show w'.idempotencyKeys = [] from h']
    rfl

theorem storesReply_bind {α : Type} {m : DbTxn α}
    {k : α → DbTxn (StoredResponse × List ActivityInput)} (hm : m.Only Writes.Keyless)
    (hk : ∀ a, StoresReply env id hash (k a)) : StoresReply env id hash (m >>= k) :=
  triple_bind (triple_passive passive_keyless hm) hk

/-- The insert fails when the key has a row. -/
theorem triple_store {response : StoredResponse} :
    (keysProtocol env).Triple (fun tx _ => tx.writes.Keyless) (store id hash response)
      fun _ => Stored id hash response := by
  refine triple_exec (stable_const _) fun tx d now a hkeyless _ hres => ?_
  have hsame : (tx.view d now).db.keyRow id = d.keyRow id := by
    show (d.idempotencyKeys.patch tx.writes.idempotencyKeys).lookup id = _
    rw [show tx.writes.idempotencyKeys = [] from hkeyless]
    rfl
  refine ⟨?_, ?_⟩
  · show tx.writes.idempotencyKeys ++ [(id, some ⟨hash, response⟩)] = _
    rw [show tx.writes.idempotencyKeys = [] from hkeyless]
    rfl
  · show d.keyRow id = none
    rw [← hsame]
    split at hres
    · cases hres
    · next hnone => exact Option.not_isSome_iff_eq_none.mp hnone

/-- How every keyed transaction ends. -/
theorem storesReply_last {response : StoredResponse} {logged : List ActivityInput} :
    StoresReply env id hash (do store id hash response; return (response, logged)) :=
  triple_bind triple_store fun _ => triple_pure fun _ _ h => h

theorem createExpense_stores {h : JsString} {u : Uuid} {input : CreateExpenseInput} :
    StoresReply env id hash (createExpenseTx env h u input (store id hash) startedAt) :=
  storesReply_bind (only_selectHouse keyless_nothing) fun _ => storesReply_bind only_reject fun _ =>
    storesReply_bind (only_resolveSplitsOr400 keyless_nothing) fun _ =>
      storesReply_bind (only_insertExpense (fun _ => rfl) fun _ => rfl) fun _ =>
        storesReply_bind (only_log rfl) fun _ => storesReply_last

theorem editExpense_stores {e : JsString} {u : Uuid} {input : EditExpenseInput} :
    StoresReply env id hash (editExpenseTx e u input (store id hash) startedAt) :=
  storesReply_bind (only_lockExpense keyless_nothing) fun _ =>
    storesReply_bind (Txn.only_select keyless_nothing) fun _ => storesReply_bind only_reject fun _ =>
      storesReply_bind (Txn.only_select keyless_nothing) fun _ =>
        storesReply_bind (only_insertRevisions fun _ => rfl) fun _ =>
          storesReply_bind (only_resolveSplitsOr400 keyless_nothing) fun _ =>
            storesReply_bind (only_updateExpense fun _ => rfl) fun _ =>
              storesReply_bind (only_deleteSplitsOf keyless_nothing fun _ => rfl) fun _ =>
                storesReply_bind (only_insertSplits fun _ => rfl) fun _ =>
                  storesReply_bind (only_log rfl) fun _ => storesReply_last

theorem recordPayment_stores {h : JsString} {u : Uuid} {input : RecordPaymentInput} :
    StoresReply env id hash (recordPaymentTx env h u input (store id hash) startedAt) :=
  storesReply_bind (only_selectHouse keyless_nothing) fun _ => storesReply_bind only_reject fun _ =>
    storesReply_bind (Txn.only_mapError (only_lockActingMember keyless_nothing)) fun _ =>
      storesReply_bind (only_insertPayment fun _ => rfl) fun _ =>
        storesReply_bind (only_log rfl) fun _ => storesReply_last

theorem createBill_stores {h : JsString} {u : Uuid} {input : CreateBillInput} :
    StoresReply env id hash (createBillTx env h u input (store id hash) startedAt) :=
  storesReply_bind (only_selectHouse keyless_nothing) fun _ =>
    storesReply_bind (Txn.only_mapError (only_lockActingMember keyless_nothing)) fun _ =>
      storesReply_bind (only_clock keyless_nothing) fun _ => storesReply_bind only_liftSchedule fun _ =>
        storesReply_bind (only_insertBill fun _ => rfl) fun _ =>
          storesReply_bind (only_log rfl) fun _ => storesReply_last

end transactions

/-! ## Section 4: Calls -/

section calls

variable {id : KeyId} {hash : JsString}

theorem keys_refuses : Refuses (Always (keysProtocol env) c) where
  fail err := always_done fun d _ _ _ outcome h => by cases h
  query _ h := always_query h

/-- Replaying the row that is there. -/
theorem safe_replay (hkey : c.keyed env = some (id, hash)) {response : StoredResponse} {seen d : Db}
    {tx : DbTx} (h : d.keyRow id = some ⟨hash, response⟩) :
    (keysProtocol env).Safe c (respond (.ok response)) seen tx d := by
  intro id' hash' hkey' outcome houtcome
  rw [hkey] at hkey'
  cases hkey'
  cases houtcome
  exact ⟨response, rfl, h⟩

theorem safe_respond_error {err : Err} {seen d : Db} {tx : DbTx} :
    (keysProtocol env).Safe c (respond (.error err)) seen tx d := by
  intro _ _ _ outcome houtcome
  cases houtcome

/-- What a lookup finds. -/
theorem keyRow_of_found {d : Db} {stored : StoredResponse}
    (h : findStoredResponse d id hash = .ok (some stored)) : d.keyRow id = some ⟨hash, stored⟩ := by
  unfold findStoredResponse at h
  split at h
  · cases h
  · next row hrow =>
    split at h
    · cases h
    · next hsame =>
      rw [ne_eq, not_not] at hsame
      cases h
      rw [← hsame]
      exact hrow

theorem view_empty (d : Db) (now : Millis) : ((Tx.empty : DbTx).view d now).db = d :=
  LawfulStore.apply_nothing d

/-- Hints before the reply of a stored response. -/
theorem safe_emitAll_replay (hkey : c.keyed env = some (id, hash)) {response : StoredResponse}
    {hints : List Hint} {seen d : Db} {tx : DbTx} (h : d.keyRow id = some ⟨hash, response⟩) :
    (keysProtocol env).Safe c (.emitAll hints (respond (.ok response))) seen tx d := by
  induction hints generalizing d with
  | nil => exact safe_replay hkey h
  | cons hint hints ih => exact fun d' hrely _ => ih (hrely.2 _ _ h)

/-- `withIdempotency` around a transaction that stores what it returns. -/
theorem always_withIdempotency (hkey : c.keyed env = some (id, hash))
    {fn : (StoredResponse → DbTxn Unit) → Millis → DbTxn (StoredResponse × List ActivityInput)}
    (hfn : ∀ startedAt, StoresReply env id hash (fn (store id hash) startedAt)) :
    Always (keysProtocol env) c
      (withIdempotency id hash fun store next => transact (fn store) next) := by
  intro seen d d' now _ _ _
  dsimp only
  rw [view_empty]
  split
  · next stored hfound => exact safe_replay hkey (keyRow_of_found hfound)
  · exact safe_respond_error
  · have hbegin : (keysProtocol env).Triple (fun tx _ => tx.writes.Keyless) begin
        fun _ tx _ => tx.writes.Keyless := triple_begin (stable_const _)
    refine safe_of_triple (triple_bind hbegin hfn) rfl (fun _ => stable_stored) ?_ ?_ ?_
    · intro r tx d hstored _ id' hash' hkey'
      rw [hkey] at hkey'
      cases hkey'
      exact ⟨r.1, hstored⟩
    · intro r tx d hstored _
      refine safe_emitAll_replay hkey ?_
      show (tx.writes.apply d).keyRow id = _
      rw [keyRow_apply hstored.1, if_pos rfl]
    · intro err d
      dsimp only
      split
      · intro d' now _ _ _
        dsimp only
        rw [view_empty]
        split
        · next stored hfound => exact safe_replay hkey (keyRow_of_found hfound)
        · exact safe_respond_error
        · exact safe_respond_error
      · exact safe_respond_error

theorem always_keyed_route (c : Call) : Always (keysProtocol env) c (route env c) := by
  have hG : Refuses (Always (keysProtocol env) c) := keys_refuses
  cases c with
  | createExpense h u key input =>
    exact hG.houseMemberGuard (hG.idempotencyKey (hG.parseBody
      (always_withIdempotency rfl fun _ => createExpense_stores)))
  | editExpense e u key input =>
    exact hG.uuidPipe (hG.idempotencyKey (hG.parseBody
      (always_withIdempotency rfl fun _ => editExpense_stores)))
  | recordPayment h u key input =>
    refine hG.houseMemberGuard (hG.idempotencyKey (hG.parseBody ?_))
    unfold recordPayment
    split
    · exact hG.fail _
    · exact always_withIdempotency rfl fun _ => recordPayment_stores
  | createBill h u key input =>
    refine hG.houseMemberGuard (hG.idempotencyKey (hG.parseBody ?_))
    unfold createBill
    split
    · exact hG.fail _
    · exact always_withIdempotency rfl fun _ => createBill_stores
  | _ =>
    exact fun seen d => safe_trivial (fun _ _ _ _ _ h => by cases h) (fun _ _ _ _ h => by cases h)
      _ _ _ _

end calls

theorem keys_lawful : (keysProtocol env).Lawful (homi env) (Known env) fun _ _ => True where
  rely_refl tx d := ⟨Frame.refl tx d, fun _ _ h => h⟩
  rely_trans tx a b c h h' := ⟨h.1.trans h'.1, fun id row hrow => h'.2 id row (h.2 id row hrow)⟩
  rely_tick tx n d _ := ⟨Frame.tick tx n d, fun _ _ h => h⟩
  inv_tick _ _ _ := trivial
  inv_init := trivial
  inv_commit _ _ _ _ _ := trivial
  rely_commit c tx hk _ hg hheld hheld' hc _ :=
    ⟨Frame.commit hc hheld' hheld, keysStay_commit hk hg⟩
  apart_empty _ := trivial
  start c d _ _ := always_keyed_route c d d
  killed _ _ _ _ _ _ _ _ h := by cases h

/-! ## Section 5: Runs -/

/-- The database after these commits, one after the other. -/
def replayed (d : Db) (wal : List HomiCommit) : Db := wal.foldl (fun d c => c.tx.writes.apply d) d

theorem tick_tick (m n : ℕ) (d : Db) : tick m (tick n d) = tick (n + m) d := by
  show ({ d with fresh := d.fresh + n + m } : Db) = { d with fresh := d.fresh + (n + m) }
  rw [Nat.add_assoc]

/-- All rows come from commits; besides them, identifiers are drawn. -/
theorem rows_replayed {d₀ : Db} {ok : HomiState → Action Call → Prop} {s : HomiState}
    (h : Run (homiFrom env d₀) ok s) : ∃ n, s.db = tick n (replayed d₀ s.wal) := by
  induction h with
  | init => exact ⟨0, rfl⟩
  | @step s s' a _ _ hstep ih =>
    obtain ⟨n, hdb⟩ := ih
    cases moves_of_step hstep with
    | start c hadm => exact ⟨n, hdb⟩
    | query p now pr next hp hprog => exact ⟨n, hdb⟩
    | emit p now pr hint next hp hprog => exact ⟨n, hdb⟩
    | kill p pr hp hrun => exact ⟨n, hdb⟩
    | stmt p now pr act next hp hprog hfree =>
      refine ⟨n + (act (pr.tx.view s.db now)).ids, ?_⟩
      show tick (act (pr.tx.view s.db now)).ids s.db = tick _ (replayed d₀ s.wal)
      generalize (act (pr.tx.view s.db now)).ids = m
      rw [hdb, tick_tick]
    | commit p now pr next hp hprog =>
      refine ⟨n, ?_⟩
      show pr.tx.writes.apply s.db = tick n (replayed d₀ (s.wal ++ [⟨p, pr.call, pr.seen, pr.tx, s.db⟩]))
      rw [replayed, List.foldl_append, ← replayed, hdb]
      rfl

/-- Keyed mutations take effect once. -/
structure KeysOnce (env : Env) (s : HomiState) : Prop where
  /-- At most one call with the key commits, and only once. -/
  once : ∀ id, s.wal.Pairwise fun c c' => ¬ (c.call.HasKey env id ∧ c'.call.HasKey env id)
  /-- Its commit inserts the row of the key, which stays. -/
  row : ∀ c ∈ s.wal, ∀ id hash, c.call.keyed env = some (id, hash) → ∃ response,
    c.tx.writes.Stores id hash response ∧ c.before.keyRow id = none ∧
    s.db.keyRow id = some ⟨hash, response⟩
  /-- Every success replies with that row. -/
  replies : ∀ (p : ℕ) (pr : Proc Db Writes LockKey Note Hint Reply Call), s.procs[p]? = some pr →
    ∀ id hash, pr.call.keyed env = some (id, hash) → ∀ outcome, pr.prog = .done (.success outcome) →
    ∃ response, outcome = .response response ∧ s.db.keyRow id = some ⟨hash, response⟩
  /-- A call with another request commits nothing, nor does one that fails. -/
  conflicts : ∀ (p : ℕ) (pr : Proc Db Writes LockKey Note Hint Reply Call), s.procs[p]? = some pr →
    ∀ id hash row, pr.call.keyed env = some (id, hash) → s.db.keyRow id = some row →
    row.requestHash ≠ hash → ∀ c ∈ s.wal, c.pid ≠ p
  failed : ∀ (p : ℕ) (pr : Proc Db Writes LockKey Note Hint Reply Call), s.procs[p]? = some pr →
    (pr.call.keyed env).isSome = true → ∀ err, pr.prog = .done (.failure err) →
    ∀ c ∈ s.wal, c.pid ≠ p
  /-- What did not commit left nothing behind, and the key is free. -/
  rows : ∃ n, s.db = tick n (replayed Db.empty s.wal)
  retries : ∀ id, (∀ c ∈ s.wal, ¬ c.call.HasKey env id) → s.db.keyRow id = none ∧
    ∀ hash, findStoredResponse s.db id hash = .ok none

/-- The key table holds what the commits have stored. -/
theorem keyRow_replayed {wal : List HomiCommit} (h : ∀ c ∈ wal, Known env c ∧
      (keysProtocol env).guar c.call c.seen c.tx c.before) {d : Db} {id : KeyId}
    (hd : d.keyRow id = none) (hno : ∀ c ∈ wal, ¬ c.call.HasKey env id) :
    (replayed d wal).keyRow id = none := by
  induction wal generalizing d with
  | nil => exact hd
  | cons c wal ih =>
    refine ih (fun c hc => h c (List.mem_cons_of_mem _ hc)) ?_
      fun c hc => hno c (List.mem_cons_of_mem _ hc)
    obtain ⟨hk, hg⟩ := h c (List.mem_cons_self ..)
    cases hkeyed : c.call.keyed env with
    | none =>
      have hspare : c.tx.writes.Spares .idempotencyKeys :=
        hk.within.tables _ (spares_of_unkeyed hkeyed)
      show (d.idempotencyKeys.patch c.tx.writes.idempotencyKeys).lookup id = none
      rw [show c.tx.writes.idempotencyKeys = [] from hspare]
      exact hd
    | some x =>
      obtain ⟨response, hstores, _⟩ := hg x.1 x.2 hkeyed
      rw [keyRow_apply hstores, if_neg]
      · exact hd
      · intro heq
        exact hno c (List.mem_cons_self ..) (heq ▸ hasKey_of_keyed hkeyed)

/-- In every run, each key takes effect at most once. -/
theorem keys_once (env : Env) (s : HomiState) (h : HomiReachable env s) : KeysOnce env s := by
  have hholds : (keysProtocol env).Holds s :=
    holds_of_known keys_lawful (fun _ _ _ _ _ => trivial) (fun _ _ => trivial) h
  have hguar : ∀ c ∈ s.wal, Known env c ∧ (keysProtocol env).guar c.call c.seen c.tx c.before :=
    fun c hc => ⟨known_reachable h c hc, (hholds.commits c hc).2⟩
  -- the row of a committed key, after the commit
  have hafter : ∀ c ∈ s.wal, ∀ id hash, c.call.keyed env = some (id, hash) → ∃ response,
      c.tx.writes.Stores id hash response ∧ c.before.keyRow id = none ∧
      c.after.keyRow id = some ⟨hash, response⟩ := by
    intro c hc id hash hkeyed
    obtain ⟨response, hstores, hnone⟩ := (hguar c hc).2 id hash hkeyed
    refine ⟨response, hstores, hnone, ?_⟩
    show (c.tx.writes.apply c.before).keyRow id = _
    rw [keyRow_apply hstores, if_pos rfl]
  have hrow : ∀ c ∈ s.wal, ∀ id hash, c.call.keyed env = some (id, hash) → ∃ response,
      c.tx.writes.Stores id hash response ∧ c.before.keyRow id = none ∧
      s.db.keyRow id = some ⟨hash, response⟩ := by
    intro c hc id hash hkeyed
    obtain ⟨response, hstores, hnone, hstored⟩ := hafter c hc id hash hkeyed
    exact ⟨response, hstores, hnone, (hholds.past c hc).2 _ _ hstored⟩
  obtain ⟨n, hdb⟩ := rows_replayed (show Run (homiFrom env Db.empty) _ s from h)
  refine ⟨fun id => ?_, hrow, fun p pr hp id hash hkeyed outcome hprog => ?_,
    fun p pr hp id hash row hkeyed hstored hne c hc hpid => ?_,
    fun p pr hp hkeyed err hprog => ?_, ⟨n, hdb⟩, fun id hno => ?_⟩
  · refine hholds.order.imp_of_mem ?_
    -- the first commit has stored the row that the second must not find
    rintro c c' hc hc' hrely ⟨hkey, hkey'⟩
    obtain ⟨hash, hkeyed⟩ := hkey.keyed
    obtain ⟨hash', hkeyed'⟩ := hkey'.keyed
    obtain ⟨_, _, _, hstored⟩ := hafter c hc id hash hkeyed
    obtain ⟨_, _, hnone, _⟩ := hafter c' hc' id hash' hkeyed'
    rw [hrely.2 _ _ hstored] at hnone
    cases hnone
  · obtain ⟨hsafe, hrely⟩ := hholds.procs p pr hp
    -- a reply carries the stored response
    rw [hprog] at hsafe
    obtain ⟨response, houtcome, hstored⟩ := hsafe id hash hkeyed outcome rfl
    exact ⟨response, houtcome, hrely.2 _ _ hstored⟩
  · -- another hash is stored, so this process has not committed
    obtain ⟨pr', hp', hcall⟩ := Run.commit_call h c hc
    rw [hpid, hp] at hp'
    cases hp'
    rw [hcall] at hkeyed
    obtain ⟨response, _, _, hrow'⟩ := hrow c hc id hash hkeyed
    rw [hstored] at hrow'
    cases hrow'
    exact hne rfl
  · obtain ⟨x, hkeyed⟩ := Option.isSome_iff_exists.mp hkeyed
    exact failed_commits_nothing (show Run (homiFrom env Db.empty) _ s from h) hp (isRequest_of_keyed hkeyed) hprog
  · -- no commit of the key leaves no row
    have hnone : s.db.keyRow id = none := by
      rw [hdb]
      exact keyRow_replayed hguar rfl hno
    refine ⟨hnone, fun hash => ?_⟩
    unfold findStoredResponse
    rw [show s.db.idempotencyKeys.lookup id = none from hnone]

/-- The call of the process has returned a success. -/
def succeeded (s : HomiState) (p : ℕ) : Bool :=
  s.procs[p]?.any fun pr => match pr.prog with
    | .done (.success _) => true
    | _ => false

/-- A double tap. Both lookups find nothing, the first call commits, and the
    second one runs into its key. -/
def doubleTap : List (Action Call) :=
  serial 1000 0 opening ++
    [.start (.createExpense theHouse ann (sampleUuid 200) (dinner 1000 [ann])),
      .start (.createExpense theHouse ann (sampleUuid 200) (dinner 1000 [ann]))] ++
    List.replicate 2 (.run 4 1000) ++ List.replicate 12 (.run 3 1000) ++
    List.replicate 9 (.run 4 1000)

theorem keys_once_doubleTap : ∃ s : HomiState, s.wal.length = 4 ∧ succeeded s 3 = true ∧
    succeeded s 4 = true ∧ KeysOnce sampleEnv s := by
  obtain ⟨s, hrun, hs⟩ := Run.exists_of_drive (homi sampleEnv) doubleTap
    (fun s => s.wal.length = 4 ∧ succeeded s 3 = true ∧ succeeded s 4 = true) (by decide +kernel)
  obtain ⟨hlen, hfirst, hsecond⟩ := of_decide_eq_true hs
  exact ⟨s, hlen, hfirst, hsecond, keys_once sampleEnv s hrun⟩

end Homi
