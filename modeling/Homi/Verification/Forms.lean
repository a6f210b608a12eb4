import Homi.Mobile.Forms
import Homi.Verification.Keys

/-! # Forms and their server

  A form remembers the key of its last body only. As long as it takes no
  new key for a body whose earlier request may still take effect, the
  server commits each body at most once.

  The invariant is that of two requests with one body that can both take
  effect, both carry the same key; the server does the rest.
-/

namespace Homi.Mobile

open ReadCommitted

section forms

variable {β : Type} {env : Env} {form : Form β} {s s' : FormState β}

/-! ## Section 1: What a form has posted -/

/-- The commit is that of a request of the form with this body. -/
def posts (form : Form β) (s : FormState β) (body : JsString) (c : HomiCommit) : Bool :=
  s.sent.any fun x => decide (x.pid = some c.pid) && decide (form.stringify x.input = body)

/-- Each body was committed at most once. -/
def PostedOnce (form : Form β) (s : FormState β) : Prop :=
  ∀ body, (s.server.wal.filter (posts form s body)).length ≤ 1

theorem posts_iff {body : JsString} {c : HomiCommit} :
    posts form s body c = true ↔
      ∃ x ∈ s.sent, x.pid = some c.pid ∧ form.stringify x.input = body := by
  simp [posts]

/-- The request has been served and has committed nothing. -/
def Spent (server : HomiState) (x : Sent β) : Prop :=
  ∃ p pr r, x.pid = some p ∧ server.procs[p]? = some pr ∧ pr.prog = .done r ∧
    ∀ c ∈ server.wal, c.pid ≠ p

/-- A tap does not take a new key for a body while an earlier request with
    this body has committed or may still do so. -/
def KeepsKey (form : Form β) (s : FormState β) (a : FormAction β) : Prop :=
  ∀ mint input, a = .submit mint → s.input = some input →
    (∀ p, s.pending = some p → p.body ≠ form.stringify input) →
    ∀ x ∈ s.sent, form.stringify x.input = form.stringify input → Spent s.server x

/-- All requests with one key meet in one row of the key table. -/
def Form.Keyed (env : Env) (form : Form β) : Prop :=
  ∀ key, ∃ id, ∀ input, (form.request key input).HasKey env id

theorem addExpenseForm_keyed (env : Env) (houseId : JsString) (viewerId : Uuid) :
    (AddExpenseForm houseId viewerId).Keyed env :=
  fun key => ⟨⟨toUuid key, viewerId, .createExpense⟩, fun _ => rfl⟩

theorem settleUpForm_keyed (env : Env) (houseId : JsString) (viewerId : Uuid) :
    (SettleUpForm houseId viewerId).Keyed env :=
  fun key => ⟨⟨toUuid key, viewerId, .recordPayment⟩, fun _ => rfl⟩

/-! ## Section 2: What the server does with a process -/

/-- A process keeps its call, and when it is done it stays so and commits
    nothing more. -/
theorem proc_step {s s' : HomiState} {a : Action Call} (h : step (homi env) s a = some s') {p : ℕ}
    {pr : Proc Db Writes LockKey Note Hint Reply Call} (hp : s.procs[p]? = some pr) :
    (∃ pr', s'.procs[p]? = some pr' ∧ pr'.call = pr.call) ∧
    ∀ r, pr.prog = .done r → s'.procs[p]? = some pr ∧
      ∀ c ∈ s'.wal, c ∈ s.wal ∨ c.pid ≠ p := by
  -- another process, or this one, which is not done, goes on
  have hset : ∀ (q : ℕ) (qr qr' : Proc Db Writes LockKey Note Hint Reply Call),
      s.procs[q]? = some qr → qr'.call = qr.call → (∀ r, qr.prog ≠ .done r) →
      (∃ pr', (s.procs.set q qr')[p]? = some pr' ∧ pr'.call = pr.call) ∧
      ∀ r, pr.prog = .done r → (s.procs.set q qr')[p]? = some pr ∧ q ≠ p := by
    intro q qr qr' hq hcall hrun
    by_cases hqp : q = p
    · subst hqp
      rw [hp] at hq
      cases hq
      have hlt := (List.getElem?_eq_some_iff.mp hp).1
      exact ⟨⟨qr', List.getElem?_set_self hlt, hcall⟩, fun r hr => absurd hr (hrun r)⟩
    · rw [List.getElem?_set_ne hqp]
      exact ⟨⟨pr, hp, rfl⟩, fun r _ => ⟨hp, hqp⟩⟩
  cases moves_of_step h with
  | start c hadm =>
    have hlt := (List.getElem?_eq_some_iff.mp hp).1
    have hsame : (s.procs ++ [Proc.fresh c s.db ((homi env).code c)])[p]? = some pr := by
      rw [List.getElem?_append_left hlt]
      exact hp
    exact ⟨⟨pr, hsame, rfl⟩, fun r _ => ⟨hsame, fun c hc => .inl hc⟩⟩
  | query q now qr next hq hprog =>
    obtain ⟨hcall, hdone⟩ := hset q qr (Proc.resume { qr with seen := s.db } s.db qr.tx
      (next (qr.tx.view s.db now))) hq (by rw [Proc.resume_call]) (by simp [hprog])
    exact ⟨hcall, fun r hr => ⟨(hdone r hr).1, fun c hc => .inl hc⟩⟩
  | stmt q now qr act next hq hprog hfree =>
    obtain ⟨hcall, hdone⟩ := hset q qr _ hq (Proc.resume_call ..) (by simp [hprog])
    exact ⟨hcall, fun r hr => ⟨(hdone r hr).1, fun c hc => .inl hc⟩⟩
  | emit q now qr hint next hq hprog =>
    obtain ⟨hcall, hdone⟩ := hset q qr _ hq (Proc.resume_call ..) (by simp [hprog])
    exact ⟨hcall, fun r hr => ⟨(hdone r hr).1, fun c hc => .inl hc⟩⟩
  | kill q qr hq hrun =>
    obtain ⟨hcall, hdone⟩ := hset q qr _ hq (Proc.resume_call ..) hrun
    exact ⟨hcall, fun r hr => ⟨(hdone r hr).1, fun c hc => .inl hc⟩⟩
  | commit q now qr next hq hprog =>
    obtain ⟨hcall, hdone⟩ := hset q qr _ hq (Proc.resume_call ..) (by simp [hprog])
    refine ⟨hcall, fun r hr => ⟨(hdone r hr).1, fun c hc => ?_⟩⟩
    rcases List.mem_append.mp hc with hc | hc
    · exact .inl hc
    · rw [List.mem_singleton.mp hc]
      exact .inr (hdone r hr).2

theorem Spent.step {server server' : HomiState} {a : Action Call} {x : Sent β}
    (hspent : Spent server x) (h : step (homi env) server a = some server') : Spent server' x := by
  obtain ⟨p, pr, r, hpid, hp, hdone, hno⟩ := hspent
  obtain ⟨hp', hwal⟩ := (proc_step h hp).2 r hdone
  refine ⟨p, pr, r, hpid, hp', hdone, fun c hc => ?_⟩
  rcases hwal c hc with hc | hne
  · exact hno c hc
  · exact hne

/-! ## Section 3: The invariant -/

/-- Two requests carry one key, unless one of them is spent. -/
def OneKey (server : HomiState) (x y : Sent β) : Prop :=
  x.request.key = y.request.key ∨ Spent server x ∨ Spent server y

/-- What holds while a form is mounted. -/
structure FormInv (env : Env) (form : Form β) (s : FormState β) : Prop where
  reachable : HomiReachable env s.server
  served : ∀ x ∈ s.sent, ∀ p, x.pid = some p → ∃ pr, s.server.procs[p]? = some pr ∧
    pr.call = form.request x.request.key x.input
  body : ∀ x ∈ s.sent, x.request.body = form.stringify x.input
  keys : ∀ x ∈ s.sent, ∀ y ∈ s.sent, x.request.body = y.request.body → OneKey s.server x y
  pending : ∀ p, s.pending = some p → ∀ x ∈ s.sent, x.request.body = p.body →
    x.request.key = p.key ∨ Spent s.server x

theorem formInv_mounted {server : HomiState} (h : HomiReachable env server) :
    FormInv env form (mounted server) where
  reachable := h
  served := by intro x hx; cases hx
  body := by intro x hx; cases hx
  keys := by intro x hx; cases hx
  pending := by intro p hp; cases hp

/-- The server goes on. -/
theorem FormInv.server (hinv : FormInv env form s) {a : Action Call} {server : HomiState}
    (h : step (homi env) s.server a = some server) : FormInv env form { s with server := server } where
  reachable := .step a hinv.reachable trivial h
  served := by
    intro x hx p hpid
    obtain ⟨pr, hp, hcall⟩ := hinv.served x hx p hpid
    obtain ⟨pr', hp', hcall'⟩ := (proc_step h hp).1
    exact ⟨pr', hp', hcall'.trans hcall⟩
  body := hinv.body
  keys := by
    intro x hx y hy hbody
    rcases hinv.keys x hx y hy hbody with hkey | hspent | hspent
    · exact .inl hkey
    · exact .inr (.inl (hspent.step h))
    · exact .inr (.inr (hspent.step h))
  pending := by
    intro p hp x hx hbody
    rcases hinv.pending p hp x hx hbody with hkey | hspent
    · exact .inl hkey
    · exact .inr (hspent.step h)

/-- The form waits no more, and may forget its key. -/
theorem FormInv.settle (hinv : FormInv env form s) {pending : Option PendingRequest}
    (h : ∀ p, pending = some p → s.pending = some p) {awaited : Option ℕ} {closed : Bool} :
    FormInv env form { s with pending := pending, awaited := awaited, closed := closed } where
  reachable := hinv.reachable
  served := hinv.served
  body := hinv.body
  keys := hinv.keys
  pending := fun p hp => hinv.pending p (h p hp)

/-- A request is on its way. -/
theorem FormInv.submit (hinv : FormInv env form s) {mint : JsString} {input : β}
    (hinput : s.input = some input) (hok : KeepsKey form s (.submit mint)) {awaited : Option ℕ} :
    FormInv env form { s with
      pending := some (bindIdempotencyKey s.pending (form.stringify input) mint)
      awaited := awaited
      sent := s.sent ++ [⟨bindIdempotencyKey s.pending (form.stringify input) mint, input, none⟩] } := by
  generalize hbound : bindIdempotencyKey s.pending (form.stringify input) mint = bound
  have hbody : bound.body = form.stringify input := by
    rw [← hbound]
    unfold bindIdempotencyKey
    split
    · next p hp =>
      split
      · next heq => exact heq
      · rfl
    · rfl
  -- what was sent with this body before is spent, or had this key
  have hearlier : ∀ x ∈ s.sent, x.request.body = bound.body →
      x.request.key = bound.key ∨ Spent s.server x := by
    intro x hx heq
    -- the pending key is kept for this body, or a new one is minted
    by_cases hkept : ∃ p, s.pending = some p ∧ p.body = form.stringify input
    · obtain ⟨p, hp, hsame⟩ := hkept
      have hpb : p = bound := by rw [← hbound, hp]; exact (if_pos hsame).symm
      exact hpb ▸ hinv.pending p hp x hx (heq.trans (hpb ▸ rfl))
    · have hnew : ∀ p, s.pending = some p → p.body ≠ form.stringify input :=
        fun p hp hsame => hkept ⟨p, hp, hsame⟩
      exact .inr (hok mint input rfl hinput hnew x hx ((hinv.body x hx).symm.trans (heq.trans hbody)))
  refine ⟨hinv.reachable, ?_, ?_, ?_, ?_⟩
  · -- the new request has no process yet
    intro x hx p hpid
    rcases List.mem_append.mp hx with hx | hx
    · exact hinv.served x hx p hpid
    · rw [List.mem_singleton.mp hx] at hpid
      cases hpid
  · intro x hx
    rcases List.mem_append.mp hx with hx | hx
    · exact hinv.body x hx
    · rw [List.mem_singleton.mp hx]
      exact hbody
  · -- two requests with one body: both old, one new, or both new
    intro x hx y hy heq
    rcases List.mem_append.mp hx with hx | hx <;> rcases List.mem_append.mp hy with hy | hy
    · exact hinv.keys x hx y hy heq
    · rw [List.mem_singleton.mp hy] at heq ⊢
      exact (hearlier x hx heq).imp_right .inl
    · rw [List.mem_singleton.mp hx] at heq ⊢
      exact (hearlier y hy heq.symm).imp Eq.symm .inr
    · rw [List.mem_singleton.mp hx, List.mem_singleton.mp hy]
      exact .inl rfl
  · intro p hp x hx heq
    cases hp
    rcases List.mem_append.mp hx with hx | hx
    · exact hearlier x hx heq
    · rw [List.mem_singleton.mp hx]
      exact .inl rfl

/-- A request has arrived. -/
theorem FormInv.arrive (hinv : FormInv env form s) {i : ℕ} {x : Sent β} (hx : s.sent[i]? = some x)
    (hpid : x.pid = none) {server : HomiState}
    (h : step (homi env) s.server (.start (form.request x.request.key x.input)) = some server) :
    FormInv env form { s with
      server := server
      sent := s.sent.set i { x with pid := some s.server.procs.length } } := by
  have hserver := hinv.server h
  have hmem : x ∈ s.sent := List.mem_of_getElem? hx
  -- nothing but the process of `x` has changed, and `x` was not spent
  have hold : ∀ y ∈ s.sent.set i { x with pid := some s.server.procs.length },
      ∃ z ∈ s.sent, z.request = y.request ∧ z.input = y.input ∧ (Spent server z → Spent server y) := by
    intro y hy
    obtain ⟨j, hj⟩ := List.mem_iff_getElem?.mp hy
    rcases getElem?_set_cases hj with ⟨_, rfl⟩ | ⟨_, hj⟩
    · refine ⟨x, hmem, rfl, rfl, ?_⟩
      rintro ⟨p, _, _, hp, _⟩
      rw [hpid] at hp
      cases hp
    · exact ⟨y, List.mem_of_getElem? hj, rfl, rfl, id⟩
  refine ⟨hserver.reachable, ?_, ?_, ?_, ?_⟩
  · intro y hy p hp
    obtain ⟨j, hj⟩ := List.mem_iff_getElem?.mp hy
    rcases getElem?_set_cases hj with ⟨_, rfl⟩ | ⟨_, hj⟩
    · cases hp
      cases moves_of_step h with
      | start c hadm =>
        refine ⟨_, List.getElem?_concat_length, ?_⟩
        exact Proc.resume_call ..
    · exact hserver.served y (List.mem_of_getElem? hj) p hp
  · intro y hy
    obtain ⟨z, hz, hreq, hin, _⟩ := hold y hy
    rw [← hreq, ← hin]
    exact hserver.body z hz
  · intro y hy y' hy' heq
    obtain ⟨z, hz, hreq, _, hspent⟩ := hold y hy
    obtain ⟨z', hz', hreq', _, hspent'⟩ := hold y' hy'
    rw [← hreq, ← hreq'] at heq
    have hone := hserver.keys z hz z' hz' heq
    rw [OneKey, hreq, hreq'] at hone
    exact hone.imp_right (Or.imp hspent hspent')
  · intro p hp y hy heq
    obtain ⟨z, hz, hreq, _, hspent⟩ := hold y hy
    rw [← hreq] at heq
    have hone := hserver.pending p hp z hz heq
    rw [hreq] at hone
    exact hone.imp_right hspent

theorem formInv_step (hinv : FormInv env form s) {a : FormAction β} (hok : KeepsKey form s a)
    (h : formStep env form s a = some s') : FormInv env form s' := by
  cases a with
  | server a =>
    obtain ⟨server, hserver, rfl⟩ := Option.map_eq_some_iff.mp h
    exact hinv.server hserver
  | edit input =>
    cases h
    exact ⟨hinv.reachable, hinv.served, hinv.body, hinv.keys, hinv.pending⟩
  | submit mint =>
    change s.submit form mint = some s' at h
    unfold FormState.submit at h
    split at h
    · cases h
    · obtain ⟨input, hinput, rfl⟩ := Option.map_eq_some_iff.mp h
      exact hinv.submit hinput hok
  | arrive i =>
    obtain ⟨x, hx, h⟩ := Option.bind_eq_some_iff.mp h
    split at h
    · cases h
    · next hpid =>
      obtain ⟨server, hserver, h⟩ := Option.bind_eq_some_iff.mp h
      cases h
      exact hinv.arrive hx (Option.not_isSome_iff_eq_none.mp hpid) hserver
  | respond =>
    obtain ⟨r, _, h⟩ := Option.bind_eq_some_iff.mp h
    cases r with
    | success outcome =>
      cases h
      exact hinv.settle fun p hp => by cases hp
    | failure err =>
      cases h
      refine hinv.settle fun p hp => ?_
      split at hp
      · cases hp
      · exact hp
    | stopped => cases h
  | unreachable =>
    change (if s.awaited.isSome then some { s with awaited := none } else none) = some s' at h
    split at h
    · cases h
      exact hinv.settle fun p hp => hp
    · cases h

theorem formInv_run (h : FormRun env form (KeepsKey form) s) : FormInv env form s := by
  induction h with
  | mount h => exact formInv_mounted h
  | step a _ hok hstep ih => exact formInv_step ih hok hstep

/-! ## Section 4: Each body is posted once -/

/-- Where no two elements of a list both pass a test, at most one does. -/
theorem length_filter_le_one {α : Type} {l : List α} {p : α → Bool}
    (h : l.Pairwise fun a b => ¬ (p a = true ∧ p b = true)) : (l.filter p).length ≤ 1 := by
  have hpass : ∀ a ∈ l.filter p, p a = true := fun a ha => (List.mem_filter.mp ha).2
  have hpair := h.filter p
  rcases hl : l.filter p with _ | ⟨a, _ | ⟨b, rest⟩⟩
  · exact Nat.zero_le 1
  · exact le_rfl
  · rw [hl] at hpass hpair
    have hab := List.rel_of_pairwise_cons hpair (List.mem_cons_self ..)
    exact absurd ⟨hpass a (List.mem_cons_self ..), hpass b (by simp)⟩ hab

/-- A request that has committed is not spent. -/
theorem not_spent {x : Sent β} {c : HomiCommit} (hc : c ∈ s.server.wal) (hpid : x.pid = some c.pid) :
    ¬ Spent s.server x := by
  rintro ⟨p, _, _, hp, _, _, hno⟩
  rw [hpid] at hp
  cases hp
  exact hno c hc rfl

theorem FormInv.postedOnce (hinv : FormInv env form s) (hkeyed : form.Keyed env) :
    PostedOnce form s := by
  intro body
  refine length_filter_le_one ?_
  by_cases hposted : ∃ c ∈ s.server.wal, posts form s body c = true
  · obtain ⟨c₀, hc₀, hposts₀⟩ := hposted
    obtain ⟨x₀, hx₀, hpid₀, hbody₀⟩ := posts_iff.mp hposts₀
    obtain ⟨id, hid⟩ := hkeyed x₀.request.key
    -- whatever posts the body has the key of `c₀`
    have hkey : ∀ c ∈ s.server.wal, posts form s body c = true → c.call.HasKey env id := by
      intro c hc hposts
      obtain ⟨x, hx, hpid, hbody⟩ := posts_iff.mp hposts
      have hsame : x.request.body = x₀.request.body :=
        ((hinv.body x hx).trans (hbody.trans hbody₀.symm)).trans (hinv.body x₀ hx₀).symm
      have hone : x.request.key = x₀.request.key := by
        rcases hinv.keys x hx x₀ hx₀ hsame with hkey | hspent | hspent
        · exact hkey
        · exact absurd hspent (not_spent hc hpid)
        · exact absurd hspent (not_spent hc₀ hpid₀)
      obtain ⟨pr, hp, hcall⟩ := hinv.served x hx c.pid hpid
      obtain ⟨pr', hp', hcall'⟩ := Run.commit_call hinv.reachable c hc
      rw [hp] at hp'
      cases hp'
      rw [← hcall', hcall, hone]
      exact hid x.input
    refine ((keys_once env s.server hinv.reachable).once id).imp_of_mem ?_
    rintro c c' hc hc' honce ⟨hposts, hposts'⟩
    exact honce ⟨hkey c hc hposts, hkey c' hc' hposts'⟩
  · exact List.pairwise_of_forall_mem_list fun c hc _ _ hboth => hposted ⟨c, hc, hboth.1⟩

/-- The server commits each body of a form at most once, as long as no tap
    takes a new key for a body that may still take effect. -/
theorem forms_post_once (env : Env) (houseId : JsString) (viewerId : Uuid) :
    (∀ s, FormRun env (AddExpenseForm houseId viewerId) (KeepsKey (AddExpenseForm houseId viewerId)) s →
      PostedOnce (AddExpenseForm houseId viewerId) s) ∧
    ∀ s, FormRun env (SettleUpForm houseId viewerId) (KeepsKey (SettleUpForm houseId viewerId)) s →
      PostedOnce (SettleUpForm houseId viewerId) s :=
  ⟨fun _ h => (formInv_run h).postedOnce (addExpenseForm_keyed env houseId viewerId),
    fun _ h => (formInv_run h).postedOnce (settleUpForm_keyed env houseId viewerId)⟩

end forms

/-! ## Section 5: Two sessions -/

/-- A body of the form of `ann`. -/
def lunch (amountCents : ℤ) : CreateExpenseInput where
  description := js "lunch"
  amountCents := amountCents
  paidBy := ann
  mode := .equal
  participants := [ann]

/-- The opening, before the form is mounted in `theHouse`. -/
def opened {β : Type} : List (FormAction β) := (serial 1000 0 opening).map .server

/-- The response of the first tap is lost, and the second one replays it. -/
def lostResponse : List (FormAction CreateExpenseInput) :=
  opened ++ [.edit (some (lunch 900)), .submit (sampleUuid 200), .arrive 0] ++
    List.replicate 12 (.server (.run 3 1000)) ++
    [.unreachable, .submit (sampleUuid 201), .arrive 1] ++
    List.replicate 2 (.server (.run 4 1000)) ++ [.respond]

/-- A tap takes no second key. -/
def oneKey {β : Type} (form : Form β) (s : FormState β) : FormAction β → Bool
  | .submit _ => s.sent.isEmpty || s.input.all fun input =>
      s.pending.any fun p => p.body = form.stringify input
  | _ => true

theorem keepsKey_of_oneKey {β : Type} {form : Form β} (s : FormState β) (a : FormAction β)
    (h : oneKey form s a = true) : KeepsKey form s a := by
  rintro mint input rfl hinput hnew x hx _
  rcases Bool.or_eq_true_iff.mp h with hnil | hkept
  · rw [List.isEmpty_iff.mp hnil] at hx
    cases hx
  · rw [hinput] at hkept
    obtain ⟨p, hp, hsame⟩ := (Option.any_eq_true _ _).mp hkept
    exact absurd (of_decide_eq_true hsame) (hnew p hp)

theorem forms_post_once_lostResponse : ∃ s : FormState CreateExpenseInput,
    s.sent.length = 2 ∧ s.closed = true ∧ PostedOnce (AddExpenseForm theHouse ann) s := by
  have hdrive : (formDrive sampleEnv (AddExpenseForm theHouse ann) (oneKey (AddExpenseForm theHouse ann))
      (mounted (homi sampleEnv).initial) lostResponse).any
        (fun s => s.sent.length = 2 && s.closed) = true := by decide +kernel
  obtain ⟨s, hs, hend⟩ := (Option.any_eq_true _ _).mp hdrive
  obtain ⟨hlen, hclosed⟩ := Bool.and_eq_true_iff.mp hend
  have hrun := FormRun.drive keepsKey_of_oneKey (.mount .init) hs
  exact ⟨s, of_decide_eq_true hlen, hclosed, (forms_post_once sampleEnv theHouse ann).1 s hrun⟩

/-- The amount is changed and changed back while nothing has come back. -/
def changedBack : List (FormAction CreateExpenseInput) :=
  opened ++ [.edit (some (lunch 900)), .submit (sampleUuid 200), .arrive 0] ++
    List.replicate 12 (.server (.run 3 1000)) ++
    [.unreachable, .edit (some (lunch 800)), .submit (sampleUuid 201), .unreachable,
      .edit (some (lunch 900)), .submit (sampleUuid 202), .arrive 2] ++
    List.replicate 12 (.server (.run 4 1000)) ++ [.respond]

/-- Going back to an earlier body takes a new key, and posts it again. -/
theorem changed_back_posts_twice : ∃ s : FormState CreateExpenseInput,
    FormRun sampleEnv (AddExpenseForm theHouse ann) (fun _ _ => True) s ∧
    (s.sent.map fun x => x.request.key) = [sampleUuid 200, sampleUuid 201, sampleUuid 202] ∧
    ¬ PostedOnce (AddExpenseForm theHouse ann) s := by
  have hdrive : (formDrive sampleEnv (AddExpenseForm theHouse ann) (fun _ _ => true)
      (mounted (homi sampleEnv).initial) changedBack).any
        (fun s => decide ((s.sent.map fun x => x.request.key) =
            [sampleUuid 200, sampleUuid 201, sampleUuid 202]) &&
          decide ((s.server.wal.filter
            (posts (AddExpenseForm theHouse ann) s (lunch 900).stringify)).length = 2)) = true := by
    decide +kernel
  obtain ⟨s, hs, hend⟩ := (Option.any_eq_true _ _).mp hdrive
  obtain ⟨hkeys, htwo⟩ := Bool.and_eq_true_iff.mp hend
  refine ⟨s, .drive (fun _ _ _ => trivial) (.mount .init) hs, of_decide_eq_true hkeys, fun hposted => ?_⟩
  have hle := hposted (lunch 900).stringify
  rw [of_decide_eq_true htwo] at hle
  exact absurd hle (by decide)

end Homi.Mobile
