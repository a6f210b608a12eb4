import Homi.Framework.Interference

/-! # What a call puts out

  The commits and the messages of one call, in their order, and rules for
  what a program can put out. Nothing here depends on what the others do:
  a program is followed through every database it can meet.
-/

namespace ReadCommitted

variable {D W κ ν H R C ε α E : Type} [WriteSet W κ]

/-- What others can see of a call: its commits and its messages. -/
inductive Output (W κ ν H : Type) where
  | commit (tx : Tx W κ ν)
  | hint (h : H)

/-! ## Section 1: Programs -/

section programs

variable [Store D W κ]

/-- What is asked of the output of a call.

    * `ok`: of the output at any time.
    * `rest`: of the output when the call goes on to read.
    * `post`: of the whole output, with the reply. -/
structure OutputSpec (W κ ν H R : Type) where
  ok : List (Output W κ ν H) → Prop
  rest : List (Output W κ ν H) → Prop
  post : List (Output W κ ν H) → R → Prop

/-- Whatever the program reads, it puts out what `S` asks for. `out` is what
    it put out so far, `tx` its open transaction. -/
def Prog.Tells (S : OutputSpec W κ ν H R) :
    Prog D W κ ν H R → Tx W κ ν → List (Output W κ ν H) → Prop
  | .done r, _, out => S.post out r
  | .query next, tx, out => S.rest out ∧ ∀ (d : D) now, (next (tx.view d now)).Tells S tx out
  | .stmt act next, tx, out => S.rest out ∧ ∀ (d : D) now,
      (next (tx.view d now)).Tells S (tx.add (act (tx.view d now))) out
  | .rollback next, _, out => S.rest out ∧ next.Tells S Tx.empty out
  | .commit next, tx, out =>
      S.ok (out ++ [.commit tx]) ∧ next.Tells S Tx.empty (out ++ [.commit tx])
  | .emit h next, tx, out => S.ok (out ++ [.hint h]) ∧ next.Tells S tx (out ++ [.hint h])

/-- A specification that asks for nothing. -/
theorem Prog.tells_trivial {S : OutputSpec W κ ν H R} (hok : ∀ out, S.ok out)
    (hrest : ∀ out, S.rest out) (hpost : ∀ out r, S.post out r) (prog : Prog D W κ ν H R)
    (tx : Tx W κ ν) (out : List (Output W κ ν H)) : prog.Tells S tx out := by
  induction prog generalizing tx out with
  | done r => exact hpost out r
  | query next ih => exact ⟨hrest out, fun _ _ => ih _ _ _⟩
  | stmt act next ih => exact ⟨hrest out, fun _ _ => ih _ _ _⟩
  | rollback next ih => exact ⟨hrest out, ih _ _⟩
  | commit next ih => exact ⟨hok _, ih _ _⟩
  | emit h next ih => exact ⟨hok _, ih _ _⟩

/-- Messages before the end of a call. -/
theorem Prog.tells_emitAll {S : OutputSpec W κ ν H R} (hok : ∀ out, S.ok out) {hs : List H} {r : R}
    {tx : Tx W κ ν} {out : List (Output W κ ν H)}
    (hpost : ∀ sent : List H, S.post (out ++ sent.map .hint) r) :
    (Prog.emitAll hs (.done r : Prog D W κ ν H R)).Tells S tx out := by
  induction hs generalizing out with
  | nil =>
    have hnow := hpost []
    rw [List.map_nil, List.append_nil] at hnow
    exact hnow
  | cons h hs ih => exact ⟨hok _, ih fun sent => by simpa using hpost (h :: sent)⟩

/-- The protocol that asks for nothing. Its triples say what a transaction
    does whatever it reads. -/
def Protocol.free : Protocol D W κ ν H R C where
  inv _ := True
  rely _ _ _ := True
  guar _ _ _ _ := True
  post _ _ _ := True
  allows _ _ _ _ _ := True
  stops _ _ := True

/-- Whatever it reads, the transaction ends in `B` if it does not throw. -/
def Txn.Gives (D : Type) [Store D W κ] (m : Txn D W κ ν ε α) (B : α → Tx W κ ν → Prop) : Prop :=
  (Protocol.free (D := D) (H := Unit) (R := Unit) (C := Unit)).Triple (fun tx _ => tx = Tx.empty) m
    fun a tx _ => B a tx

/-- Whatever it reads, the transaction returns a value with `B` if it does
    not throw. -/
def Txn.Returns (B : α → Prop) : Txn D W κ ν ε α → Prop
  | .ret a => B a
  | .throw _ => True
  | .stmt _ next => ∀ v, (next v).Returns B

section returns

variable {β : Type} {B : α → Prop} {B' : β → Prop}

omit [WriteSet W κ] [Store D W κ] in
theorem Txn.returns_bind {m : Txn D W κ ν ε α} {k : α → Txn D W κ ν ε β} (hm : m.Returns B)
    (hk : ∀ a, B a → (k a).Returns B') : (m >>= k).Returns B' := by
  induction m with
  | ret a => exact hk a hm
  | throw e => trivial
  | stmt act next ih => exact fun v => ih v (hm v)

omit [WriteSet W κ] [Store D W κ] in
/-- A first part of which nothing is known. -/
theorem Txn.returns_then {m : Txn D W κ ν ε α} {k : α → Txn D W κ ν ε β}
    (hk : ∀ a, (k a).Returns B') : (m >>= k).Returns B' := by
  induction m with
  | ret a => exact hk a
  | throw e => trivial
  | stmt act next ih => exact ih

omit [WriteSet W κ] [Store D W κ] in
theorem Txn.returns_exec {act : View D → Effect W κ ν} {res : View D → Except ε α}
    (h : ∀ v a, res v = .ok a → B a) : (Txn.exec act res).Returns B := by
  intro v
  cases hres : res v with
  | ok a =>
    show (Txn.ofExcept (res v)).Returns B
    rw [hres]
    exact h v a hres
  | error e =>
    show (Txn.ofExcept (res v)).Returns B
    rw [hres]
    trivial

omit [WriteSet W κ] [Store D W κ] in
theorem Txn.returns_true (m : Txn D W κ ν ε α) : m.Returns fun _ => True := by
  induction m with
  | ret a => trivial
  | throw e => trivial
  | stmt act next ih => exact ih

/-- Only the value matters, so the walk starts anywhere. -/
theorem Txn.Returns.wp {m : Txn D W κ ν ε α} (h : m.Returns B) (tx : Tx W κ ν) (d : D) :
    (Protocol.free (D := D) (H := Unit) (R := Unit) (C := Unit)).wp m
      (fun r _ _ => ∀ a, r = .ok a → B a) tx d := by
  induction m generalizing tx d with
  | ret a =>
    intro a' heq
    cases heq
    exact h
  | throw e => exact fun _ heq => by cases heq
  | stmt act next ih => exact fun d' now _ _ => ih _ (h _) _ _

theorem Txn.Returns.gives {m : Txn D W κ ν ε α} (h : m.Returns B) : m.Gives D fun a _ => B a :=
  fun tx d _ => h.wp tx d

end returns

theorem Prog.tells_transact {S : OutputSpec W κ ν H R} {m : Txn D W κ ν ε α}
    {k : Except ε α → Prog D W κ ν H R} {B : α → Tx W κ ν → Prop} {out : List (Output W κ ν H)}
    (d : D) (h : m.Gives D B) (hrest : S.rest out)
    (hok : ∀ a tx, B a tx → S.ok (out ++ [.commit tx]) ∧
      (k (.ok a)).Tells S Tx.empty (out ++ [.commit tx]))
    (herr : ∀ e, (k (.error e)).Tells S Tx.empty out) :
    (m.transact k).Tells S Tx.empty out := by
  have hm := h Tx.empty d rfl
  clear h
  generalize (Tx.empty : Tx W κ ν) = tx at hm ⊢
  induction m generalizing tx d with
  | ret a => exact hok a tx (hm a rfl)
  | throw e => exact ⟨hrest, herr e⟩
  | stmt act next ih =>
    exact ⟨hrest, fun d' now => ih (tx.view d' now) _ _ (hm d' now trivial trivial)⟩

end programs

/-! ## Section 2: Runs -/

section runs

variable [Store D W κ]

/-- What the step `a` puts out, with the process that does. -/
def outputs (s : State D W κ ν H R C) : Action C → List (Nat × Output W κ ν H)
  | .run p _ =>
      match s.procs[p]? with
      | some pr =>
          match pr.prog with
          | .commit _ => [(p, .commit pr.tx)]
          | .emit h _ => [(p, .hint h)]
          | _ => []
      | none => []
  | _ => []

/-- A run with all it put out. -/
inductive Logged [DecidableEq κ] (sys : System D W κ ν H R C) :
    List (Nat × Output W κ ν H) → State D W κ ν H R C → Prop where
  | init : Logged sys [] sys.initial
  | step : ∀ {log s s'} a, Logged sys log s → step sys s a = some s' →
      Logged sys (log ++ outputs s a) s'

/-- The messages of all processes. -/
def messages (log : List (Nat × Output W κ ν H)) : List H :=
  log.filterMap fun x => match x.2 with
    | .hint h => some h
    | .commit _ => none

/-- What the process `p` put out. -/
def outputOf (p : Nat) (log : List (Nat × Output W κ ν H)) : List (Output W κ ν H) :=
  (log.filter fun x => x.1 = p).map Prod.snd

omit [WriteSet W κ] in
theorem outputOf_append (p : Nat) (log log' : List (Nat × Output W κ ν H)) :
    outputOf p (log ++ log') = outputOf p log ++ outputOf p log' := by
  simp [outputOf]

omit [WriteSet W κ] in
@[simp] theorem outputOf_singleton (p q : Nat) (x : Output W κ ν H) :
    outputOf p [(q, x)] = if q = p then [x] else [] := by
  by_cases h : q = p <;> simp [outputOf, h]

variable [DecidableEq κ] {sys : System D W κ ν H R C} {s : State D W κ ν H R C}
  {log : List (Nat × Output W κ ν H)}

theorem Run.logged {ok : State D W κ ν H R C → Action C → Prop} (h : Run sys ok s) :
    ∃ log, Logged sys log s := by
  induction h with
  | init => exact ⟨[], .init⟩
  | step a _ _ hstep ih =>
    obtain ⟨log, hlog⟩ := ih
    exact ⟨_, .step a hlog hstep⟩

/-- Take steps one after the other and note what they put out. -/
def driveLogged (sys : System D W κ ν H R C) (log : List (Nat × Output W κ ν H))
    (s : State D W κ ν H R C) :
    List (Action C) → Option (List (Nat × Output W κ ν H) × State D W κ ν H R C)
  | [] => some (log, s)
  | a :: as => (step sys s a).bind fun s' => driveLogged sys (log ++ outputs s a) s' as

theorem Logged.drive {as : List (Action C)} {log' : List (Nat × Output W κ ν H)}
    {s' : State D W κ ν H R C} (h : Logged sys log s)
    (hs : driveLogged sys log s as = some (log', s')) : Logged sys log' s' := by
  induction as generalizing log s with
  | nil => cases hs; exact h
  | cons a as ih =>
    obtain ⟨s₁, hstep, hrest⟩ := Option.bind_eq_some_iff.mp hs
    exact ih (.step a h hstep) hrest

/-- A run that was computed, by a fact about its log and its last state. -/
theorem Logged.exists_of_drive (sys : System D W κ ν H R C) (as : List (Action C))
    (q : List (Nat × Output W κ ν H) × State D W κ ν H R C → Bool)
    (h : (driveLogged sys [] sys.initial as).any q = true) :
    ∃ log s, Logged sys log s ∧ q (log, s) = true := by
  obtain ⟨⟨log, s⟩, hs, hq⟩ := (Option.any_eq_true _ _).mp h
  exact ⟨log, s, Logged.init.drive hs, hq⟩

theorem Logged.reachable (h : Logged sys log s) : Reachable sys s := by
  induction h with
  | init => exact .init
  | step a _ hstep ih => exact .step a ih trivial hstep

/-- A commit belongs to the call of its process. -/
theorem Run.commit_call {ok : State D W κ ν H R C → Action C → Prop} (h : Run sys ok s) :
    ∀ c ∈ s.wal, ∃ pr, s.procs[c.pid]? = some pr ∧ pr.call = c.call := by
  induction h with
  | init => exact fun c hc => by simp [System.initial] at hc
  | @step s s' a hs _ hstep ih =>
    -- the process `p` goes on with its call
    have hgo : ∀ (p : Nat) (pr pr' : Proc D W κ ν H R C), s.procs[p]? = some pr → pr'.call = pr.call →
        ∀ c ∈ s.wal, ∃ qr, (s.procs.set p pr')[c.pid]? = some qr ∧ qr.call = c.call := by
      intro p pr pr' hp hcall c hc
      obtain ⟨qr, hq, heq⟩ := ih c hc
      by_cases hpid : p = c.pid
      · subst hpid
        rw [hp] at hq
        cases hq
        have hlt := (List.getElem?_eq_some_iff.mp hp).1
        exact ⟨pr', by rw [List.getElem?_set_self hlt], hcall.trans heq⟩
      · exact ⟨qr, by rw [List.getElem?_set_ne hpid]; exact hq, heq⟩
    cases moves_of_step hstep with
    | start c hadm =>
      intro c' hc'
      obtain ⟨qr, hq, heq⟩ := ih c' hc'
      have hlt := (List.getElem?_eq_some_iff.mp hq).1
      exact ⟨qr, by rw [List.getElem?_append_left hlt]; exact hq, heq⟩
    | query p now pr next hp hprog => exact hgo p pr _ hp (Proc.resume_call ..)
    | stmt p now pr act next hp hprog hfree => exact hgo p pr _ hp (Proc.resume_call ..)
    | emit p now pr hint next hp hprog => exact hgo p pr _ hp (Proc.resume_call ..)
    | kill p pr hp hrun => exact hgo p pr _ hp (Proc.resume_call ..)
    | commit p now pr next hp hprog =>
      intro c hc
      rcases List.mem_append.mp hc with hc | hc
      · exact hgo p pr _ hp (Proc.resume_call ..) c hc
      · rw [List.mem_singleton.mp hc]
        have hlt := (List.getElem?_eq_some_iff.mp hp).1
        exact ⟨_, List.getElem?_set_self hlt, Proc.resume_call ..⟩

/-- The commits of a process, from the log of commits. -/
theorem Logged.commits (h : Logged sys log s) (p : Nat) (tx : Tx W κ ν) :
    Output.commit tx ∈ outputOf p log ↔ ∃ c ∈ s.wal, c.pid = p ∧ c.tx = tx := by
  induction h with
  | init => simp [outputOf, System.initial]
  | @step log s s' a _ hstep ih =>
    rw [outputOf_append, List.mem_append, ih]
    cases moves_of_step hstep with
    | start c hadm => simp [outputs, outputOf]
    | query q now pr next hp hprog => simp [outputs, hp, hprog, outputOf]
    | stmt q now pr act next hp hprog hfree => simp [outputs, hp, hprog, outputOf]
    | emit q now pr hint next hp hprog =>
      rw [show outputs s (.run q now) = [(q, .hint hint)] by simp [outputs, hp, hprog],
        outputOf_singleton]
      split <;> simp
    | kill q pr hp hrun => simp [outputs, outputOf]
    | commit q now pr next hp hprog =>
      simp only [outputs, hp, hprog, outputOf_singleton, List.mem_append, List.mem_singleton]
      constructor
      · rintro (⟨c, hc, hpid, htx⟩ | hmem)
        · exact ⟨c, Or.inl hc, hpid, htx⟩
        · split at hmem
          · next hq =>
            cases List.mem_singleton.mp hmem
            exact ⟨_, Or.inr rfl, hq, rfl⟩
          · cases hmem
      · rintro ⟨c, hc | rfl, hpid, htx⟩
        · exact Or.inl ⟨c, hc, hpid, htx⟩
        · refine Or.inr ?_
          rw [if_pos hpid, ← htx]
          exact List.mem_singleton_self _

/-- The messages of a log are those of the state. -/
theorem Logged.hints (h : Logged sys log s) :
    s.hints = messages log := by
  induction h with
  | init => rfl
  | @step log s s' a _ hstep ih =>
    rw [messages, List.filterMap_append, ← messages, ← ih]
    cases moves_of_step hstep with
    | start c hadm => simp [outputs]
    | query q now pr next hp hprog => simp [outputs, hp, hprog]
    | stmt q now pr act next hp hprog hfree => simp [outputs, hp, hprog]
    | emit q now pr hint next hp hprog => simp [outputs, hp, hprog]
    | kill q pr hp hrun => simp [outputs]
    | commit q now pr next hp hprog => simp [outputs, hp, hprog]

omit [DecidableEq κ] in
theorem tells_resume {S : OutputSpec W κ ν H R} {pr : Proc D W κ ν H R C} {d : D} {tx : Tx W κ ν}
    (prog : Prog D W κ ν H R) {out : List (Output W κ ν H)} (h : prog.Tells S tx out) :
    (pr.resume d tx prog).prog.Tells S (pr.resume d tx prog).tx out := by
  induction prog generalizing tx with
  | rollback next ih => exact ih h.2
  | _ => exact h

/-- What a process has put out is what its call has to. -/
theorem Logged.tells {S : C → OutputSpec W κ ν H R} (hok : ∀ c, (S c).ok [])
    (hstart : ∀ c d, sys.admits d c = true → (sys.code c).Tells (S c) Tx.empty [])
    (hkilled : ∀ c out, (S c).ok out → (S c).post out sys.killed) (h : Logged sys log s) :
    (∀ (p : Nat) (pr : Proc D W κ ν H R C), s.procs[p]? = some pr →
      (S pr.call).ok (outputOf p log) ∧ pr.prog.Tells (S pr.call) pr.tx (outputOf p log)) ∧
    ∀ p, s.procs.length ≤ p → outputOf p log = [] := by
  induction h with
  | init => exact ⟨fun p pr hp => by simp [System.initial] at hp, fun p _ => rfl⟩
  | @step log s s' a _ hstep ih =>
    obtain ⟨ih, hnew⟩ := ih
    -- the process `p` goes on as `pr'`, the others as they were
    have hgo : ∀ (p now : Nat) (pr pr' : Proc D W κ ν H R C) (x : List (Output W κ ν H)),
        s.procs[p]? = some pr → pr'.call = pr.call →
        (∀ q, outputOf q (outputs s a) = if q = p then x else []) →
        ((S pr.call).ok (outputOf p log ++ x) ∧
          pr'.prog.Tells (S pr.call) pr'.tx (outputOf p log ++ x)) →
        (∀ (q : Nat) (qr : Proc D W κ ν H R C), (s.procs.set p pr')[q]? = some qr →
          (S qr.call).ok (outputOf q (log ++ outputs s a)) ∧
          qr.prog.Tells (S qr.call) qr.tx (outputOf q (log ++ outputs s a))) ∧
        ∀ q, (s.procs.set p pr').length ≤ q → outputOf q (log ++ outputs s a) = [] := by
      intro p now pr pr' x hp hcall hx htells
      refine ⟨fun q qr hq => ?_, fun q hq => ?_⟩
      · rw [outputOf_append, hx]
        rcases getElem?_set_cases hq with ⟨rfl, rfl⟩ | ⟨hqp, hq⟩
        · rw [if_pos rfl, hcall]
          exact htells
        · rw [if_neg hqp, List.append_nil]
          exact ih q qr hq
      · rw [List.length_set] at hq
        have hlt : p < s.procs.length := (List.getElem?_eq_some_iff.mp hp).1
        rw [outputOf_append, hx, if_neg (by omega), hnew q hq, List.append_nil]
    have hnone : ∀ p pr, s.procs[p]? = some pr → outputs s a = [] →
        (∀ q, outputOf q (outputs s a) = if q = p then [] else []) := by
      intro p pr _ hout q
      rw [hout]
      simp [outputOf]
    cases moves_of_step hstep with
    | start c hadm =>
      refine ⟨fun p pr hp => ?_, fun p hp => ?_⟩
      · rw [outputOf_append, show outputOf p (outputs s (.start c)) = [] from rfl, List.append_nil]
        rw [List.getElem?_append] at hp
        split at hp
        · exact ih p pr hp
        · next hlt =>
          rw [hnew p (by omega), List.mem_singleton.mp (List.mem_of_getElem? hp), Proc.fresh,
            Proc.resume_call]
          exact ⟨hok c, tells_resume _ (hstart c s.db hadm)⟩
      · rw [List.length_append] at hp
        rw [outputOf_append, hnew p (by omega)]
        rfl
    | query p now pr next hp hprog =>
      have hold := (ih p pr hp).2
      rw [hprog] at hold
      refine hgo p now pr _ [] hp (Proc.resume_call ..) (hnone p pr hp (by simp [outputs, hp, hprog])) ?_
      rw [List.append_nil]
      exact ⟨(ih p pr hp).1, tells_resume _ (hold.2 s.db now)⟩
    | stmt p now pr act next hp hprog hfree =>
      have hold := (ih p pr hp).2
      rw [hprog] at hold
      refine hgo p now pr _ [] hp (Proc.resume_call ..) (hnone p pr hp (by simp [outputs, hp, hprog])) ?_
      rw [List.append_nil]
      exact ⟨(ih p pr hp).1, tells_resume _ (hold.2 s.db now)⟩
    | emit p now pr hint next hp hprog =>
      have hold := (ih p pr hp).2
      rw [hprog] at hold
      refine hgo p now pr _ [.hint hint] hp (Proc.resume_call ..) (fun q => ?_)
        ⟨hold.1, tells_resume _ hold.2⟩
      rw [show outputs s (.run p now) = [(p, .hint hint)] by simp [outputs, hp, hprog],
        outputOf_singleton]
      simp only [eq_comm]
    | kill p pr hp hrun =>
      refine hgo p 0 pr _ [] hp (Proc.resume_call ..) (hnone p pr hp rfl) ?_
      rw [List.append_nil]
      exact ⟨(ih p pr hp).1, tells_resume (.done sys.killed) (hkilled _ _ (ih p pr hp).1)⟩
    | commit p now pr next hp hprog =>
      have hold := (ih p pr hp).2
      rw [hprog] at hold
      refine hgo p now pr _ [.commit pr.tx] hp (Proc.resume_call ..) (fun q => ?_)
        ⟨hold.1, tells_resume _ hold.2⟩
      rw [show outputs s (.run p now) = [(p, .commit pr.tx)] by simp [outputs, hp, hprog],
        outputOf_singleton]
      simp only [eq_comm]

end runs

/-! ## Section 3: Messages that mirror commits -/

section mirror

variable (owes : Tx W κ ν → List E) (same : E → H → Prop)

/-- Each commit is followed by a message for each of the things it owes
    one for; `owed` are those still to come. -/
inductive Mirrors : List (Output W κ ν H) → List E → Prop where
  | nil : Mirrors [] []
  | commit {out : List (Output W κ ν H)} (tx : Tx W κ ν) (h : Mirrors out []) :
      Mirrors (out ++ [.commit tx]) (owes tx)
  | hint {out : List (Output W κ ν H)} {e : E} {owed : List E} {x : H} (h : Mirrors out (e :: owed))
      (hx : same e x) : Mirrors (out ++ [.hint x]) owed

variable {owes same} {out : List (Output W κ ν H)} {owed : List E}

omit [WriteSet W κ] in
/-- What goes before a commit is settled. -/
theorem Mirrors.of_commit {tx : Tx W κ ν} (h : Mirrors owes same (out ++ [.commit tx]) owed) :
    Mirrors owes same out [] := by
  generalize hout : out ++ [Output.commit tx] = out' at h
  cases h with
  | nil => simp at hout
  | commit tx' h =>
    obtain ⟨rfl, _⟩ := List.append_inj' hout rfl
    exact h
  | hint h hx =>
    obtain ⟨_, heq⟩ := List.append_inj' hout rfl
    cases heq

omit [WriteSet W κ] in
/-- Who commits nothing sends nothing. -/
theorem Mirrors.silent (h : Mirrors owes same out owed) (hno : ∀ tx, .commit tx ∉ out) :
    out = [] ∧ owed = [] := by
  induction h with
  | nil => exact ⟨rfl, rfl⟩
  | commit tx h _ => exact absurd (List.mem_append_right _ (List.mem_singleton_self _)) (hno tx)
  | hint h hx ih =>
    obtain ⟨_, howed⟩ := ih fun tx htx => hno tx (List.mem_append_left _ htx)
    cases howed

/-- Sending all that is owed. -/
theorem Mirrors.emitAll {R D : Type} [Store D W κ] {S : OutputSpec W κ ν H R}
    (hok : ∀ out owed, Mirrors owes same out owed → S.ok out) {hs : List H} {next : Prog D W κ ν H R}
    (h : Mirrors owes same out owed) (hsame : List.Forall₂ same owed hs)
    (hnext : ∀ out, Mirrors owes same out [] → next.Tells S Tx.empty out) :
    (Prog.emitAll hs next).Tells S Tx.empty out := by
  induction hsame generalizing out with
  | nil => exact hnext out h
  | cons hx _ ih =>
    have hsent := h.hint hx
    exact ⟨hok _ _ hsent, ih hsent⟩

end mirror

end ReadCommitted
