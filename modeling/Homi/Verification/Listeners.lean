import Homi.Api.Realtime
import Mathlib.Data.List.Perm.Basic

/-! # Listeners and sockets

  As long as no SUBSCRIBE is rejected, no socket is lost before the `ws`
  server answers it and nothing is registered at shutdown, the listeners of
  `RealtimeService` are those of the open sockets and of the handshakes
  that have subscribed. Each step that breaks this condition leaves a
  listener without its socket, or a socket without its listener.
-/

namespace Homi

open Realtime

/-! ## Section 1: What should hold -/

/-- The handshake has subscribed and is not over, or its socket is open. -/
def Upgrade.Registered (u : Upgrade) : Prop :=
  u.phase = .subscribing ∨ u.phase = .subscribed ∨ u.phase = .opened

/-- Each listener belongs to an upgrade that is registered, and each of
    these has its listener. -/
def Owned (upgrades : List Upgrade) (listeners : List (JsString × ℕ)) : Prop :=
  ∀ h c, (h, c) ∈ listeners ↔ ∃ u, upgrades[c]? = some u ∧ u.houseId = h ∧ u.Registered

/-- The channels to be subscribed to are those of the houses with a listener. -/
def Channelled (commands : List Command) (listeners : List (JsString × ℕ)) : Prop :=
  ∀ h, isSubscribed commands h = true ↔ ∃ c, (h, c) ∈ listeners

/-- No listener outlives its socket.

    * `owned`, `once`: the listeners are exactly those of open sockets and of
      handshakes in progress, one for each.
    * `channels`: once the commands have run in their order, the connection
      is subscribed to the channels of the houses with a listener. -/
structure Matches (useRedis : Bool) (s : Realtime) : Prop where
  owned : Owned s.upgrades s.listeners
  once : s.listeners.Nodup
  channels : useRedis = true → Channelled s.commands s.listeners

/-- The step does not reach the defect.

    * `member`: no handshake subscribes after `closeRedis`.
    * `reject`: no SUBSCRIBE is rejected.
    * `resume`: the `ws` server can answer each handshake that it is given.
    * `shutdown`: no listener is registered when `onApplicationShutdown`
      removes them all. -/
def Orderly (useRedis : Bool) (s : Realtime) : Event → Prop
  | .member c true => useRedis = true → s.closed = true → s.waiting c .membership = none
  | .reject _ => False
  | .resume c => s.wss = true → ∀ u, s.waiting c .subscribed = some u →
      u.wellFormed = true ∧ u.gone = false
  | .shutdown => s.listeners = []
  | _ => True

/-! ## Section 2: Owners -/

section owners

variable {upgrades : List Upgrade} {listeners : List (JsString × ℕ)} {c : ℕ} {u u' : Upgrade}

theorem waiting_eq {s : Realtime} {phase : Phase} (h : s.waiting c phase = some u) :
    s.upgrades[c]? = some u ∧ u.phase = phase := by
  obtain ⟨hget, hphase⟩ := Option.filter_eq_some_iff.mp h
  exact ⟨hget, of_decide_eq_true hphase⟩

theorem getElem?_set_iff (hc : upgrades[c]? = some u) (c' : ℕ) :
    (upgrades.set c u')[c']? = if c' = c then some u' else upgrades[c']? := by
  by_cases heq : c' = c
  · subst heq
    rw [if_pos rfl, List.getElem?_set_self (List.getElem?_eq_some_iff.mp hc).1]
  · rw [if_neg heq, List.getElem?_set_ne (Ne.symm heq)]

/-- A new upgrade has nothing. -/
theorem Owned.connect (h : Owned upgrades listeners) (hu : ¬ u.Registered) :
    Owned (upgrades ++ [u]) listeners := by
  intro k c
  rw [h k c]
  by_cases hlt : c < upgrades.length
  · rw [List.getElem?_append_left hlt]
  · rw [List.getElem?_eq_none (by omega), List.getElem?_append_right (by omega)]
    constructor
    · rintro ⟨v, hv, _⟩
      cases hv
    · rintro ⟨v, hv, _, hreg⟩
      rw [List.mem_singleton.mp (List.mem_of_getElem? hv)] at hreg
      exact absurd hreg hu

/-- The upgrade goes on with what it has. -/
theorem Owned.move (h : Owned upgrades listeners) (hc : upgrades[c]? = some u)
    (hhouse : u'.houseId = u.houseId) (hreg : u'.Registered ↔ u.Registered) :
    Owned (upgrades.set c u') listeners := by
  intro k c'
  rw [h k c', getElem?_set_iff hc]
  by_cases heq : c' = c
  · subst heq
    simp [hc, hhouse, hreg]
  · simp [heq]

/-- The upgrade registers its listener. -/
theorem Owned.register (h : Owned upgrades listeners) (hc : upgrades[c]? = some u)
    (hhouse : u'.houseId = u.houseId) (hold : ¬ u.Registered) (hnew : u'.Registered) :
    Owned (upgrades.set c u') (listeners ++ [(u.houseId, c)]) := by
  intro k c'
  rw [List.mem_append, List.mem_singleton, h k c', getElem?_set_iff hc]
  by_cases heq : c' = c
  · subst heq
    simp [hc, hhouse, hold, hnew, eq_comm]
  · simp [heq]

/-- The upgrade removes its listener. -/
theorem Owned.remove (h : Owned upgrades listeners) (honce : listeners.Nodup)
    (hc : upgrades[c]? = some u) (hnew : ¬ u'.Registered) :
    Owned (upgrades.set c u') (listeners.erase (u.houseId, c)) := by
  intro k c'
  rw [honce.mem_erase_iff, h k c', getElem?_set_iff hc]
  by_cases heq : c' = c
  · subst heq
    simp only [hc, Option.some.injEq, exists_eq_left', if_pos, ne_eq, Prod.mk.injEq, and_true]
    constructor
    · rintro ⟨hne, hk, _⟩
      exact absurd hk.symm hne
    · rintro ⟨_, hreg⟩
      exact absurd hreg hnew
  · simp [heq]

/-- A registered upgrade has its listener. -/
theorem Owned.mem (h : Owned upgrades listeners) (hc : upgrades[c]? = some u) (hreg : u.Registered) :
    (u.houseId, c) ∈ listeners := (h _ _).mpr ⟨u, hc, rfl, hreg⟩

theorem Owned.notMem (h : Owned upgrades listeners) (hc : upgrades[c]? = some u)
    (hreg : ¬ u.Registered) (k : JsString) : (k, c) ∉ listeners := by
  intro hmem
  obtain ⟨v, hv, _, hvreg⟩ := (h k c).mp hmem
  rw [hc] at hv
  cases hv
  exact hreg hvreg

end owners

/-! ## Section 3: Channels -/

section channels

variable {commands : List Command} {listeners : List (JsString × ℕ)} {h : JsString} {c : ℕ}

theorem isSubscribed_subscribe (k : JsString) : isSubscribed (commands ++ [.subscribe k c]) h =
    if k = h then true else isSubscribed commands h := by
  simp [isSubscribed, List.foldl_append]

theorem isSubscribed_unsubscribe (k : JsString) : isSubscribed (commands ++ [.unsubscribe k]) h =
    if k = h then false else isSubscribed commands h := by
  simp [isSubscribed, List.foldl_append]

theorem Channelled.register (hch : Channelled commands listeners) (k : JsString) (c : ℕ) :
    Channelled (commands ++ [.subscribe k c]) (listeners ++ [(k, c)]) := by
  intro h
  rw [isSubscribed_subscribe]
  by_cases heq : k = h
  · subst heq
    simp
  · simp [heq, hch h, Ne.symm heq]

/-- The last listener of a house takes the subscription with it. -/
theorem Channelled.remove_last (hch : Channelled commands listeners) {k : JsString}
    (hlast : ∀ c', (k, c') ∉ listeners.erase (k, c)) :
    Channelled (commands ++ [.unsubscribe k]) (listeners.erase (k, c)) := by
  intro h
  rw [isSubscribed_unsubscribe]
  by_cases heq : k = h
  · subst heq
    simp [hlast]
  · have hother : ∀ c', (h, c') ∈ listeners.erase (k, c) ↔ (h, c') ∈ listeners := fun c' =>
      List.mem_erase_of_ne fun hpair => heq (Prod.mk.inj hpair).1.symm
    simp [heq, hch h, hother]

/-- Any other listener leaves it to those that stay. -/
theorem Channelled.remove (hch : Channelled commands listeners) {k : JsString}
    (hmem : (k, c) ∈ listeners) {c' : ℕ} (hstay : (k, c') ∈ listeners.erase (k, c)) :
    Channelled commands (listeners.erase (k, c)) := by
  intro h
  rw [hch h]
  by_cases heq : k = h
  · subst heq
    exact ⟨fun _ => ⟨c', hstay⟩, fun _ => ⟨c, hmem⟩⟩
  · have hother : ∀ c', (h, c') ∈ listeners.erase (k, c) ↔ (h, c') ∈ listeners := fun c' =>
      List.mem_erase_of_ne fun hpair => heq (Prod.mk.inj hpair).1.symm
    simp [hother]

theorem listenerCount_eq_zero {s : Realtime} :
    s.listenerCount h = 0 ↔ ∀ c, (h, c) ∉ s.listeners := by
  rw [listenerCount, List.countP_eq_zero]
  constructor
  · intro hnone c hmem
    exact hnone _ hmem (decide_eq_true rfl)
  · rintro hnone ⟨k, c⟩ hmem hk
    obtain rfl : k = h := of_decide_eq_true hk
    exact hnone c hmem

end channels

/-! ## Section 4: Steps -/

/-- `Matches`, and nothing is issued on a connection that was closed. -/
structure RealtimeInv (useRedis : Bool) (s : Realtime) : Prop extends Matches useRedis s where
  quit : s.closed = true → s.commands = []

section steps

variable {useRedis : Bool} {s s' : Realtime} {c : ℕ} {u : Upgrade} {phase : Phase}

/-- The upgrade goes on and keeps what it has registered, or keeps having
    nothing registered. -/
theorem RealtimeInv.move (hs : RealtimeInv useRedis s) (hc : s.upgrades[c]? = some u)
    (hreg : ({ u with phase := phase } : Upgrade).Registered ↔ u.Registered) :
    RealtimeInv useRedis (s.setPhase c u phase) where
  owned := hs.owned.move hc rfl hreg
  once := hs.once
  channels := hs.channels
  quit := hs.quit

/-- The listener goes with its socket. -/
theorem RealtimeInv.unsubscribe (hs : RealtimeInv useRedis s) (hc : s.upgrades[c]? = some u)
    (hreg : u.Registered) :
    RealtimeInv useRedis ((s.unsubscribe useRedis u.houseId c).setPhase c u .finished) := by
  have hmem := hs.owned.mem hc hreg
  have howned : Owned (s.upgrades.set c { u with phase := .finished })
      (s.listeners.erase (u.houseId, c)) := hs.owned.remove hs.once hc (by simp [Upgrade.Registered])
  -- a registered upgrade on a closed connection would have no channel
  have hopen : useRedis = true → s.closed = false := by
    intro hredis
    by_contra hclosed
    have hon := (hs.channels hredis u.houseId).mpr ⟨c, hmem⟩
    rw [hs.quit (by simpa using hclosed)] at hon
    exact absurd hon (by simp [isSubscribed])
  unfold Realtime.unsubscribe
  dsimp only
  split
  · next hlast =>
    obtain ⟨hredis, hcount, hclosed⟩ := hlast
    refine ⟨⟨howned, hs.once.erase _, fun _ => ?_⟩, fun hq => absurd hq hclosed⟩
    exact (hs.channels hredis).remove_last (listenerCount_eq_zero.mp hcount)
  · next hstay =>
    refine ⟨⟨howned, hs.once.erase _, fun hredis => ?_⟩, hs.quit⟩
    by_cases hnone : ∀ c', (u.houseId, c') ∉ s.listeners.erase (u.houseId, c)
    · exact absurd ⟨hredis, listenerCount_eq_zero.mpr hnone, by simp [hopen hredis]⟩ hstay
    · obtain ⟨c', hc'⟩ := not_forall_not.mp hnone
      exact (hs.channels hredis).remove hmem hc'

theorem RealtimeInv.subscribe (hs : RealtimeInv useRedis s) (hw : s.waiting c .membership = some u)
    (hopen : useRedis = true → s.closed = false) :
    RealtimeInv useRedis (s.subscribe useRedis c u) := by
  obtain ⟨hc, hphase⟩ := waiting_eq hw
  have hold : ¬ u.Registered := by simp [Upgrade.Registered, hphase]
  have honce : (s.listeners ++ [(u.houseId, c)]).Nodup :=
    List.nodup_append.mpr ⟨hs.once, List.nodup_singleton _, fun x hx y hy => by
      rw [List.mem_singleton.mp hy]
      rintro rfl
      exact hs.owned.notMem hc hold _ hx⟩
  unfold Realtime.subscribe
  dsimp only
  cases useRedis with
  | true =>
    rw [if_pos rfl, if_neg (by simp [hopen rfl])]
    refine ⟨⟨hs.owned.register hc rfl hold (Or.inl rfl), honce, fun hredis => ?_⟩, fun hq => ?_⟩
    · exact (hs.channels hredis).register u.houseId c
    · exact absurd hq (by simp [Realtime.setPhase, hopen rfl])
  | false =>
    rw [if_neg (by simp)]
    exact ⟨⟨hs.owned.register hc rfl hold (Or.inr (Or.inl rfl)), honce, fun hredis => by cases hredis⟩,
      hs.quit⟩

/-- A listener whose upgrade is over. -/
theorem Matches.not_of_stray (hc : s.upgrades[c]? = some u) (hreg : ¬ u.Registered) {h : JsString}
    (hmem : (h, c) ∈ s.listeners) : ¬ Matches useRedis s :=
  fun hm => hm.owned.notMem hc hreg h hmem

/-- A step that is not orderly leaves a listener without its socket, or a
    socket without its listener. -/
theorem not_matches_of_disorder (hs : RealtimeInv useRedis s) {e : Event}
    (hstep : s.step useRedis e = some s') (he : ¬ Orderly useRedis s e) : ¬ Matches useRedis s' := by
  have hset : ∀ {c : ℕ} {u : Upgrade} (u' : Upgrade), s.upgrades[c]? = some u →
      (s.upgrades.set c u')[c]? = some u' := fun u' hc => by
    rw [getElem?_set_iff hc, if_pos rfl]
  cases e with
  | member c ok =>
    cases ok with
    | false => exact absurd trivial he
    | true =>
      -- `local.on` ran before `getSubscriberRedis` threw
      simp only [Orderly, Classical.not_imp] at he
      obtain ⟨rfl, hclosed, hsome⟩ := he
      obtain ⟨u, hw⟩ := Option.ne_none_iff_exists'.mp hsome
      simp only [Realtime.step, hw, Option.map_some, Option.some.injEq] at hstep
      subst hstep
      simp only [if_true, Realtime.subscribe, hclosed]
      exact Matches.not_of_stray (hset _ (waiting_eq hw).1) (by simp [Upgrade.Registered])
        (List.mem_append_right _ (List.mem_singleton_self _))
  | reject c =>
    obtain ⟨u, hw, rfl⟩ := Option.map_eq_some_iff.mp hstep
    obtain ⟨hc, hphase⟩ := waiting_eq hw
    exact Matches.not_of_stray (hset _ hc) (by simp [Upgrade.Registered])
      (hs.owned.mem hc (Or.inl hphase))
  | resume c =>
    simp only [Orderly, Classical.not_imp, not_forall] at he
    obtain ⟨hwss, u, hw, hbad⟩ := he
    obtain ⟨hc, hphase⟩ := waiting_eq hw
    simp only [Realtime.step, hw, Option.map_some, Option.some.injEq] at hstep
    subst hstep
    -- the `ws` server destroys the socket, and `close` never comes
    rw [Realtime.upgrade, if_neg (by simp [hwss]), if_neg (by simpa using hbad)]
    exact Matches.not_of_stray (hset _ hc) (by simp [Upgrade.Registered])
      (hs.owned.mem hc (Or.inr (Or.inl hphase)))
  | shutdown =>
    simp only [Realtime.step] at hstep
    split at hstep
    · cases hstep
    · cases hstep
      obtain ⟨⟨h, c⟩, hmem⟩ := List.exists_mem_of_ne_nil _ he
      intro hm
      obtain ⟨u, hu⟩ := (hs.owned h c).mp hmem
      exact absurd ((hm.owned h c).mpr ⟨u, hu⟩) List.not_mem_nil
  | _ => exact absurd trivial he

/-- An orderly step keeps listeners and sockets together. -/
theorem inv_of_orderly (hs : RealtimeInv useRedis s) {e : Event}
    (hstep : s.step useRedis e = some s') (he : Orderly useRedis s e) :
    RealtimeInv useRedis s' := by
  cases e with
  | connect raw wellFormed =>
    cases hstep
    refine ⟨⟨hs.owned.connect ?_, hs.once, hs.channels⟩, hs.quit⟩
    split <;> simp [Upgrade.Registered]
  | session c ok =>
    obtain ⟨u, hw, rfl⟩ := Option.map_eq_some_iff.mp hstep
    obtain ⟨hc, hphase⟩ := waiting_eq hw
    exact hs.move hc (by cases ok <;> simp [Upgrade.Registered, hphase])
  | member c ok =>
    obtain ⟨u, hw, rfl⟩ := Option.map_eq_some_iff.mp hstep
    obtain ⟨hc, hphase⟩ := waiting_eq hw
    cases ok with
    | false => exact hs.move hc (by simp [Upgrade.Registered, hphase])
    | true =>
      refine hs.subscribe hw fun hredis => ?_
      -- a listener may come only while the server is open
      by_contra hclosed
      have hnone := he hredis (by simpa using hclosed)
      rw [hw] at hnone
      cases hnone
  | ack c =>
    obtain ⟨u, hw, rfl⟩ := Option.map_eq_some_iff.mp hstep
    obtain ⟨hc, hphase⟩ := waiting_eq hw
    exact hs.move hc (by simp [Upgrade.Registered, hphase])
  | reject c => exact absurd he id
  | resume c =>
    obtain ⟨u, hw, rfl⟩ := Option.map_eq_some_iff.mp hstep
    obtain ⟨hc, hphase⟩ := waiting_eq hw
    unfold Realtime.upgrade
    -- an upgrade on a closed server is undone
    by_cases hwss : s.wss = true
    · rw [if_neg (by simp [hwss]), if_pos (by simpa using he hwss u hw)]
      exact hs.move hc (by simp [Upgrade.Registered, hphase])
    · rw [if_pos hwss]
      exact hs.unsubscribe hc (Or.inr (Or.inl hphase))
  | vanish c =>
    obtain ⟨u, hc, rfl⟩ := Option.map_eq_some_iff.mp hstep
    exact ⟨⟨hs.owned.move hc rfl Iff.rfl, hs.once, hs.channels⟩, hs.quit⟩
  | close c =>
    obtain ⟨u, hw, rfl⟩ := Option.map_eq_some_iff.mp hstep
    obtain ⟨hc, hphase⟩ := waiting_eq hw
    exact hs.unsubscribe hc (Or.inr (Or.inr hphase))
  | beforeShutdown =>
    cases hstep
    exact ⟨⟨hs.owned, hs.once, hs.channels⟩, hs.quit⟩
  | shutdown =>
    simp only [Realtime.step] at hstep
    split at hstep
    · cases hstep
    · cases hstep
      -- at shutdown all sockets are gone, and so are the listeners
      have howned := hs.owned
      rw [show s.listeners = [] from he] at howned
      refine ⟨⟨howned, List.nodup_nil, fun _ h => ?_⟩, fun _ => rfl⟩
      simp [isSubscribed]

end steps

/-! ## Section 5: Runs -/

/-- In every run whose steps are orderly, at every point, the listeners are
    those of open sockets and of handshakes in progress; and the next step
    keeps it so exactly when it is orderly too. -/
theorem listeners_match_sockets (useRedis : Bool) (s : Realtime)
    (h : Realtime.Run useRedis (Orderly useRedis) s) :
    Matches useRedis s ∧ ∀ e s', s.step useRedis e = some s' →
      (Matches useRedis s' ↔ Orderly useRedis s e) := by
  have hinv : RealtimeInv useRedis s := by
    induction h with
    | init =>
      refine ⟨⟨fun h c => ?_, List.nodup_nil, fun _ h => ?_⟩, fun _ => rfl⟩
      · simp
      · simp [isSubscribed]
    | step e _ he hstep ih => exact inv_of_orderly ih hstep he
  refine ⟨hinv.toMatches, fun e s' hstep => ⟨fun hm => ?_, fun he => ?_⟩⟩
  · by_contra he
    exact not_matches_of_disorder hinv hstep he hm
  · exact (inv_of_orderly hinv hstep he).toMatches

/-- A house, as it is spelled in connect URLs. -/
def quietHouse : JsString := js "02000000-0000-4000-8000-000000000000"

/-- The upgrade of a client that is connected to `quietHouse`. -/
def quietUpgrade (phase : Phase) (gone : Bool) : Upgrade := ⟨quietHouse, true, phase, gone⟩

/-- Redis has the SUBSCRIBE of the first handshake. -/
def subscribingState (gone : Bool) : Realtime where
  upgrades := [quietUpgrade .subscribing gone]
  listeners := [(quietHouse, 0)]
  commands := [.subscribe quietHouse 0]

theorem run_subscribing {ok : Realtime → Event → Prop} (hok : ∀ s, s.closed = false →
    ok s (.connect quietHouse true) ∧ ok s (.session 0 true) ∧ ok s (.member 0 true)) :
    Realtime.Run true ok (subscribingState false) :=
  .step (.member 0 true) (.step (.session 0 true) (.step (.connect quietHouse true) .init
    (hok _ rfl).1 rfl) (hok _ rfl).2.1 rfl) (hok _ rfl).2.2 rfl

theorem listeners_match_sockets_opened :
    Matches true { subscribingState false with upgrades := [quietUpgrade .opened false] } := by
  have hrun : Realtime.Run true (Orderly true) (subscribingState false) :=
    run_subscribing fun s hs => ⟨trivial, trivial, fun _ hclosed => by rw [hs] at hclosed; cases hclosed⟩
  have hopened : Realtime.Run true (Orderly true)
      { subscribingState false with upgrades := [quietUpgrade .opened false] } :=
    .step (.resume 0) (.step (.ack 0) hrun trivial rfl)
      (fun _ u hu => by cases hu; exact ⟨rfl, rfl⟩) rfl
  exact (listeners_match_sockets true _ hopened).1

/-- Two handshakes that fail and leave their listeners: the client of one
    leaves while Redis has its SUBSCRIBE, that of the other is rejected,
    which leaves a listener without a subscription too. -/
theorem listener_outlives_socket :
    (∃ s, Realtime.Run true (fun _ _ => True) s ∧ s.upgrades = [quietUpgrade .finished true] ∧
      s.listeners = [(quietHouse, 0)] ∧ ¬ Matches true s) ∧
    ∃ s, Realtime.Run true (fun _ _ => True) s ∧ s.upgrades = [quietUpgrade .finished false] ∧
      s.listeners = [(quietHouse, 0)] ∧ isSubscribed s.commands quietHouse = false ∧
      ¬ Matches true s := by
  have hrun : Realtime.Run true (fun _ _ => True) (subscribingState false) :=
    run_subscribing fun _ _ => ⟨trivial, trivial, trivial⟩
  have hover : ∀ gone, ¬ (quietUpgrade .finished gone).Registered := by
    intro gone
    simp [Upgrade.Registered, quietUpgrade]
  constructor
  · have hgone : Realtime.Run true (fun _ _ => True) (subscribingState true) :=
      .step (.vanish 0) hrun trivial rfl
    refine ⟨_, .step (.resume 0) (.step (.ack 0) hgone trivial rfl) trivial rfl, rfl, rfl, ?_⟩
    exact Matches.not_of_stray (c := 0) rfl (hover true) (List.mem_singleton_self _)
  · refine ⟨_, .step (.reject 0) hrun trivial rfl, rfl, rfl, rfl, ?_⟩
    exact Matches.not_of_stray (c := 0) rfl (hover false) (List.mem_singleton_self _)

end Homi
