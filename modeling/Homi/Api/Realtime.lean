import Homi.Db.Client

/-! # Realtime hints

  `apps/api/src/realtime`: where `RealtimeService` publishes a hint and
  where the gateway listens for a socket, and the listeners that the
  gateway's handshakes register and remove.

  Redis and the local emitter deliver by equality of names: a message on a
  channel goes to those who subscribed to that channel, an event of the
  emitter to the listeners of that key.
-/

namespace Homi

/-! ## Section 1: Channels -/

/-- How a hint travels: over Redis, or in the process. -/
inductive Bus where
  | redis
  | emitter
deriving DecidableEq

/-- The channel of a house, as `publish` and `subscribe` both name it. -/
def houseChannel : Bus → JsString → JsString
  | .redis, houseId => js "house:" ++ houseId
  | .emitter, houseId => houseId

/-- The key under which the message of a channel reaches local listeners:
    `channel.replace(/^house:/, '')` in `wireRedis`. -/
def emittedKey : Bus → JsString → JsString
  | .redis, channel =>
      if js "house:" <+: channel then channel.drop (js "house:").length else channel
  | .emitter, channel => channel

/-- `handleUpgrade`: the house id of a connect URL, as the gateway passes it
    to `subscribe`; `none` is a 404. -/
def upgradeHouseId (raw : JsString) : Option JsString :=
  if UUID_RE raw then some (raw.map lowerUnit) else none

/-- The hint reaches a listener that `subscribe` registered under `key`: it
    is published on the channel that was subscribed to, and emitted under
    the key of the listener. -/
def hears (bus : Bus) (key : JsString) (hint : Hint) : Bool :=
  houseChannel bus hint.houseId = houseChannel bus key ∧
    emittedKey bus (houseChannel bus hint.houseId) = key

theorem houseChannel_injective (bus : Bus) : Function.Injective (houseChannel bus) := by
  cases bus with
  | redis => exact fun _ _ h => List.append_cancel_left h
  | emitter => exact fun _ _ h => h

@[simp] theorem emittedKey_houseChannel (bus : Bus) (houseId : JsString) :
    emittedKey bus (houseChannel bus houseId) = houseId := by
  cases bus with
  | redis =>
    rw [houseChannel, emittedKey, if_pos (List.prefix_append _ _), List.drop_left]
  | emitter => rfl

theorem hears_iff {bus : Bus} {key : JsString} {hint : Hint} :
    hears bus key hint = true ↔ hint.houseId = key := by
  rw [hears, decide_eq_true_iff, (houseChannel_injective bus).eq_iff, emittedKey_houseChannel,
    and_self]

/-- A socket listens under the id that the database has. -/
theorem upgradeHouseId_eq {raw key : JsString} (h : upgradeHouseId raw = some key) :
    UUID_RE raw = true ∧ key = toUuid raw := by
  unfold upgradeHouseId at h
  split at h
  · next hre => exact ⟨hre, (Option.some.inj h).symm⟩
  · cases h

/-! ## Section 2: Handshakes

    Each `await` of `handleUpgrade` and `subscribe` ends a step. Between two
    steps anything can happen to the other sockets and to this one. -/

/-- What a handshake waits for. An `opened` one has its socket, and waits
    for its `close` event; nothing more comes of a `finished` one. -/
inductive Phase where
  | session
  | membership
  | subscribing
  | subscribed
  | opened
  | finished
deriving DecidableEq, Repr

/-- One upgrade request. `wellFormed` says that its headers are those of a
    WebSocket handshake, `gone` that its client has left. -/
structure Upgrade where
  houseId : JsString
  wellFormed : Bool
  phase : Phase
  gone : Bool
deriving DecidableEq

/-- A command on the subscriber connection. -/
inductive Command where
  | subscribe (houseId : JsString) (upgrade : ℕ)
  | unsubscribe (houseId : JsString)
deriving DecidableEq

/-- `RealtimeGateway` with its `RealtimeService`.

    * `wss`: the WebSocket server is there; shutdown takes it away.
    * `closed`: `closeRedis` has run.
    * `listeners`: the listeners of the local emitter, each with the upgrade
      that registered it.
    * `commands`: what was issued on the subscriber connection, in order,
      less the commands that were rejected. -/
structure Realtime where
  wss : Bool := true
  closed : Bool := false
  upgrades : List Upgrade := []
  listeners : List (JsString × ℕ) := []
  commands : List Command := []
deriving DecidableEq

/-- Whether the connection is subscribed to the channel of the house once
    the commands have run. -/
def isSubscribed (commands : List Command) (houseId : JsString) : Bool :=
  commands.foldl (fun on command => match command with
    | .subscribe h _ => if h = houseId then true else on
    | .unsubscribe h => if h = houseId then false else on) false

namespace Realtime

def setPhase (s : Realtime) (c : ℕ) (u : Upgrade) (phase : Phase) : Realtime :=
  { s with upgrades := s.upgrades.set c { u with phase := phase } }

/-- `local.listenerCount(houseId)`. -/
def listenerCount (s : Realtime) (houseId : JsString) : ℕ :=
  s.listeners.countP fun l => l.1 = houseId

/-- The function that `subscribe` resolves to. A command on a connection
    that was closed is rejected, and `catch` drops the rejection. -/
def unsubscribe (useRedis : Bool) (s : Realtime) (houseId : JsString) (c : ℕ) : Realtime :=
  let s := { s with listeners := s.listeners.erase (houseId, c) }
  if useRedis ∧ s.listenerCount houseId = 0 ∧ ¬ s.closed then
    { s with commands := s.commands ++ [.unsubscribe houseId] }
  else s

/-- `subscribe`, up to its `await`. Once Redis is closed `getSubscriberRedis`
    throws, and the handshake is rejected with a 500. -/
def subscribe (useRedis : Bool) (s : Realtime) (c : ℕ) (u : Upgrade) : Realtime :=
  let s := { s with listeners := s.listeners ++ [(u.houseId, c)] }
  if useRedis then
    if s.closed then s.setPhase c u .finished
    else
      let s := { s with commands := s.commands ++ [Command.subscribe u.houseId c] }
      s.setPhase c u .subscribing
  else s.setPhase c u .subscribed

/-- The rest of `handleUpgrade`. The `ws` server calls back for a handshake
    that it can answer, and destroys the socket of any other. -/
def upgrade (useRedis : Bool) (s : Realtime) (c : ℕ) (u : Upgrade) : Realtime :=
  if ¬ s.wss then (s.unsubscribe useRedis u.houseId c).setPhase c u .finished
  else if u.wellFormed ∧ ¬ u.gone then s.setPhase c u .opened
  else s.setPhase c u .finished

/-- What can happen.

    * `connect`: an upgrade request for the house in its URL.
    * `session`, `member`: `getSession`, `isActiveMember` settle; `false` is
      a refusal or an error.
    * `ack`, `reject`: Redis answers the SUBSCRIBE of the upgrade.
    * `resume`: `handleUpgrade` goes on after `subscribe`.
    * `vanish`: the client disconnects.
    * `close`: the `close` event of an open socket.
    * `beforeShutdown`, `shutdown`: the two shutdown hooks. -/
inductive Event where
  | connect (raw : JsString) (wellFormed : Bool)
  | session (c : ℕ) (ok : Bool)
  | member (c : ℕ) (ok : Bool)
  | ack (c : ℕ)
  | reject (c : ℕ)
  | resume (c : ℕ)
  | vanish (c : ℕ)
  | close (c : ℕ)
  | beforeShutdown
  | shutdown
deriving DecidableEq

/-- The upgrade `c`, when it waits in `phase`. -/
def waiting (s : Realtime) (c : ℕ) (phase : Phase) : Option Upgrade :=
  s.upgrades[c]?.filter fun u => u.phase = phase

/-- One step; `none` is one that cannot happen now. -/
def step (useRedis : Bool) (s : Realtime) : Event → Option Realtime
  | .connect raw wellFormed =>
      let u : Upgrade := match upgradeHouseId raw with
        | some houseId => ⟨houseId, wellFormed, .session, false⟩
        | none => ⟨raw, wellFormed, .finished, false⟩
      some { s with upgrades := s.upgrades ++ [u] }
  | .session c ok => (s.waiting c .session).map fun u =>
      s.setPhase c u (if ok then .membership else .finished)
  | .member c ok => (s.waiting c .membership).map fun u =>
      if ok then s.subscribe useRedis c u else s.setPhase c u .finished
  | .ack c => (s.waiting c .subscribing).map fun u => s.setPhase c u .subscribed
  | .reject c => (s.waiting c .subscribing).map fun u =>
      let s := { s with commands := s.commands.erase (Command.subscribe u.houseId c) }
      s.setPhase c u .finished
  | .resume c => (s.waiting c .subscribed).map fun u => s.upgrade useRedis c u
  | .vanish c => s.upgrades[c]?.map fun u =>
      { s with upgrades := s.upgrades.set c { u with gone := true } }
  | .close c => (s.waiting c .opened).map fun u =>
      (s.unsubscribe useRedis u.houseId c).setPhase c u .finished
  | .beforeShutdown => some { s with wss := false }
  | .shutdown =>
      if s.wss then none
      else some { s with listeners := [], commands := [], closed := s.closed || useRedis }

/-- States reached by runs whose steps all meet `ok`. -/
inductive Run (useRedis : Bool) (ok : Realtime → Event → Prop) : Realtime → Prop where
  | init : Run useRedis ok {}
  | step : ∀ {s s'} e, Run useRedis ok s → ok s e → s.step useRedis e = some s' →
      Run useRedis ok s'

end Realtime

end Homi
