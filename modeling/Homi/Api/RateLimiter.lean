import Homi.Db.Schema
import Homi.Framework.Double
import Homi.Framework.FixedWindow

/-! # The rate limiter in memory

  `apps/api/src/ratelimit/rate-limiter.ts`: fixed windows, a counter for
  each key. The map of the counters is swept once in a while, so that it
  does not grow with every key that was ever used.

  The body of `consume` has no `await`, so one call is one step. Times are
  exact: the sums that a double cannot hold are behind every date there is.
-/

namespace Homi

open FixedWindow

/-! ## Section 1: Calls -/

/-- The last date of `Date.now()`. -/
def maxDate : Millis := 8640000000000000

/-- The arguments of `consume`, and the time of the call. -/
structure Consume where
  key : JsString
  limit : ℕ
  windowSec : ℕ
  now : Millis
  now_le : now ≤ maxDate

structure RateLimitDecision where
  allowed : Bool
  /-- seconds until the window resets; meaningful when allowed is false -/
  retryAfterSec : ℕ
  deriving DecidableEq

structure MemoryRateLimiter where
  windows : Table JsString (Counter Millis) := ∅
  sweepAt : Millis := 0

namespace MemoryRateLimiter

/-! ## Section 2: `consume` -/

/-- `this.windows` without the windows that are over at `now`. -/
def evict (windows : Table JsString (Counter Millis)) (now : Millis) : Table JsString (Counter Millis) :=
  windows.rows.foldl (fun windows (k, win) => if win.resetAt ≤ now then windows.erase k else windows) windows

/-- opportunistic eviction so distinct keys cannot grow the map forever -/
def sweep (s : MemoryRateLimiter) (now : Millis) : MemoryRateLimiter :=
  if s.sweepAt ≤ now then { sweepAt := now + 60000, windows := evict s.windows now } else s

/-- The window that a call falls into, before the call is counted. -/
def windowOf (s : MemoryRateLimiter) (c : Consume) : Counter Millis :=
  let fresh : Counter Millis := ⟨0, c.now + c.windowSec * 1000⟩
  match s.windows.lookup c.key with
  | none => fresh
  | some w => if w.resetAt ≤ c.now then fresh else w

/-- What a call is told, from its window. -/
def rule (c : Consume) (w : Counter Millis) : RateLimitDecision :=
  if w.count > c.limit then ⟨false, max 1 (Double.ceilQuotient (w.resetAt - c.now) 1000)⟩
  else ⟨true, 0⟩

/-- What `consume` does after the sweep. -/
def count (s : MemoryRateLimiter) (c : Consume) : RateLimitDecision × MemoryRateLimiter :=
  let w := s.windowOf c
  let w := { w with count := w.count + 1 }
  (rule c w, { s with windows := s.windows.insert c.key w })

def consume (s : MemoryRateLimiter) (c : Consume) : RateLimitDecision × MemoryRateLimiter :=
  (s.sweep c.now).count c

/-- The limiter after calls. -/
def after (s : MemoryRateLimiter) (calls : List Consume) : MemoryRateLimiter :=
  calls.foldl (fun s c => (s.consume c).2) s

/-- What calls are told, one after the other. -/
def decisions (s : MemoryRateLimiter) : List Consume → List (Consume × RateLimitDecision)
  | [] => []
  | c :: calls => (c, (s.consume c).1) :: decisions (s.consume c).2 calls

/-- The same, from a limiter that never sweeps. -/
def decisionsUnswept (s : MemoryRateLimiter) : List Consume → List (Consume × RateLimitDecision)
  | [] => []
  | c :: calls => (c, (s.count c).1) :: decisionsUnswept (s.count c).2 calls

/-! ## Section 3: What the steps look up -/

/-- Eviction takes away the windows that are over, and no other. -/
theorem lookup_evict (windows : Table JsString (Counter Millis)) (now : Millis) (key : JsString) :
    (evict windows now).lookup key = (windows.lookup key).filter fun w => !decide (w.resetAt ≤ now) := by
  rw [← Table.lookup_foldl_erase_rows]
  simp [evict]

theorem windowOf_counted (s : MemoryRateLimiter) (c : Consume) :
    { s.windowOf c with count := (s.windowOf c).count + 1 } =
      hit (c.windowSec * 1000) (s.windows.lookup c.key) c.now := by
  unfold windowOf hit
  cases s.windows.lookup c.key with
  | none => rfl
  | some w =>
    by_cases hover : w.resetAt ≤ c.now
    · simp [hover]
    · simp [hover]

/-- The call counts in the window of its key. -/
theorem count_eq (s : MemoryRateLimiter) (c : Consume) :
    s.count c = (rule c (hit (c.windowSec * 1000) (s.windows.lookup c.key) c.now),
      { s with windows := s.windows.insert c.key (hit (c.windowSec * 1000) (s.windows.lookup c.key) c.now) }) := by
  rw [← windowOf_counted]
  rfl

end MemoryRateLimiter

end Homi
