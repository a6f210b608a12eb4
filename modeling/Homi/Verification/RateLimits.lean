import Homi.Api.RateLimiter

/-! # The budget of a key

  The limiter is compared with one counter for each key that is never taken
  away. A window that the sweep evicts is over, so a counter that is over
  and a counter that is gone open the same window at the next call: the two
  agree on every decision. What the counters allow is known from
  `FixedWindow`.
-/

namespace Homi

open FixedWindow

namespace MemoryRateLimiter

/-! ## Section 1: Counters for all keys -/

abbrev Counters : Type := JsString → Option (Counter Millis)

/-- The length of a window in milliseconds. -/
def width (c : Consume) : Millis := c.windowSec * 1000

/-- The counter of the key after the call. -/
def next (f : Counters) (c : Consume) : Counter Millis := hit (width c) (f c.key) c.now

def advance (f : Counters) (c : Consume) : Counters := Function.update f c.key (some (next f c))

/-- What the counters say to calls, one after the other. -/
def ruled (f : Counters) : List Consume → List (Consume × RateLimitDecision)
  | [] => []
  | c :: calls => (c, rule c (next f c)) :: ruled (advance f c) calls

/-- What is left of a window at `now`. -/
def live (now : Millis) (w : Option (Counter Millis)) : Option (Counter Millis) :=
  w.filter fun w => now < w.resetAt

/-- The map and the counters have the same open windows. -/
def Tracks (now : Millis) (windows : Table JsString (Counter Millis)) (f : Counters) : Prop :=
  ∀ key, live now (windows.lookup key) = live now (f key)

theorem live_open {now : Millis} {w : Counter Millis} (h : now < w.resetAt) : live now (some w) = some w := by
  rw [live, Option.filter_some, if_pos (decide_eq_true h)]

theorem live_over {now : Millis} {w : Counter Millis} (h : w.resetAt ≤ now) : live now (some w) = none := by
  rw [live, Option.filter_some, if_neg]
  simpa using h

theorem live_live {now now' : Millis} (h : now ≤ now') (w : Option (Counter Millis)) :
    live now' (live now w) = live now' w := by
  cases w with
  | none => rfl
  | some w =>
    by_cases hopen : now < w.resetAt
    · rw [live_open hopen]
    · rw [live_over (not_lt.mp hopen), live_over ((not_lt.mp hopen).trans h)]
      rfl

/-- A window that is over is as good as none. -/
theorem hit_live (width now : Millis) (w : Option (Counter Millis)) :
    hit width (live now w) now = hit width w now := by
  cases w with
  | none => rfl
  | some w =>
    by_cases hopen : now < w.resetAt
    · rw [live_open hopen]
    · rw [live_over (not_lt.mp hopen)]
      exact (if_pos (not_lt.mp hopen)).symm

section steps

variable {now : Millis} {s : MemoryRateLimiter} {f : Counters}

theorem Tracks.later {windows : Table JsString (Counter Millis)} {now' : Millis}
    (h : Tracks now windows f) (hle : now ≤ now') : Tracks now' windows f := by
  intro key
  rw [← live_live hle, h key, live_live hle]

/-- The sweep takes away what is over. -/
theorem Tracks.sweep (h : Tracks now s.windows f) : Tracks now (s.sweep now).windows f := by
  unfold MemoryRateLimiter.sweep
  by_cases hdue : s.sweepAt ≤ now
  · rw [if_pos hdue]
    intro key
    rw [← h key, lookup_evict]
    cases s.windows.lookup key with
    | none => rfl
    | some w =>
      by_cases hopen : now < w.resetAt
      · rw [Option.filter_some, if_pos (by simpa using hopen)]
      · rw [Option.filter_some, if_neg (by simpa using hopen), live_over (not_lt.mp hopen)]
        rfl
  · rw [if_neg hdue]
    exact h

/-- A call is told what the counter of its key says. -/
theorem Tracks.count {c : Consume} (h : Tracks c.now s.windows f) :
    (s.count c).1 = rule c (next f c) ∧ Tracks c.now (s.count c).2.windows (advance f c) := by
  have hnext : hit (c.windowSec * 1000) (s.windows.lookup c.key) c.now = next f c := by
    rw [← hit_live, h c.key, hit_live]
    rfl
  rw [count_eq, hnext]
  refine ⟨rfl, ?_⟩
  intro key
  by_cases hkey : key = c.key
  · subst hkey
    rw [AList.lookup_insert, advance, Function.update_self]
  · rw [AList.lookup_insert_ne hkey, advance, Function.update_of_ne hkey]
    exact h key

end steps

/-! ## Section 2: Runs -/

section runs

variable {s : MemoryRateLimiter} {f : Counters} {now : Millis} {calls : List Consume}

/-- In order of time, from `now` on. -/
def Ordered (now : Millis) : List Consume → Prop
  | [] => True
  | c :: calls => now ≤ c.now ∧ Ordered c.now calls

theorem decisions_ruled (h : Tracks now s.windows f) (hcalls : Ordered now calls) :
    decisions s calls = ruled f calls := by
  induction calls generalizing s f now with
  | nil => rfl
  | cons c calls ih =>
    obtain ⟨hrule, htracks⟩ := (h.later hcalls.1).sweep.count
    rw [decisions, ruled, consume, hrule, ih htracks hcalls.2]

theorem decisionsUnswept_ruled (h : Tracks now s.windows f) (hcalls : Ordered now calls) :
    decisionsUnswept s calls = ruled f calls := by
  induction calls generalizing s f now with
  | nil => rfl
  | cons c calls ih =>
    obtain ⟨hrule, htracks⟩ := (h.later hcalls.1).count
    rw [decisionsUnswept, ruled, hrule, ih htracks hcalls.2]

theorem tracks_fresh : Tracks now ({} : MemoryRateLimiter).windows fun _ => none := by
  intro key
  rfl

/-- Only the counters of the keys that are called matter. -/
theorem ruled_congr {g : Counters} (h : ∀ c ∈ calls, f c.key = g c.key) : ruled f calls = ruled g calls := by
  induction calls generalizing f g with
  | nil => rfl
  | cons c calls ih =>
    have hnext : next f c = next g c := by rw [next, next, h c (List.mem_cons_self ..)]
    rw [ruled, ruled, hnext, ih]
    intro c' hc'
    by_cases hkey : c'.key = c.key
    · rw [advance, advance, hkey, Function.update_self, Function.update_self, hnext]
    · rw [advance, advance, Function.update_of_ne hkey, Function.update_of_ne hkey,
        h c' (List.mem_cons_of_mem _ hc')]

/-- The calls of one key are told what they would be told alone. -/
theorem ruled_filter (key : JsString) : (ruled f calls).filter (fun x => x.1.key = key) =
    ruled f (calls.filter fun c => c.key = key) := by
  induction calls generalizing f with
  | nil => rfl
  | cons c calls ih =>
    by_cases hkey : c.key = key
    · rw [ruled, List.filter_cons_of_pos (by simpa using hkey),
        List.filter_cons_of_pos (by simpa using hkey), ruled, ih]
    · rw [ruled, List.filter_cons_of_neg (by simpa using hkey),
        List.filter_cons_of_neg (by simpa using hkey), ih]
      apply ruled_congr
      intro c' hc'
      have hne : c'.key ≠ c.key := by
        intro heq
        exact hkey (heq ▸ by simpa using (List.mem_filter.mp hc').2)
      rw [advance, Function.update_of_ne hne]

/-- The calls of one key, as events of its counter. -/
theorem ruled_counted {key : JsString} {limit windowSec : ℕ}
    (h : ∀ c ∈ calls, c.key = key ∧ c.limit = limit ∧ c.windowSec = windowSec) :
    (ruled f calls).map (fun x => (x.1.now, x.2.allowed)) =
      counted limit (windowSec * 1000) (f key) (calls.map fun c => c.now) := by
  induction calls generalizing f with
  | nil => rfl
  | cons c calls ih =>
    obtain ⟨hkey, hlimit, hwindow⟩ := h c (List.mem_cons_self ..)
    have hnext : next f c = hit (windowSec * 1000) (f key) c.now := by rw [next, width, hwindow, hkey]
    have hallowed : (rule c (next f c)).allowed = decide ((next f c).count ≤ limit) := by
      unfold rule
      by_cases hover : (next f c).count > c.limit
      · rw [if_pos hover, decide_eq_false (by omega)]
      · rw [if_neg hover, decide_eq_true (by omega)]
    rw [ruled, List.map_cons, List.map_cons, counted, ih fun c' hc' => h c' (List.mem_cons_of_mem _ hc'),
      hallowed, advance, hkey, Function.update_self, hnext]

end runs

/-! ## Section 3: Denials -/

section denials

variable {s : MemoryRateLimiter} {f g : Counters} {now : Millis} {c c' : Consume} {calls mid : List Consume}

/-- Both windows are used up and end together, or they are one. -/
def Alike (limit : ℕ) (w w' : Option (Counter Millis)) : Prop :=
  w = w' ∨ ∃ n n' r, w = some ⟨n, r⟩ ∧ w' = some ⟨n', r⟩ ∧ limit ≤ n ∧ limit ≤ n'

theorem rule_alike (h : Alike c.limit (f c.key) (g c.key)) :
    rule c (next f c) = rule c (next g c) ∧ Alike c.limit (some (next f c)) (some (next g c)) := by
  rcases h with heq | ⟨n, n', r, hf, hg, hn, hn'⟩
  · have hnext : next f c = next g c := by rw [next, next, heq]
    rw [hnext]
    exact ⟨rfl, Or.inl rfl⟩
  · -- a window that is over starts anew in both
    by_cases hover : r ≤ c.now
    · have hnext : next f c = next g c := by
        rw [next, next, hf, hg]
        exact (if_pos hover).trans (if_pos hover).symm
      rw [hnext]
      exact ⟨rfl, Or.inl rfl⟩
    · -- in one that is open, both are past the limit
      have hnextf : next f c = ⟨n + 1, r⟩ := by
        rw [next, hf]
        exact if_neg hover
      have hnextg : next g c = ⟨n' + 1, r⟩ := by
        rw [next, hg]
        exact if_neg hover
      rw [hnextf, hnextg]
      constructor
      · unfold rule
        rw [if_pos (Nat.lt_succ_of_le hn), if_pos (Nat.lt_succ_of_le hn')]
      · exact Or.inr ⟨_, _, r, rfl, rfl, hn.trans (Nat.le_succ n), hn'.trans (Nat.le_succ n')⟩

theorem ruled_alike (hfixed : ∀ c ∈ calls, ∀ c' ∈ calls, c.key = c'.key → c.limit = c'.limit)
    (h : ∀ c ∈ calls, Alike c.limit (f c.key) (g c.key)) : ruled f calls = ruled g calls := by
  induction calls generalizing f g with
  | nil => rfl
  | cons c calls ih =>
    obtain ⟨hrule, hnext⟩ := rule_alike (h c (List.mem_cons_self ..))
    rw [ruled, ruled, hrule, ih]
    · intro a ha b hb
      exact hfixed a (List.mem_cons_of_mem _ ha) b (List.mem_cons_of_mem _ hb)
    · intro a ha
      by_cases hkey : a.key = c.key
      · have hlimit : a.limit = c.limit :=
          hfixed a (List.mem_cons_of_mem _ ha) c (List.mem_cons_self ..) hkey
        rw [advance, advance, hkey, Function.update_self, Function.update_self, hlimit]
        exact hnext
      · rw [advance, advance, Function.update_of_ne hkey, Function.update_of_ne hkey]
        exact h a (List.mem_cons_of_mem _ ha)

/-- Only an open window that is used up denies a call. -/
theorem denied_cases (hlimit : 1 ≤ c.limit) (h : (rule c (next f c)).allowed = false) :
    ∃ n r, f c.key = some ⟨n, r⟩ ∧ c.now < r ∧ c.limit ≤ n ∧ next f c = ⟨n + 1, r⟩ := by
  have hcount : (next f c).count > c.limit := by
    by_contra hle
    rw [rule, if_neg hle] at h
    cases h
  -- a new window allows its first call
  cases hw : f c.key with
  | none =>
    have hnext : next f c = ⟨1, c.now + width c⟩ := by
      rw [next, hw]
      rfl
    rw [hnext] at hcount
    exact absurd hlimit (not_le.mpr hcount)
  | some w =>
    by_cases hover : w.resetAt ≤ c.now
    · have hnext : next f c = ⟨1, c.now + width c⟩ := by
        rw [next, hw]
        exact if_pos hover
      rw [hnext] at hcount
      exact absurd hlimit (not_le.mpr hcount)
    · have hnext : next f c = ⟨w.count + 1, w.resetAt⟩ := by
        rw [next, hw]
        exact if_neg hover
      rw [hnext] at hcount
      exact ⟨w.count, w.resetAt, rfl, not_le.mp hover, Nat.le_of_lt_succ hcount, hnext⟩

/-- Calls on other keys leave a counter as it is. -/
theorem foldl_advance_other {key : JsString} (h : ∀ c ∈ calls, c.key ≠ key) :
    (calls.foldl advance f) key = f key := by
  induction calls generalizing f with
  | nil => rfl
  | cons c calls ih =>
    rw [List.foldl_cons, ih fun c' hc' => h c' (List.mem_cons_of_mem _ hc'), advance,
      Function.update_of_ne (Ne.symm (h c (List.mem_cons_self ..)))]

/-- The time that is told is enough. Up to 2^53 milliseconds the quotient is
    not rounded down; more than that is behind every date. -/
theorem resetAt_le {now r later : ℕ} (hnow : now < r) (hlater : later ≤ 8640000000000000)
    (h : now + max 1 (Double.ceilQuotient (r - now) 1000) * 1000 ≤ later) : r ≤ later := by
  have hmax : Double.ceilQuotient (r - now) 1000 ≤ max 1 (Double.ceilQuotient (r - now) 1000) :=
    Nat.le_max_right ..
  by_cases hsmall : r - now < 2 ^ 53
  · have henough := Double.le_mul_ceilQuotient (d := 1000) (by decide) hsmall
    omega
  · by_cases hquot : (r - now) / 1000 < 2 ^ 53
    · have hfloor := Double.div_le_ceilQuotient (d := 1000) (by decide) hquot
      omega
    · have hlarge := Double.large_le_ceilQuotient (not_lt.mp hquot)
      omega

end denials

/-! ## Section 4: The budget -/

section budget

variable {s : MemoryRateLimiter} {f : Counters} {now : Millis} {c : Consume} {calls pre post : List Consume}

theorem ordered_of_pairwise (h : ∀ c ∈ calls, now ≤ c.now)
    (hcalls : calls.Pairwise fun c c' => c.now ≤ c'.now) : Ordered now calls := by
  induction calls generalizing now with
  | nil => trivial
  | cons c calls ih =>
    rw [List.pairwise_cons] at hcalls
    exact ⟨h c (List.mem_cons_self ..), ih hcalls.1 hcalls.2⟩

theorem ruled_append (pre post : List Consume) :
    ruled f (pre ++ post) = ruled f pre ++ ruled (pre.foldl advance f) post := by
  induction pre generalizing f with
  | nil => rfl
  | cons c pre ih => rw [List.cons_append, ruled, ruled, ih, List.foldl_cons, List.cons_append]

theorem ruled_length (calls : List Consume) : (ruled f calls).length = calls.length := by
  induction calls generalizing f with
  | nil => rfl
  | cons c calls ih => rw [ruled, List.length_cons, List.length_cons, ih]

/-- What the next call is told after a run. -/
theorem consume_after (h : Tracks now s.windows f) (hcalls : Ordered now (pre ++ c :: post)) :
    ((s.after pre).consume c).1 = rule c (next (pre.foldl advance f) c) := by
  induction pre generalizing s f now with
  | nil => exact (h.later hcalls.1).sweep.count.1
  | cons first pre ih =>
    have htracks := (h.later hcalls.1).sweep.count.2
    exact ih htracks hcalls.2

/-- The calls after a denied one do not see whether it was made. -/
theorem ruled_denied (hlimit : 1 ≤ c.limit) (hfixed : ∀ c' ∈ post, c'.key = c.key → c'.limit = c.limit)
    (hpost : ∀ a ∈ post, ∀ b ∈ post, a.key = b.key → a.limit = b.limit)
    (h : (rule c (next f c)).allowed = false) : ruled (advance f c) post = ruled f post := by
  obtain ⟨n, r, hf, -, hn, hnext⟩ := denied_cases hlimit h
  apply ruled_alike hpost
  intro a ha
  by_cases hkey : a.key = c.key
  · rw [advance, hkey, Function.update_self, hf, hnext, hfixed a ha hkey]
    exact Or.inr ⟨n + 1, n, r, rfl, rfl, hn.trans (Nat.le_succ n), hn⟩
  · rw [advance, Function.update_of_ne hkey]
    exact Or.inl rfl

/-- The call after the time that was told opens a window. -/
theorem rule_retry {c' : Consume} {mid : List Consume} (hlimit : 1 ≤ c.limit) (hlimit' : 1 ≤ c'.limit)
    (hkey : c'.key = c.key) (hmid : ∀ m ∈ mid, m.key ≠ c.key) (h : (rule c (next f c)).allowed = false)
    (hlater : c.now + (rule c (next f c)).retryAfterSec * 1000 ≤ c'.now) :
    (rule c' (next (mid.foldl advance (advance f c)) c')).allowed = true := by
  obtain ⟨n, r, -, hopen, hn, hnext⟩ := denied_cases hlimit h
  have hretry : (rule c (next f c)).retryAfterSec = max 1 (Double.ceilQuotient (r - c.now) 1000) := by
    rw [hnext, rule, if_pos (Nat.lt_succ_of_le hn)]
  rw [hretry] at hlater
  have hover : r ≤ c'.now := resetAt_le hopen c'.now_le hlater
  have hcounter : mid.foldl advance (advance f c) c'.key = some ⟨n + 1, r⟩ := by
    rw [hkey, foldl_advance_other hmid, advance, Function.update_self, hnext]
  have hfresh : next (mid.foldl advance (advance f c)) c' = ⟨1, c'.now + width c'⟩ := by
    rw [next, hcounter]
    exact if_pos hover
  rw [hfresh, rule, if_neg (not_lt.mpr hlimit')]

end budget

end MemoryRateLimiter

open MemoryRateLimiter

/-- Calls in order of time, each key always with the same limit and window. -/
structure Regular (calls : List Consume) : Prop where
  ordered : calls.Pairwise fun c c' => c.now ≤ c'.now
  positive : ∀ c ∈ calls, 1 ≤ c.limit ∧ 1 ≤ c.windowSec
  fixed : ∀ c ∈ calls, ∀ c' ∈ calls, c.key = c'.key → c.limit = c'.limit ∧ c.windowSec = c'.windowSec

/-- The calls of a key. -/
def ofKey (key : JsString) (calls : List Consume) : List Consume := calls.filter fun c => c.key = key

/-- When the calls of a key came and which of them were allowed. -/
def rulingsOf (key : JsString) (decided : List (Consume × RateLimitDecision)) : List (Millis × Bool) :=
  (decided.filter fun x => x.1.key = key).map fun x => (x.1.now, x.2.allowed)

/-- What a limiter that starts empty makes of `calls`. -/
structure Budget (calls : List Consume) : Prop where
  windows : ∀ c ∈ calls, rulingsOf c.key (decisions {} calls) =
    rulings c.limit (width c) ((ofKey c.key calls).map fun c => c.now)
  interval : ∀ c ∈ calls, ∀ first,
    allowedIn first (first + width c) (rulingsOf c.key (decisions {} calls)) ≤ 2 * c.limit
  /-- Without a denied call, all others are decided as before. -/
  denied : ∀ pre c post, calls = pre ++ c :: post →
    ((({} : MemoryRateLimiter).after pre).consume c).1.allowed = false →
    decisions {} (pre ++ post) = (decisions {} calls).eraseIdx pre.length
  others : ∀ key, (decisions {} calls).filter (fun x => x.1.key = key) = decisions {} (ofKey key calls)
  sweep : decisions {} calls = decisionsUnswept {} calls
  retry : ∀ pre c mid c' post, calls = pre ++ c :: mid ++ c' :: post → c'.key = c.key →
    (∀ m ∈ mid, m.key ≠ c.key) →
    ((({} : MemoryRateLimiter).after pre).consume c).1.allowed = false →
    c.now + ((({} : MemoryRateLimiter).after pre).consume c).1.retryAfterSec * 1000 ≤ c'.now →
    ((({} : MemoryRateLimiter).after (pre ++ c :: mid)).consume c').1.allowed = true

theorem memory_rate_limiter (calls : List Consume) (hcalls : Regular calls) : Budget calls := by
  have hordered : Ordered 0 calls := ordered_of_pairwise (fun c _ => Nat.zero_le _) hcalls.ordered
  -- what `consume` decides is the plain rule over the calls so far
  have hruled : decisions {} calls = ruled (fun _ => none) calls := decisions_ruled tracks_fresh hordered
  -- for one key that rule is the windows of its times
  have hwindows : ∀ c ∈ calls, rulingsOf c.key (decisions {} calls) =
      rulings c.limit (width c) ((ofKey c.key calls).map fun c => c.now) := by
    intro c hc
    rw [rulingsOf, hruled, ruled_filter, ruled_counted, counted_none]
    · rfl
    · intro c' hc'
      obtain ⟨hmem, hkey⟩ := List.mem_filter.mp hc'
      have hkey : c'.key = c.key := by simpa using hkey
      exact ⟨hkey, hcalls.fixed c' hmem c hc hkey⟩
  refine ⟨hwindows, ?_, ?_, ?_, ?_, ?_⟩
  · -- two budgets in the time of one window
    intro c hc first
    have hwidth : (0 : ℕ) < width c := Nat.mul_pos (hcalls.positive c hc).2 (by decide)
    rw [hwindows c hc]
    apply allowedIn_rulings first c.limit hwidth
    rw [List.pairwise_map]
    exact hcalls.ordered.filter _
  · intro pre c post heq hdenied
    -- a denied call leaves no trace
    subst heq
    have hc : c ∈ pre ++ c :: post := by simp
    have hmem : ∀ a ∈ post, a ∈ pre ++ c :: post := by
      intro a ha
      simp [ha]
    rw [consume_after tracks_fresh hordered] at hdenied
    have hshorter : Ordered 0 (pre ++ post) :=
      ordered_of_pairwise (fun c _ => Nat.zero_le _)
        (hcalls.ordered.sublist ((List.Sublist.refl pre).append (List.sublist_cons_self c post)))
    rw [hruled, decisions_ruled tracks_fresh hshorter, ruled_append, ruled_append, ruled,
      ruled_denied (hcalls.positive c hc).1 (fun a ha hkey => (hcalls.fixed a (hmem a ha) c hc hkey).1)
        (fun a ha b hb hkey => (hcalls.fixed a (hmem a ha) b (hmem b hb) hkey).1) hdenied]
    rw [List.eraseIdx_append_of_length_le (ruled_length pre).le, ruled_length, Nat.sub_self]
    rfl
  · -- keys do not see each other
    intro key
    rw [hruled, ruled_filter, ofKey, decisions_ruled tracks_fresh]
    exact ordered_of_pairwise (fun c _ => Nat.zero_le _) (hcalls.ordered.filter _)
  · -- nor does the sweep show
    rw [hruled, decisionsUnswept_ruled tracks_fresh hordered]
  · intro pre c mid c' post heq hkey hmid hdenied hlater
    subst heq
    -- the retry after the time that was named
    have hreassoc : pre ++ c :: mid ++ c' :: post = pre ++ c :: (mid ++ c' :: post) := by simp
    have hordered' := hordered
    rw [hreassoc] at hordered'
    rw [consume_after tracks_fresh hordered'] at hdenied hlater
    rw [consume_after tracks_fresh hordered, List.foldl_append, List.foldl_cons]
    exact rule_retry (hcalls.positive c (by simp)).1 (hcalls.positive c' (by simp)).1 hkey hmid hdenied hlater

/-- Calls of two keys. The third of the first key is denied for a second, the
    last one comes after a sweep. -/
def signIns : List Consume :=
  [⟨js "ana", 2, 1, 61000, by decide⟩, ⟨js "ana", 2, 1, 61001, by decide⟩, ⟨js "ben", 5, 60, 61001, by decide⟩,
    ⟨js "ana", 2, 1, 61999, by decide⟩, ⟨js "ana", 2, 1, 62999, by decide⟩, ⟨js "ana", 2, 1, 121000, by decide⟩]

theorem memory_rate_limiter_signIns :
    (decisions {} signIns).map Prod.snd = [⟨true, 0⟩, ⟨true, 0⟩, ⟨true, 0⟩, ⟨false, 1⟩, ⟨true, 0⟩, ⟨true, 0⟩] ∧
    Budget signIns := by
  exact ⟨by decide +kernel, memory_rate_limiter signIns ⟨by decide, by decide, by decide⟩⟩

end Homi
