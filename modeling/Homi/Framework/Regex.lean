import Mathlib.Data.List.Infix
import Mathlib.Logic.Function.Basic

/-! # Backtracking regular expressions

  A regular expression is tried in one order: a greedy repetition takes as
  much as it can and then gives back, alternatives go from left to right,
  and an optional part is tried before it is left out. `ways` lists the
  matches in that order, each with what is left of the input and with the
  groups it captured, and `exec` is the first.

  What can match does not depend on the order (`mem_ways_*`), what does
  match may (`head?_ways_*`).
-/

namespace Regex

variable {α : Type}

/-- What the groups captured. A group that took no part has captured
    nothing. -/
abbrev Captures (α : Type) : Type := ℕ → Option (List α)

end Regex

/-- Regular expressions over the units `α`. -/
inductive Regex (α : Type) where
  /-- `(?:a|b|c)`, for texts. -/
  | oneOf (texts : List (List α))
  /-- `[p]*` -/
  | many (p : α → Bool)
  /-- `[p]{0,n}` -/
  | upTo (p : α → Bool) (n : ℕ)
  | seq (r r' : Regex α)
  /-- `(?:r)?` -/
  | opt (r : Regex α)
  /-- `(r)`, the group with number `k`. -/
  | group (k : ℕ) (r : Regex α)
  /-- `$` -/
  | stop

namespace Regex

variable {α : Type} {p : α → Bool} {n k : ℕ} {r r' : Regex α} {s t rest : List α}
  {caps caps' : Captures α} {texts : List (List α)}

/-! ## Section 1: Repetition -/

/-- What `[p]{0,n}` can leave, the least first. -/
def upToWays (p : α → Bool) : ℕ → List α → List (List α)
  | 0, s => [s]
  | _ + 1, [] => [[]]
  | n + 1, c :: s => if p c then upToWays p n s ++ [c :: s] else [c :: s]

theorem mem_upToWays :
    rest ∈ upToWays p n s ↔ ∃ t, s = t ++ rest ∧ t.length ≤ n ∧ ∀ c ∈ t, p c := by
  induction n generalizing s with
  | zero =>
    rw [upToWays, List.mem_singleton]
    constructor
    · rintro rfl
      exact ⟨[], rfl, by simp, by simp⟩
    · rintro ⟨t, heq, hlen, -⟩
      rw [heq, List.length_eq_zero_iff.mp (Nat.le_zero.mp hlen), List.nil_append]
  | succ n ih =>
    cases s with
    | nil =>
      rw [upToWays, List.mem_singleton]
      constructor
      · rintro rfl
        exact ⟨[], rfl, by simp, by simp⟩
      · rintro ⟨t, heq, -, -⟩
        exact (List.append_eq_nil_iff.mp heq.symm).2
    | cons c s =>
      unfold upToWays
      -- a unit that fits may be taken or left
      by_cases hc : p c
      · rw [if_pos hc, List.mem_append, ih, List.mem_singleton]
        constructor
        · rintro (⟨t, rfl, hlen, ht⟩ | rfl)
          · exact ⟨c :: t, rfl, by simpa using hlen, by simpa [hc] using ht⟩
          · exact ⟨[], rfl, by simp, by simp⟩
        · rintro ⟨t, heq, hlen, ht⟩
          cases t with
          | nil => exact Or.inr heq.symm
          | cons d t =>
            cases heq
            exact Or.inl ⟨t, rfl, by simpa using hlen, fun e he => ht e (List.mem_cons_of_mem _ he)⟩
      · rw [if_neg hc, List.mem_singleton]
        constructor
        · rintro rfl
          exact ⟨[], rfl, by simp, by simp⟩
        · rintro ⟨t, heq, -, ht⟩
          cases t with
          | nil => exact heq.symm
          | cons d t =>
            cases heq
            exact absurd (ht c (List.mem_cons_self ..)) hc

/-- A repetition takes all it can get. -/
theorem head?_upToWays (ht : ∀ c ∈ t, p c) (hlen : t.length ≤ n) (hstop : ∀ c ∈ s.head?, ¬ p c) :
    (upToWays p n (t ++ s)).head? = some s := by
  induction t generalizing n with
  | nil =>
    cases s with
    | nil => cases n <;> rfl
    | cons c s =>
      have hc := hstop c rfl
      cases n with
      | zero => rfl
      | succ n => simp [upToWays, hc]
  | cons c t ih =>
    cases n with
    | zero => exact absurd hlen (by simp)
    | succ n =>
      have hc := ht c (List.mem_cons_self ..)
      have ih := ih (fun d hd => ht d (List.mem_cons_of_mem _ hd)) (Nat.le_of_succ_le_succ hlen)
      rw [List.cons_append, upToWays, if_pos hc, List.head?_append, ih, Option.some_or]

/-- The first element decides, if it leads to a match. -/
theorem head?_flatMap_of_first {β γ : Type} {l : List β} {f : β → List γ} {b : β} {c : γ}
    (hl : l.head? = some b) (hf : (f b).head? = some c) : (l.flatMap f).head? = some c := by
  cases l with
  | nil => cases hl
  | cons first others =>
    cases hl
    rw [List.flatMap_cons, List.head?_append, hf, Option.some_or]

theorem head?_filter_of_first {β : Type} {l : List β} {q : β → Bool} {b : β} (hl : l.head? = some b)
    (hb : q b) : (l.filter q).head? = some b := by
  cases l with
  | nil => cases hl
  | cons first others =>
    cases hl
    rw [List.filter_cons_of_pos hb]
    rfl

/-! ## Section 2: Matching -/

variable [DecidableEq α]

/-- What is left of `s` after a text. -/
def strip : List α → List α → Option (List α)
  | [], s => some s
  | _ :: _, [] => none
  | c :: text, d :: s => if c = d then strip text s else none

/-- The matches at the start of `s`, in the order in which they are tried. -/
def ways : Regex α → List α → Captures α → List (List α × Captures α)
  | oneOf texts, s, caps => (texts.filterMap fun text => strip text s).map fun rest => (rest, caps)
  | many p, s, caps => (upToWays p s.length s).map fun rest => (rest, caps)
  | upTo p n, s, caps => (upToWays p n s).map fun rest => (rest, caps)
  | seq r r', s, caps => (r.ways s caps).flatMap fun (rest, caps) => r'.ways rest caps
  -- an optional part that matches nothing counts as left out
  | opt r, s, caps => ((r.ways s caps).filter fun (rest, _) => rest.length < s.length) ++ [(s, caps)]
  | group k r, s, caps => (r.ways s caps).map fun (rest, caps) =>
      (rest, Function.update caps k (some (s.take (s.length - rest.length))))
  | stop, s, caps => if s = [] then [(s, caps)] else []

-- the equations of `ways`, derived once for all that follows
attribute [local simp] ways

/-- The groups of the first match at the start of `s`. -/
def exec (r : Regex α) (s : List α) : Option (Captures α) :=
  ((r.ways s fun _ => none).head?).map Prod.snd

/-! ## Section 3: What can match -/

theorem strip_eq_some : strip t s = some rest ↔ s = t ++ rest := by
  induction t generalizing s with
  | nil => simp [strip, eq_comm]
  | cons c t ih =>
    cases s with
    | nil => simp [strip]
    | cons d s =>
      unfold strip
      by_cases hcd : c = d
      · simp [hcd, ih]
      · simp [hcd, Ne.symm hcd]

theorem mem_ways_oneOf : (rest, caps') ∈ (oneOf texts).ways s caps ↔
    caps' = caps ∧ ∃ text ∈ texts, s = text ++ rest := by
  simp only [ways, List.mem_map, List.mem_filterMap, strip_eq_some, Prod.mk.injEq]
  constructor
  · rintro ⟨_, hmem, rfl, rfl⟩
    exact ⟨rfl, hmem⟩
  · rintro ⟨rfl, hmem⟩
    exact ⟨rest, hmem, rfl, rfl⟩

theorem mem_ways_many : (rest, caps') ∈ (many p).ways s caps ↔
    caps' = caps ∧ ∃ t, s = t ++ rest ∧ ∀ c ∈ t, p c := by
  simp only [ways, List.mem_map, mem_upToWays, Prod.mk.injEq]
  constructor
  · rintro ⟨_, ⟨t, hs, -, ht⟩, rfl, rfl⟩
    exact ⟨rfl, t, hs, ht⟩
  · rintro ⟨rfl, t, hs, ht⟩
    refine ⟨rest, ⟨t, hs, ?_, ht⟩, rfl, rfl⟩
    rw [hs, List.length_append]
    omega

theorem mem_ways_upTo : (rest, caps') ∈ (upTo p n).ways s caps ↔
    caps' = caps ∧ ∃ t, s = t ++ rest ∧ t.length ≤ n ∧ ∀ c ∈ t, p c := by
  simp only [ways, List.mem_map, mem_upToWays, Prod.mk.injEq]
  constructor
  · rintro ⟨_, hmem, rfl, rfl⟩
    exact ⟨rfl, hmem⟩
  · rintro ⟨rfl, hmem⟩
    exact ⟨rest, hmem, rfl, rfl⟩

theorem mem_ways_seq : (rest, caps') ∈ (seq r r').ways s caps ↔
    ∃ mid capsMid, (mid, capsMid) ∈ r.ways s caps ∧ (rest, caps') ∈ r'.ways mid capsMid := by
  simp only [ways, List.mem_flatMap, Prod.exists]

theorem mem_ways_opt : (rest, caps') ∈ (opt r).ways s caps ↔
    ((rest, caps') ∈ r.ways s caps ∧ rest.length < s.length) ∨ (rest = s ∧ caps' = caps) := by
  simp only [ways, List.mem_append, List.mem_filter, decide_eq_true_eq, List.mem_singleton,
    Prod.mk.injEq]

theorem mem_ways_group : (rest, caps') ∈ (group k r).ways s caps ↔
    ∃ capsIn, (rest, capsIn) ∈ r.ways s caps ∧
      caps' = Function.update capsIn k (some (s.take (s.length - rest.length))) := by
  simp only [ways, List.mem_map, Prod.mk.injEq, Prod.exists]
  constructor
  · rintro ⟨_, capsIn, hmem, rfl, rfl⟩
    exact ⟨capsIn, hmem, rfl⟩
  · rintro ⟨capsIn, hmem, rfl⟩
    exact ⟨rest, capsIn, hmem, rfl, rfl⟩

theorem mem_ways_stop : (rest, caps') ∈ (stop : Regex α).ways s caps ↔
    s = [] ∧ rest = s ∧ caps' = caps := by
  unfold ways
  by_cases hs : s = []
  · simp [hs]
  · simp [hs]

omit [DecidableEq α] in
/-- A group captures the units in front of what it leaves. -/
theorem take_captured (t rest : List α) : (t ++ rest).take ((t ++ rest).length - rest.length) = t := by
  simp

theorem exec_mem (h : r.exec s = some caps) : ∃ rest, (rest, caps) ∈ r.ways s fun _ => none := by
  unfold exec at h
  obtain ⟨⟨rest, caps'⟩, hhead, rfl⟩ := Option.map_eq_some_iff.mp h
  exact ⟨rest, List.mem_of_mem_head? hhead⟩

theorem exec_some (h : (rest, caps) ∈ r.ways s fun _ => none) : ∃ caps', r.exec s = some caps' := by
  unfold exec
  cases hways : r.ways s fun _ => none with
  | nil =>
    rw [hways] at h
    cases h
  | cons first others => exact ⟨first.2, rfl⟩

/-! ## Section 4: What matches first -/

theorem head?_ways_seq {mid last : List α} {capsMid : Captures α}
    (h : (r.ways s caps).head? = some (mid, capsMid))
    (h' : (r'.ways mid capsMid).head? = some (last, caps')) :
    ((seq r r').ways s caps).head? = some (last, caps') := by
  unfold ways
  exact head?_flatMap_of_first h h'

theorem head?_ways_group (h : (r.ways s caps).head? = some (rest, caps')) :
    ((group k r).ways s caps).head? =
      some (rest, Function.update caps' k (some (s.take (s.length - rest.length)))) := by
  unfold ways
  rw [List.head?_map, h]
  rfl

theorem head?_ways_opt (h : (r.ways s caps).head? = some (rest, caps')) (hlen : rest.length < s.length) :
    ((opt r).ways s caps).head? = some (rest, caps') := by
  unfold ways
  rw [List.head?_append, head?_filter_of_first h (decide_eq_true hlen), Option.some_or]

theorem head?_ways_oneOf (text : List α) (texts : List (List α)) (rest : List α) (caps : Captures α) :
    ((oneOf (text :: texts)).ways (text ++ rest) caps).head? = some (rest, caps) := by
  have hstrip : strip text (text ++ rest) = some rest := strip_eq_some.mpr rfl
  unfold ways
  simp only [List.filterMap_cons, hstrip]
  rfl

theorem head?_ways_many (ht : ∀ c ∈ t, p c) (hstop : ∀ c ∈ s.head?, ¬ p c) (caps : Captures α) :
    ((many p).ways (t ++ s) caps).head? = some (s, caps) := by
  unfold ways
  rw [List.head?_map, head?_upToWays ht (by simp) hstop]
  rfl

theorem head?_ways_upTo (ht : ∀ c ∈ t, p c) (hlen : t.length ≤ n) (caps : Captures α) :
    ((upTo p n).ways t caps).head? = some ([], caps) := by
  have htake := head?_upToWays (s := []) ht hlen (by simp)
  rw [List.append_nil] at htake
  unfold ways
  rw [List.head?_map, htake]
  rfl

theorem exec_of_head? (h : (r.ways s fun _ => none).head? = some (rest, caps)) : r.exec s = some caps := by
  unfold exec
  rw [h]
  rfl

end Regex
