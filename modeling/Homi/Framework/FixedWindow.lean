import Mathlib.Algebra.Order.Monoid.Defs
import Mathlib.Data.List.Lemmas
import Mathlib.Data.List.TakeWhile

/-! # Fixed windows

  A budget of `limit` events that starts anew with each window. A window is
  opened by the first event at or after the end of the window before, and
  its end depends on that event only.

  The counter keeps the number of events and the end of the last window.
  What it allows is what the windows allow, and never more than two budgets
  in the time of one window.
-/

namespace FixedWindow

/-! ## Section 1: Windows -/

section windows

variable {T : Type} [LinearOrder T] [Add T]

/-- The windows of the events at `times`. -/
def windows (width : T) : List T → List (List T)
  | [] => []
  | t :: times =>
      (t :: times.takeWhile (· < t + width)) :: windows width (times.dropWhile (· < t + width))
termination_by times => times.length
decreasing_by
  have := (List.dropWhile_sublist (l := times) (· < t + width)).length_le
  simp only [List.length_cons]
  omega

/-- The first `limit` events of a window are allowed. -/
def ruleWindow (limit : ℕ) (window : List T) : List (T × Bool) :=
  window.mapIdx fun i t => (t, decide (i < limit))

/-- Every event, and whether it is allowed. -/
def rulings (limit : ℕ) (width : T) (times : List T) : List (T × Bool) :=
  (windows width times).flatMap (ruleWindow limit)

theorem rulings_nil (limit : ℕ) (width : T) : rulings limit width [] = [] := by
  rw [rulings, windows]
  rfl

theorem rulings_cons (limit : ℕ) (width t : T) (times : List T) :
    rulings limit width (t :: times) = ruleWindow limit (t :: times.takeWhile (· < t + width)) ++
      rulings limit width (times.dropWhile (· < t + width)) := by
  rw [rulings, windows]
  rfl

omit [LinearOrder T] [Add T] in
theorem ruleWindow_times (limit : ℕ) (window : List T) : (ruleWindow limit window).map Prod.fst = window := by
  apply List.ext_getElem
  · simp [ruleWindow]
  · intro i _ _
    simp [ruleWindow]

/-- Every event is ruled on, in its order. -/
theorem rulings_times (limit : ℕ) (width : T) (times : List T) :
    (rulings limit width times).map Prod.fst = times := by
  induction times using windows.induct width with
  | case1 => rw [rulings_nil, List.map_nil]
  | case2 t times ih =>
    rw [rulings_cons, List.map_append, ruleWindow_times, ih, List.cons_append, List.takeWhile_append_dropWhile]

end windows

/-! ## Section 2: The counter -/

section counter

variable {T : Type} [LinearOrder T] [Add T]

structure Counter (T : Type) where
  count : ℕ
  resetAt : T
  deriving DecidableEq

/-- The counter after an event. -/
def hit (width : T) (w : Option (Counter T)) (now : T) : Counter T :=
  match w with
  | some w => if w.resetAt ≤ now then ⟨1, now + width⟩ else ⟨w.count + 1, w.resetAt⟩
  | none => ⟨1, now + width⟩

/-- What a counter that starts as `w` allows. -/
def counted (limit : ℕ) (width : T) : Option (Counter T) → List T → List (T × Bool)
  | _, [] => []
  | w, t :: times =>
      (t, decide ((hit width w t).count ≤ limit)) :: counted limit width (some (hit width w t)) times

/-- An open window goes on until its end, then windows follow. -/
theorem counted_open (limit : ℕ) (width : T) (times : List T) (n : ℕ) (r : T) :
    counted limit width (some ⟨n, r⟩) times =
      ((times.takeWhile (· < r)).mapIdx fun i t => (t, decide (n + i < limit))) ++
        rulings limit width (times.dropWhile (· < r)) := by
  induction times generalizing n r with
  | nil => simp [counted, rulings_nil]
  | cons t times ih =>
    by_cases ht : t < r
    · have hhit : hit width (some ⟨n, r⟩) t = ⟨n + 1, r⟩ := if_neg (not_le.mpr ht)
      rw [counted, hhit, ih, List.takeWhile_cons_of_pos (by simpa using ht),
        List.dropWhile_cons_of_pos (by simpa using ht), List.mapIdx_cons, List.cons_append]
      simp only [Nat.add_zero, Nat.succ_le_iff, Nat.add_assoc, Nat.add_comm 1]
    · have hhit : hit width (some ⟨n, r⟩) t = ⟨1, t + width⟩ := if_pos (not_lt.mp ht)
      rw [counted, hhit, ih, List.takeWhile_cons_of_neg (by simpa using ht),
        List.dropWhile_cons_of_neg (by simpa using ht), rulings_cons, ruleWindow, List.mapIdx_cons]
      simp only [List.mapIdx_nil, List.nil_append, List.cons_append, Nat.succ_le_iff, Nat.add_comm 1]

/-- The counter rules as the windows do. -/
theorem counted_none (limit : ℕ) (width : T) (times : List T) :
    counted limit width none times = rulings limit width times := by
  cases times with
  | nil => rw [counted, rulings_nil]
  | cons t times =>
    have hhit : hit width none t = ⟨1, t + width⟩ := rfl
    rw [counted, hhit, counted_open, rulings_cons, ruleWindow, List.mapIdx_cons]
    simp only [List.cons_append, Nat.succ_le_iff, Nat.add_comm 1]

end counter

/-! ## Section 3: The budget of an interval -/

section interval

variable {T : Type} [LinearOrder T]

/-- How many events between `first` and `last` are allowed. -/
def allowedIn (first last : T) (ruled : List (T × Bool)) : ℕ :=
  ruled.countP fun x => x.2 && decide (first ≤ x.1 ∧ x.1 ≤ last)

theorem allowedIn_append (first last : T) (ruled ruled' : List (T × Bool)) :
    allowedIn first last (ruled ++ ruled') = allowedIn first last ruled + allowedIn first last ruled' :=
  List.countP_append

theorem allowedIn_outside {first last : T} {ruled : List (T × Bool)}
    (h : ∀ t ∈ ruled.map Prod.fst, ¬ (first ≤ t ∧ t ≤ last)) : allowedIn first last ruled = 0 := by
  apply List.countP_eq_zero.mpr
  intro x hx
  simp [h x.1 (List.mem_map_of_mem hx)]

/-- A window allows its budget at most. -/
theorem allowedIn_ruleWindow (first last : T) (limit : ℕ) (window : List T) :
    allowedIn first last (ruleWindow limit window) ≤ limit := by
  -- counted from the n-th event of the window on
  have hfrom : ∀ (window : List T) (n : ℕ),
      (window.mapIdx fun i t => (t, decide (n + i < limit))).countP (fun x => x.2) ≤ limit - n := by
    intro window
    induction window with
    | nil => simp
    | cons t window ih =>
      intro n
      have hrest := ih (n + 1)
      simp only [Nat.add_assoc, Nat.add_comm 1] at hrest
      rw [List.mapIdx_cons, List.countP_cons]
      by_cases hn : n < limit
      · simp only [Nat.add_zero, hn, decide_true, if_true]
        omega
      · simp only [Nat.add_zero, hn, decide_false, Bool.false_eq_true, if_false]
        omega
  have hall := hfrom window 0
  simp only [Nat.zero_add, Nat.sub_zero] at hall
  refine le_trans (List.countP_mono_left ?_) hall
  intro x _ hx
  exact (Bool.and_eq_true_iff.mp hx).1

theorem le_of_mem_dropWhile {times : List T} (hsorted : times.Pairwise (· ≤ ·)) {r u : T}
    (hu : u ∈ times.dropWhile (· < r)) : r ≤ u := by
  induction times with
  | nil => simp at hu
  | cons t times ih =>
    rw [List.pairwise_cons] at hsorted
    by_cases ht : t < r
    · rw [List.dropWhile_cons_of_pos (by simpa using ht)] at hu
      exact ih hsorted.2 hu
    · rw [List.dropWhile_cons_of_neg (by simpa using ht)] at hu
      rcases List.mem_cons.mp hu with rfl | hu
      · exact not_lt.mp ht
      · exact (not_lt.mp ht).trans (hsorted.1 u hu)

variable [AddCommMonoid T] [IsOrderedCancelAddMonoid T]

/-- No interval as long as a window has more than two budgets: where it meets
    a window, the window after the next opens behind it. -/
theorem allowedIn_rulings (first : T) (limit : ℕ) {width : T} (hwidth : 0 < width) {times : List T}
    (hsorted : times.Pairwise (· ≤ ·)) :
    allowedIn first (first + width) (rulings limit width times) ≤ 2 * limit := by
  induction times using windows.induct width with
  | case1 =>
    rw [rulings_nil]
    exact Nat.zero_le _
  | case2 t times ih =>
    have htimes : times.Pairwise (· ≤ ·) := (List.pairwise_cons.mp hsorted).2
    have hrest : (times.dropWhile (· < t + width)).Pairwise (· ≤ ·) :=
      htimes.sublist (List.dropWhile_sublist _)
    rw [rulings_cons, allowedIn_append]
    by_cases hmeets : ∃ x ∈ t :: times.takeWhile (· < t + width), first ≤ x ∧ x ≤ first + width
    · -- the first window that is met has one budget, and so has the next
      obtain ⟨x, hx, hfirst, -⟩ := hmeets
      have hxend : x < t + width := by
        rcases List.mem_cons.mp hx with rfl | hx
        · exact lt_add_of_pos_right x hwidth
        · simpa using List.mem_takeWhile_imp hx
      have hone := allowedIn_ruleWindow first (first + width) limit (t :: times.takeWhile (· < t + width))
      have htwo : allowedIn first (first + width)
          (rulings limit width (times.dropWhile (· < t + width))) ≤ limit := by
        cases hcases : times.dropWhile (· < t + width) with
        | nil =>
          rw [rulings_nil]
          exact Nat.zero_le _
        | cons s later =>
          rw [hcases] at hrest
          have hs : t + width ≤ s := le_of_mem_dropWhile htimes (by rw [hcases]; exact List.mem_cons_self ..)
          -- what comes after that opens too late
          have hbehind : allowedIn first (first + width)
              (rulings limit width (later.dropWhile (· < s + width))) = 0 := by
            apply allowedIn_outside
            intro u hu hinside
            rw [rulings_times] at hu
            have hu' : s + width ≤ u := le_of_mem_dropWhile (List.pairwise_cons.mp hrest).2 hu
            have hstart : first < s := hfirst.trans_lt (hxend.trans_le hs)
            exact absurd (hu'.trans hinside.2) (not_le.mpr (add_lt_add_left hstart width))
          rw [rulings_cons, allowedIn_append, hbehind, Nat.add_zero]
          exact allowedIn_ruleWindow _ _ _ _
      omega
    · -- a window that is not met counts nothing
      have hnone : allowedIn first (first + width)
          (ruleWindow limit (t :: times.takeWhile (· < t + width))) = 0 := by
        apply allowedIn_outside
        intro x hx hinside
        rw [ruleWindow_times] at hx
        exact hmeets ⟨x, hx, hinside⟩
      rw [hnone, Nat.zero_add]
      exact ih hrest

end interval

end FixedWindow
