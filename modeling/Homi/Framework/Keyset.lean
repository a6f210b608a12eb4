import Mathlib.Data.List.Perm.Subperm
import Mathlib.Data.List.Sort

/-! # Keyset pagination

  A walk through a collection that changes between its pages. A page shows
  the newest entries below a cursor, and its own last entry is the cursor
  of the next one.

  * `newest`: entries by descending key.
  * `IsPage`: what a page of a collection is. `isPage_merge` gets one from
    two collections that were cut separately.
  * `Walk`: pages read one after the other, from collections in which no
    entry of the first one is ever missing. `Walk.sound` says that they
    skip and repeat nothing.
-/

namespace Keyset

/-! ## Section 1: Sorting -/

section sorting

variable {α K : Type} [LinearOrder K] (key : α → K)

/-- By descending key. -/
def newest (l : List α) : List α := l.insertionSort fun a b => key b ≤ key a

theorem newest_perm (l : List α) : (newest key l).Perm l := List.perm_insertionSort _ l

theorem mem_newest {l : List α} {a : α} : a ∈ newest key l ↔ a ∈ l := (newest_perm key l).mem_iff

theorem length_newest (l : List α) : (newest key l).length = l.length := (newest_perm key l).length_eq

/-- Entries with different keys come in strictly descending order. -/
theorem newest_desc {l : List α} (h : (l.map key).Nodup) :
    (newest key l).Pairwise fun a b => key b < key a := by
  have htotal : Std.Total fun a b : α => key b ≤ key a := ⟨fun a b => le_total (key b) (key a)⟩
  have htrans : IsTrans α fun a b => key b ≤ key a := ⟨fun _ _ _ hab hbc => hbc.trans hab⟩
  have hle : (newest key l).Pairwise fun a b => key b ≤ key a := List.pairwise_insertionSort _ l
  have hne : (newest key l).Pairwise fun a b => key a ≠ key b :=
    List.pairwise_map.mp (((newest_perm key l).map key).nodup_iff.mpr h)
  exact hle.imp₂ (fun _ _ hle hne => lt_of_le_of_ne hle (Ne.symm hne)) hne

variable {key} {l : List α}

/-- Entries with different keys have one order only. -/
theorem newest_congr {l' : List α} (hperm : l.Perm l') (h : (l.map key).Nodup) :
    newest key l = newest key l' := by
  have h' : (l'.map key).Nodup := (hperm.map key).nodup_iff.mp h
  have hsame : (newest key l).Perm (newest key l') :=
    ((newest_perm key l).trans hperm).trans (newest_perm key l').symm
  apply hsame.eq_of_pairwise _ (newest_desc key h) (newest_desc key h')
  intro a b _ _ hab hba
  exact absurd (hab.trans hba) (lt_irrefl _)

/-- What is cut off comes after what is kept. -/
theorem lt_of_mem_take_of_notMem {n : ℕ} (h : l.Pairwise fun a b => key b < key a) {a b : α}
    (ha : a ∈ l.take n) (hb : b ∈ l) (hnot : b ∉ l.take n) : key b < key a := by
  rw [← List.take_append_drop n l] at h hb
  rcases List.mem_append.mp hb with hb | hb
  · exact absurd hb hnot
  · exact (List.pairwise_append.mp h).2.2 a ha b hb

end sorting

/-! ## Section 2: Pages -/

section pages

variable {α K : Type} [LinearOrder K] {key : α → K} {limit : ℕ} {F P : List α}

/-- `P` is what a page of at most `limit` entries shows of `F`. -/
structure IsPage (key : α → K) (limit : ℕ) (F P : List α) : Prop where
  desc : P.Pairwise fun a b => key b < key a
  sub : ∀ a ∈ P, a ∈ F
  length : P.length = min limit F.length
  upper : ∀ a ∈ F, ∀ b ∈ P, key b ≤ key a → a ∈ P

theorem isPage_newest (h : (F.map key).Nodup) (limit : ℕ) :
    IsPage key limit F ((newest key F).take limit) where
  desc := (newest_desc key h).sublist (List.take_sublist _ _)
  sub a ha := (mem_newest key).mp (List.mem_of_mem_take ha)
  length := by rw [List.length_take, length_newest]
  upper a ha b hb hle := by
    by_contra hnot
    exact absurd hle (not_le.mpr
      (lt_of_mem_take_of_notMem (newest_desc key h) hb ((mem_newest key).mpr ha) hnot))

/-- A page with all of the collection. -/
theorem IsPage.all (h : IsPage key limit F P) (hF : F.length ≤ limit) : ∀ a ∈ F, a ∈ P := by
  have hnodup : P.Nodup := h.desc.imp fun hlt heq => by rw [heq] at hlt; exact lt_irrefl _ hlt
  have hsub : P.Subperm F := List.subperm_of_subset hnodup h.sub
  have hperm : P.Perm F := hsub.perm_of_length_le (by rw [h.length]; omega)
  exact fun a ha => hperm.mem_iff.mpr ha

/-- The keys of a page. -/
theorem IsPage.keys (h : IsPage key limit F P) : IsPage id limit (F.map key) (P.map key) where
  desc := List.pairwise_map.mpr h.desc
  sub k hk := by
    obtain ⟨a, ha, rfl⟩ := List.mem_map.mp hk
    exact List.mem_map_of_mem (h.sub a ha)
  length := by rw [List.length_map, List.length_map, h.length]
  upper k hk k' hk' hle := by
    obtain ⟨a, ha, rfl⟩ := List.mem_map.mp hk
    obtain ⟨b, hb, rfl⟩ := List.mem_map.mp hk'
    exact List.mem_map_of_mem (h.upper a ha b hb hle)

/-- Two collections that are cut at `limit + 1` each and then merged show
    the same page as both together. -/
theorem isPage_merge {A B : List α} (h : ((A ++ B).map key).Nodup) {limit : ℕ} :
    IsPage key limit (A ++ B) ((newest key ((newest key A).take (limit + 1) ++
      (newest key B).take (limit + 1))).take limit) := by
  have hsubA : List.Subperm ((newest key A).take (limit + 1)) A :=
    (List.take_sublist _ _).subperm.trans (newest_perm key A).subperm
  have hsubB : List.Subperm ((newest key B).take (limit + 1)) B :=
    (List.take_sublist _ _).subperm.trans (newest_perm key B).subperm
  obtain ⟨hA, hB, _⟩ := List.nodup_append.mp (by rwa [List.map_append] at h)
  generalize hM : (newest key A).take (limit + 1) ++ (newest key B).take (limit + 1) = M
  have hsub : List.Subperm M (A ++ B) := hM ▸ hsubA.append hsubB
  have hMnodup : (M.map key).Nodup := by
    obtain ⟨l, hperm, hl⟩ := hsub
    exact (hperm.map key).nodup_iff.mp (h.sublist (hl.map key))
  have hpage := isPage_newest hMnodup limit
  refine ⟨hpage.desc, fun a ha => hsub.subset (hpage.sub a ha), ?_, fun a ha b hb hle => ?_⟩
  · rw [hpage.length, ← hM]
    simp only [List.length_append, List.length_take, length_newest]
    omega
  · by_cases hmem : a ∈ M
    · exact hpage.upper a hmem b hb hle
    -- the entries that were kept in place of `a` fill more than a page
    · have hkept : ∀ C : List α, (C.map key).Nodup → a ∈ C → (∀ x ∈ (newest key C).take (limit + 1), x ∈ M) →
          False := by
        intro C hC haC hCM
        have hnot : a ∉ (newest key C).take (limit + 1) := fun hx => hmem (hCM a hx)
        have habove : ∀ x ∈ (newest key C).take (limit + 1), x ∈ (newest key M).take limit := by
          intro x hx
          have hlt := lt_of_mem_take_of_notMem (newest_desc key hC) hx ((mem_newest key).mpr haC) hnot
          exact hpage.upper x (hCM x hx) b hb (hle.trans hlt.le)
        have hfull : ((newest key C).take (limit + 1)).length = limit + 1 := by
          rw [List.length_take, length_newest]
          by_contra hshort
          refine hnot ?_
          rw [List.take_of_length_le (by rw [length_newest]; omega)]
          exact (mem_newest key).mpr haC
        have hnd : ((newest key C).take (limit + 1)).Nodup :=
          ((newest_desc key hC).sublist (List.take_sublist _ _)).imp fun hlt heq => by
            rw [heq] at hlt; exact lt_irrefl _ hlt
        have hlen := (List.subperm_of_subset hnd habove).length_le
        rw [hfull, hpage.length] at hlen
        omega
      rcases List.mem_append.mp ha with ha | ha
      · exact (hkept A hA ha fun x hx => hM ▸ List.mem_append_left _ hx).elim
      · exact (hkept B hB ha fun x hx => hM ▸ List.mem_append_right _ hx).elim

end pages

/-! ## Section 3: Walks -/

section walks

variable {K : Type} [LinearOrder K]

/-- Below the cursor. -/
def below : Option K → K → Bool
  | none, _ => true
  | some c, k => k < c

/-- The keys `P` are a page of the keys `S` below the cursor, and `next` is
    the cursor it hands out. -/
structure PageOf (limit : ℕ) (S : List K) (cursor : Option K) (P : List K) (next : Option K) :
    Prop where
  page : IsPage id limit (S.filter (below cursor)) P
  next : next = if limit < (S.filter (below cursor)).length then P.getLast? else none

/-- The pages `Ps` were read one after the other, and `next` is the cursor
    of the last one. `S` were the keys when the first one was read. -/
inductive Walk (limit : ℕ) (S : List K) : List (List K) → Option K → Prop where
  | first {P : List K} {next : Option K} (h : PageOf limit S none P next) : Walk limit S [P] next
  | next {Ps : List (List K)} {c : K} {S' P : List K} {next : Option K}
      (h : Walk limit S Ps (some c)) (hkeep : ∀ k ∈ S, k ∈ S')
      (hpage : PageOf limit S' (some c) P next) : Walk limit S (Ps ++ [P]) next

/-- Nothing is skipped and nothing comes twice. -/
structure Sound (limit : ℕ) (S : List K) (Ps : List (List K)) (next : Option K) : Prop where
  desc : Ps.flatten.Pairwise fun a b => b < a
  covered : ∀ k ∈ S, (∀ c, next = some c → c ≤ k) → k ∈ Ps.flatten
  above : ∀ k ∈ Ps.flatten, ∀ c, next = some c → c ≤ k
  full : ∀ P ∈ Ps.dropLast, P.length = limit
  going : ∀ c, next = some c → ∀ P ∈ Ps, P.length = limit

variable {limit : ℕ} {S : List K} {cursor next : Option K} {P : List K}

theorem PageOf.below (h : PageOf limit S cursor P next) : ∀ k ∈ P, Keyset.below cursor k = true :=
  fun k hk => (List.mem_filter.mp (h.page.sub k hk)).2

/-- A page that hands out a cursor is full, and the cursor is its last key. -/
theorem PageOf.of_next (h : PageOf limit S cursor P next) {c : K} (hc : next = some c) :
    P.length = limit ∧ P.getLast? = some c := by
  have hnext := h.next
  rw [hc] at hnext
  split at hnext
  · next hlt => exact ⟨by rw [h.page.length]; omega, hnext.symm⟩
  · cases hnext

/-- Every key of a page is at or above its last one. -/
theorem PageOf.last_le (h : PageOf limit S cursor P next) {c : K} (hc : P.getLast? = some c) :
    ∀ k ∈ P, c ≤ k := by
  intro k hk
  obtain ⟨front, hfront⟩ := List.getLast?_eq_some_iff.mp hc
  have hdesc := h.page.desc
  rw [hfront] at hdesc hk
  rcases List.mem_append.mp hk with hk | hk
  · exact ((List.pairwise_append.mp hdesc).2.2 k hk c (List.mem_singleton_self c)).le
  · exact (List.mem_singleton.mp hk).ge

/-- A page shows what is below its cursor and at or above the next one. -/
theorem PageOf.covers (hpos : 1 ≤ limit) (h : PageOf limit S cursor P next) {k : K} (hk : k ∈ S)
    (hbelow : Keyset.below cursor k = true) (habove : ∀ c, next = some c → c ≤ k) : k ∈ P := by
  have hmem : k ∈ S.filter (Keyset.below cursor) := List.mem_filter.mpr ⟨hk, hbelow⟩
  have hnext := h.next
  split at hnext
  · next hlt =>
    cases hlast : P.getLast? with
    | none =>
      have hlen := h.page.length
      rw [List.getLast?_eq_none_iff.mp hlast, List.length_nil] at hlen
      omega
    | some c =>
      rw [hlast] at hnext
      exact h.page.upper k hmem c (List.mem_of_getLast? hlast) (habove c hnext)
  · next hle => exact h.page.all (by omega) k hmem

/-- No cursor is handed out exactly when nothing is left below the page. -/
theorem PageOf.next_eq_none (hpos : 1 ≤ limit) (hS : S.Nodup) (h : PageOf limit S cursor P next) :
    next = none ↔ ∀ c, P.getLast? = some c → ∀ k ∈ S, ¬ k < c := by
  have hlastBelow : ∀ c, P.getLast? = some c → Keyset.below cursor c = true :=
    fun c hc => h.below c (List.mem_of_getLast? hc)
  constructor
  · intro hnone c hc k hk hlt
    have hbelow : Keyset.below cursor k = true := by
      have hcb := hlastBelow c hc
      cases cursor with
      | none => rfl
      | some x => exact decide_eq_true (hlt.trans (of_decide_eq_true hcb))
    have hmem := h.covers hpos hk hbelow fun c' hc' => by rw [hnone] at hc'; cases hc'
    exact absurd (h.last_le hc k hmem) (not_le.mpr hlt)
  · intro hlow
    have hnext := h.next
    split at hnext
    · next hlt =>
      exfalso
      have hlen := h.page.length
      rw [Nat.min_eq_left hlt.le] at hlen
      cases hlast : P.getLast? with
      | none => rw [List.getLast?_eq_none_iff.mp hlast, List.length_nil] at hlen; omega
      | some c =>
        -- all keys below the cursor would be on the page
        have hsub : ∀ k ∈ S.filter (Keyset.below cursor), k ∈ P := fun k hk =>
          h.page.upper k hk c (List.mem_of_getLast? hlast)
            (not_lt.mp (hlow c hlast k (List.mem_of_mem_filter hk)))
        have hle := (List.subperm_of_subset (hS.filter _) hsub).length_le
        omega
    · exact hnext

/-- What a walk shows. -/
theorem Walk.sound (hpos : 1 ≤ limit) {Ps : List (List K)} (h : Walk limit S Ps next) :
    Sound limit S Ps next := by
  induction h with
  | @first P next hpage =>
    refine ⟨by simpa using hpage.page.desc, fun k hk habove => ?_, fun k hk c hc => ?_, by simp,
      fun c hc Q hQ => ?_⟩
    · simpa using hpage.covers hpos hk rfl habove
    · exact hpage.last_le (hpage.of_next hc).2 k (by simpa using hk)
    · rw [List.mem_singleton.mp hQ]
      exact (hpage.of_next hc).1
  | @next Ps c S' P next hwalk hkeep hpage ih =>
    have hlt : ∀ k ∈ P, k < c := fun k hk => of_decide_eq_true (hpage.below k hk)
    refine ⟨?_, fun k hk habove => ?_, fun k hk c' hc' => ?_, fun Q hQ => ?_, fun c' hc' Q hQ => ?_⟩
    · rw [List.flatten_append, List.flatten_singleton]
      refine List.pairwise_append.mpr ⟨ih.desc, hpage.page.desc, fun a ha b hb => ?_⟩
      exact (hlt b hb).trans_le (ih.above a ha c rfl)
    · rw [List.flatten_append, List.flatten_singleton]
      by_cases hkc : c ≤ k
      · exact List.mem_append_left _ (ih.covered k hk fun c' hc' => by cases hc'; exact hkc)
      · exact List.mem_append_right _
          (hpage.covers hpos (hkeep k hk) (decide_eq_true (not_le.mp hkc)) habove)
    · rw [List.flatten_append, List.flatten_singleton] at hk
      obtain ⟨_, hlast⟩ := hpage.of_next hc'
      rcases List.mem_append.mp hk with hk | hk
      · exact (hlt c' (List.mem_of_getLast? hlast)).le.trans (ih.above k hk c rfl)
      · exact hpage.last_le hlast k hk
    · rw [List.dropLast_concat] at hQ
      exact ih.going c rfl Q hQ
    · rcases List.mem_append.mp hQ with hQ | hQ
      · exact ih.going c rfl Q hQ
      · rw [List.mem_singleton.mp hQ]
        exact (hpage.of_next hc').1

end walks

end Keyset
