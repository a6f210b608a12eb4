import Homi.Domain.Schedule
import Homi.Framework.JsonText
import Mathlib.Data.List.Sort

/-! # Request hashes

  `apps/api/src/lib/request-hash.ts`: the hash by which a keyed request is
  recognised when it comes again.

  `canonicalize` sorts the members of every object. The objects it makes
  have their own order all the same: JavaScript puts the members whose
  names are array indices first, by number. SHA-256 is a parameter, from
  bytes to the hexadecimal digest.
-/

namespace Homi

open Encoding

/-! ## Section 1: Objects -/

/-- The index that a member name is, below `2 ** 32 - 1`. -/
def arrayIndex (key : JsString) : Option ℤ :=
  if key ≠ [] ∧ key.all isDigit ∧ JsString.decimal (numberOf key) = key ∧ numberOf key < 4294967295 then
    some (numberOf key)
  else none

/-- `Object.entries` of an object whose members were defined in this order. -/
def ownOrder {V : Type} (members : List (JsString × V)) : List (JsString × V) :=
  ((members.filter fun m => (arrayIndex m.1).isSome).insertionSort
    fun m m' => (arrayIndex m.1).getD 0 ≤ (arrayIndex m'.1).getD 0) ++
  members.filter fun m => (arrayIndex m.1).isNone

/-- Defines a member, in its place if there is one of that name. -/
def setMember {V : Type} (m : JsString × V) : List (JsString × V) → List (JsString × V)
  | [] => [m]
  | m' :: members => if m'.1 = m.1 then m :: members else m' :: setMember m members

/-- `Object.entries(Object.fromEntries(entries))`. -/
def fromEntries {V : Type} (entries : List (JsString × V)) : List (JsString × V) :=
  ownOrder (entries.foldl (fun members m => setMember m members) [])

/-! ## Section 2: The code -/

/-- `entries.sort(([a], [b]) => (a < b ? -1 : 1))`. -/
def sortEntries {V : Type} (entries : List (JsString × V)) : List (JsString × V) :=
  entries.insertionSort fun m m' => m.1 ≤ m'.1

theorem mem_sortEntries {V : Type} {entries : List (JsString × V)} {m : JsString × V} :
    m ∈ sortEntries entries ↔ m ∈ entries := List.mem_insertionSort _

def canonicalize (value : JsonValue) : JsonValue :=
  match value with
  | .array items => .array (items.map canonicalize)
  | .object members =>
      .object (fromEntries ((sortEntries members).attach.map fun m => (m.1.1, canonicalize m.1.2)))
  | value => value
termination_by sizeOf value
decreasing_by
  · have := List.sizeOf_lt_of_mem ‹_ ∈ items›
    simp only [JsonValue.array.sizeOf_spec]
    omega
  · obtain ⟨⟨k, v⟩, hm⟩ := m
    have := List.sizeOf_lt_of_mem (mem_sortEntries.mp hm)
    simp only [JsonValue.object.sizeOf_spec, Prod.mk.sizeOf_spec] at this ⊢
    omega

/-- One member of a canonical object. -/
def canonicalMember (m : JsString × JsonValue) : JsString × JsonValue := (m.1, canonicalize m.2)

theorem canonicalize_array (items : List JsonValue) :
    canonicalize (.array items) = .array (items.map canonicalize) := by
  rw [canonicalize]

theorem canonicalize_object (members : List (JsString × JsonValue)) :
    canonicalize (.object members) = .object (fromEntries ((sortEntries members).map canonicalMember)) := by
  rw [canonicalize]
  have hmap : (sortEntries members).attach.map (fun m => canonicalMember m.1) =
      (sortEntries members).map canonicalMember := List.attach_map_val
  rw [← hmap]
  rfl

def hashRequest (sha256 : List ℕ → JsString) (body : JsonValue) : JsString :=
  sha256 (utf8Encode (canonicalize body).stringify)

end Homi
