import Ostadix.CanonicalCbor.Encode

/-! # Canonical member order

`canonical` puts the members of every object into the order the encoder writes them. Two JSON
values are equal exactly when their canonical forms are, and equal values have one encoding. -/

namespace Ostadix.CanonicalCbor

open Ostadix.Lib List Value

/-! ## Structure of the encoding -/

theorem length_encodeTypeLen_pos (major : UInt8) (len : Nat) :
    0 < (encodeTypeLen major len).length := by
  unfold encodeTypeLen
  dsimp only
  split_ifs <;> simp

theorem length_encodeText_pos (text : String) : 0 < (encodeText text).length := by
  have := length_encodeTypeLen_pos 3 (utf8Bytes text).length
  simp only [encodeText, length_append]
  omega

theorem length_encodeNumber_pos (num : Number) : 0 < (encodeNumber num).length := by
  cases num with
  | posInt | negInt => exact length_encodeTypeLen_pos _ _
  | float => simp [encodeNumber]

theorem length_encodeValue_pos (v : Value) : 0 < (encodeValue v).length := by
  cases v with
  | null => simp [encodeValue]
  | bool v => cases v <;> simp [encodeValue]
  | number v => exact length_encodeNumber_pos v
  | string text => exact length_encodeText_pos text
  | array xs =>
    have := length_encodeTypeLen_pos 4 xs.length
    simp only [encodeValue, length_append]
    omega
  | object ms =>
    have := length_encodeTypeLen_pos 5 ms.length
    simp only [encodeValue, length_append]
    omega

theorem encodeItems_eq_flatMap (xs : List Value) : encodeItems xs = xs.flatMap encodeValue := by
  induction xs with
  | nil => rfl
  | cons x xs ih => simp [encodeItems, ih]

theorem encodeMembers_eq_map (ms : List (String × Value)) :
    encodeMembers ms = ms.map fun e => (encodeText e.1, encodeValue e.2) := by
  induction ms with
  | nil => rfl
  | cons e ms ih => simp [encodeMembers, ih]

/-- The members of an object in the order of their encoded keys. -/
def sortMembers (members : List (String × Value)) : List (String × Value) :=
  members.mergeSort fun left right => shortlexLe (encodeText left.1) (encodeText right.1)

theorem sortMembers_perm (ms : List (String × Value)) : (sortMembers ms).Perm ms :=
  mergeSort_perm _ _

@[simp] theorem length_sortMembers (ms : List (String × Value)) :
    (sortMembers ms).length = ms.length :=
  (sortMembers_perm ms).length_eq

@[simp] theorem mem_sortMembers {e : String × Value} {ms : List (String × Value)} :
    e ∈ sortMembers ms ↔ e ∈ ms :=
  (sortMembers_perm ms).mem_iff

theorem nodup_keys_sortMembers {ms : List (String × Value)}
    (hne : (ms.map Prod.fst).Nodup) : ((sortMembers ms).map Prod.fst).Nodup :=
  ((sortMembers_perm ms).map Prod.fst).nodup_iff.mpr hne

def encodeMember (entry : String × Value) : Bytes :=
  encodeText entry.1 ++ encodeValue entry.2

theorem encodeValue_object (ms : List (String × Value)) : encodeValue (.object ms) =
      encodeTypeLen 5 ms.length ++ (sortMembers ms).flatMap encodeMember := by
  have sorted : sortEntries (encodeMembers ms) =
      (sortMembers ms).map fun e => (encodeText e.1, encodeValue e.2) := by
    rw [encodeMembers_eq_map, sortEntries, sortMembers]
    symm
    apply map_mergeSort
    intros
    rfl
  rw [encodeValue, sorted, flatMap_map]
  rfl

/-! ## Canonical form -/

mutual
def canonical : Value → Value
  | .array items => .array (canonicalItems items)
  | .object members => .object (sortMembers (canonicalMembers members))
  | .null => .null
  | .bool value => .bool value
  | .number value => .number value
  | .string text => .string text

def canonicalItems : List Value → List Value
  | [] => []
  | item :: items => canonical item :: canonicalItems items

def canonicalMembers : List (String × Value) → List (String × Value)
  | [] => []
  | (key, value) :: members => (key, canonical value) :: canonicalMembers members
end

theorem canonicalItems_eq_map (xs : List Value) : canonicalItems xs = xs.map canonical := by
  induction xs with
  | nil => rfl
  | cons x xs ih => simp [canonicalItems, ih]

def canonicalMember (entry : String × Value) : String × Value :=
  (entry.1, canonical entry.2)

theorem canonicalMembers_eq_map (ms : List (String × Value)) :
    canonicalMembers ms = ms.map canonicalMember := by
  induction ms with
  | nil => rfl
  | cons e ms ih => simp [canonicalMembers, ih, canonicalMember]

theorem canonical_array (xs : List Value) : canonical (.array xs) = .array (xs.map canonical) := by
  rw [canonical, canonicalItems_eq_map]

theorem canonical_object (ms : List (String × Value)) :
    canonical (.object ms) = .object ((sortMembers ms).map canonicalMember) := by
  rw [canonical, canonicalMembers_eq_map, sortMembers, sortMembers]
  congr 1
  symm
  apply map_mergeSort
  intros
  rfl

/-! ## Equal values and their canonical forms -/

theorem eqvItems_map {xs : List Value} {f : Value → Value} (he : ∀ x ∈ xs, x.eqv (f x) = true) :
    eqvItems xs (xs.map f) = true := by
  induction xs with
  | nil => rfl
  | cons x xs ih =>
    simp only [forall_mem_cons] at he
    simp [eqvItems, he.1, ih he.2]

theorem eqv_canonical (v : Value) : v.WellFormed → v.eqv (canonical v) = true := by
  induction v using induction with
  | null => intro _; rfl
  | bool | number | string => intro _; simp [canonical, eqv]
  | array xs ih =>
    intro wf
    rw [canonical_array, eqv]
    apply eqvItems_map
    intro x hm
    exact ih x hm (wellFormedItems_iff.mp wf.2 x hm)
  | object ms ih =>
    intro wf
    obtain ⟨_, hne, pts⟩ := wf
    rw [canonical_object, eqv, Bool.and_eq_true, eqvMembers_iff]
    refine ⟨by simp, ?_⟩
    intro e hm
    have hst : canonicalMember e ∈ (sortMembers ms).map canonicalMember :=
      mem_map_of_mem (mem_sortMembers.mpr hm)
    have keys : (((sortMembers ms).map canonicalMember).map Prod.fst).Nodup := by
      rw [map_map]
      exact nodup_keys_sortMembers hne
    have hf := lookup_of_mem keys hst
    exact ⟨_, hf, ih e hm (wellFormedMembers_iff.mp pts e hm).2⟩

theorem eqvItems_of_map_canonical_eq {left right : List Value}
    (ih : ∀ x ∈ left, ∀ o ∈ right, canonical x = canonical o → x.eqv o = true)
    (he : left.map canonical = right.map canonical) : eqvItems left right = true := by
  induction left generalizing right with
  | nil =>
    cases right with
    | nil => rfl
    | cons => cases he
  | cons x left step =>
    cases right with
    | nil => cases he
    | cons o =>
      simp only [map_cons, List.cons.injEq] at he
      rw [eqvItems, ih x (by simp) o (by simp) he.1, Bool.true_and]
      exact step (fun x inLeft o inRight =>
        ih x (by simp [inLeft]) o (by simp [inRight])) he.2

theorem eqv_of_canonical_eq (left : Value) : ∀ right : Value,
    left.WellFormed → right.WellFormed → canonical left = canonical right →
      left.eqv right = true := by
  induction left using induction with
  | null | bool | number | string =>
    intro right _ _ he
    cases right <;> simp_all [canonical, eqv]
  | array xs ih =>
    intro right wfLeft wfRight he
    cases right with
    | array =>
      rw [canonical_array, canonical_array, array.injEq] at he
      rw [eqv]
      refine eqvItems_of_map_canonical_eq ?_ he
      intro x inLeft o inRight
      exact ih x inLeft o (wellFormedItems_iff.mp wfLeft.2 x inLeft)
        (wellFormedItems_iff.mp wfRight.2 o inRight)
    | _ => simp [canonical] at he
  | object ms ih =>
    intro right wfLeft wfRight he
    cases right with
    | object oths =>
      obtain ⟨_, _, partsLeft⟩ := wfLeft
      obtain ⟨_, hne, partsRight⟩ := wfRight
      rw [canonical_object, canonical_object, object.injEq] at he
      have sizes := congrArg List.length he
      simp only [length_map, length_sortMembers] at sizes
      rw [eqv, Bool.and_eq_true, eqvMembers_iff]
      refine ⟨by simp [sizes], ?_⟩
      intro e inLeft
      have hst : canonicalMember e ∈ (sortMembers oths).map canonicalMember := by
        rw [← he]
        exact mem_map_of_mem (mem_sortMembers.mpr inLeft)
      obtain ⟨⟨_, v⟩, inRight, heq⟩ := mem_map.mp hst
      rw [mem_sortMembers] at inRight
      simp only [canonicalMember, Prod.mk.injEq] at heq
      refine ⟨v, ?_, ?_⟩
      · rw [← heq.1]
        exact lookup_of_mem hne inRight
      · exact ih e inLeft v (wellFormedMembers_iff.mp partsLeft e inLeft).2
          (wellFormedMembers_iff.mp partsRight _ inRight).2 heq.2.symm
    | _ => simp [canonical] at he

end Ostadix.CanonicalCbor
