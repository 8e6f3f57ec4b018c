import Ostadix.CanonicalCbor.RoundTrip

/-! # Values that stay within the decoder's limits

A value with few items, short texts and little nesting is accepted by the bounded decoder: it
charges one item per data item, and lets a text or container start only if its length is still
within the budget. -/

namespace Ostadix.CanonicalCbor

open Ostadix.Lib List

/-! ## Measures of a value -/

mutual
/-- The number of data items of an encoding, keys included. -/
def itemCount : Value → Nat
  | .null | .bool _ | .number _ | .string _ => 1
  | .array items => 1 + itemCountItems items
  | .object members => 1 + itemCountMembers members

def itemCountItems : List Value → Nat
  | [] => 0
  | item :: items => itemCount item + itemCountItems items

def itemCountMembers : List (String × Value) → Nat
  | [] => 0
  | (_, value) :: members => 1 + itemCount value + itemCountMembers members
end

mutual
/-- Every text has at most `texts` bytes, nesting stays below `levels`, and the keys of each
object are distinct. -/
def Shaped (texts : Nat) : Nat → Value → Prop
  | _, .null => True
  | _, .bool _ => True
  | _, .number _ => True
  | _, .string text => (utf8Bytes text).length ≤ texts
  | levels, .array items => 0 < levels ∧ ShapedItems texts (levels - 1) items
  | levels, .object members =>
      0 < levels ∧ (members.map Prod.fst).Nodup ∧ ShapedMembers texts (levels - 1) members

def ShapedItems (texts : Nat) : Nat → List Value → Prop
  | _, [] => True
  | levels, item :: items => Shaped texts levels item ∧ ShapedItems texts levels items

def ShapedMembers (texts : Nat) : Nat → List (String × Value) → Prop
  | _, [] => True
  | levels, (key, value) :: members =>
      (utf8Bytes key).length ≤ texts ∧ Shaped texts levels value ∧ ShapedMembers texts levels members
end

mutual
/-- An upper bound on the length of an encoding: a header takes at most nine bytes. -/
def sizeBound : Value → Nat
  | .null | .bool _ | .number _ => 9
  | .string text => 9 + (utf8Bytes text).length
  | .array items => 9 + sizeBoundItems items
  | .object members => 9 + sizeBoundMembers members

def sizeBoundItems : List Value → Nat
  | [] => 0
  | item :: items => sizeBound item + sizeBoundItems items

def sizeBoundMembers : List (String × Value) → Nat
  | [] => 0
  | (key, value) :: members =>
      9 + (utf8Bytes key).length + sizeBound value + sizeBoundMembers members
end

theorem itemCountItems_eq_sum (xs : List Value) : itemCountItems xs = (xs.map itemCount).sum := by
  induction xs with
  | nil => rfl
  | cons x xs ih => simp [itemCountItems, ih]

theorem itemCountMembers_eq_sum (ms : List (String × Value)) :
    itemCountMembers ms = (ms.map fun e => 1 + itemCount e.2).sum := by
  induction ms with
  | nil => rfl
  | cons e ms ih => simp [itemCountMembers, ih]

theorem shapedItems_iff {texts lv : Nat} {xs : List Value} :
    ShapedItems texts lv xs ↔ ∀ x ∈ xs, Shaped texts lv x := by
  induction xs with
  | nil => simp [ShapedItems]
  | cons x xs ih => simp [ShapedItems, ih]

variable {lim : DecodeLimits} {ms : List (String × Value)}

theorem shapedMembers_iff {texts lv : Nat} : ShapedMembers texts lv ms ↔
      ∀ e ∈ ms, (utf8Bytes e.1).length ≤ texts ∧ Shaped texts lv e.2 := by
  induction ms with
  | nil => simp [ShapedMembers]
  | cons e ms ih =>
    obtain ⟨_, _⟩ := e
    simp [ShapedMembers, ih, and_assoc]

theorem shaped_object {texts lv : Nat} (hn : 0 < lv) (keys : (ms.map Prod.fst).Nodup ∧
      ∀ name ∈ ms.map Prod.fst, (utf8Bytes name).length ≤ texts)
    (vs : (ms.map Prod.snd).Forall (Shaped texts (lv - 1))) :
    Shaped texts lv (.object ms) := by
  refine ⟨hn, keys.1, shapedMembers_iff.mpr ?_⟩
  intro e hm
  exact ⟨keys.2 _ (mem_map_of_mem hm), forall_iff_forall_mem.mp vs _ (mem_map_of_mem hm)⟩

theorem itemCount_pos (v : Value) : 0 < itemCount v := by
  cases v <;> simp [itemCount]

theorem itemCount_le_of_mem {xs : List Value} {x : Value} (hm : x ∈ xs) :
    itemCount x ≤ itemCountItems xs := by
  induction xs with
  | nil => cases hm
  | cons o xs ih =>
    rw [itemCountItems]
    rcases mem_cons.mp hm with rfl | hl
    · omega
    · have := ih hl
      omega

theorem itemCount_le_of_mem_members {e : String × Value} (hm : e ∈ ms) :
    itemCount e.2 ≤ itemCountMembers ms := by
  induction ms with
  | nil => cases hm
  | cons o ms ih =>
    rw [itemCountMembers]
    rcases mem_cons.mp hm with rfl | hl
    · omega
    · have := ih hl
      omega

theorem length_le_itemCountItems (xs : List Value) : xs.length ≤ itemCountItems xs := by
  induction xs with
  | nil => simp
  | cons x =>
    have := itemCount_pos x
    simp only [itemCountItems, length_cons]
    omega

theorem length_le_itemCountMembers (ms : List (String × Value)) :
    ms.length ≤ itemCountMembers ms := by
  induction ms with
  | nil => simp
  | cons =>
    simp only [itemCountMembers, length_cons]
    omega

/-! ## Canonical forms have the same measures -/

theorem itemCount_canonical (v : Value) : itemCount (canonical v) = itemCount v := by
  induction v using Value.induction with
  | null | bool | number | string => rfl
  | array xs ih =>
    rw [canonical_array, itemCount, itemCount, itemCountItems_eq_sum, itemCountItems_eq_sum,
      map_map]
    congr 2
    exact map_congr_left ih
  | object ms ih =>
    rw [canonical_object, itemCount, itemCount, itemCountMembers_eq_sum, itemCountMembers_eq_sum,
      map_map, ((sortMembers_perm ms).map _).sum_nat]
    congr 2
    apply map_congr_left
    intro e hm
    simp only [Function.comp_apply, canonicalMember, ih e hm]

theorem shaped_canonical {texts : Nat} (v : Value) :
    ∀ lv, Shaped texts lv v → Shaped texts lv (canonical v) := by
  induction v using Value.induction with
  | null | bool | number | string => intro lv hs; exact hs
  | array xs ih =>
    intro lv hs
    obtain ⟨hpos, pts⟩ := hs
    rw [canonical_array]
    refine ⟨hpos, shapedItems_iff.mpr ?_⟩
    intro x hm
    obtain ⟨orig, inItems, rfl⟩ := mem_map.mp hm
    exact ih orig inItems _ (shapedItems_iff.mp pts orig inItems)
  | object ms ih =>
    intro lv hs
    obtain ⟨hpos, hne, pts⟩ := hs
    rw [canonical_object]
    refine ⟨hpos, ?_, shapedMembers_iff.mpr ?_⟩
    · rw [map_map]
      exact nodup_keys_sortMembers hne
    · intro e hm
      obtain ⟨orig, inMembers, rfl⟩ := mem_map.mp hm
      rw [mem_sortMembers] at inMembers
      obtain ⟨k, hs⟩ := shapedMembers_iff.mp pts orig inMembers
      exact ⟨k, ih orig inMembers _ hs⟩

theorem wellFormed_of_shaped {texts : Nat} (hsh : texts < 2 ^ 64) (v : Value) :
    ∀ lv, Shaped texts lv v → itemCount v < 2 ^ 64 → v.WellFormed := by
  induction v using Value.induction with
  | null | bool | number => intros; trivial
  | string =>
    intro lv hs _
    exact lt_of_le_of_lt hs hsh
  | array xs ih =>
    intro lv hs few
    rw [itemCount] at few
    have len := length_le_itemCountItems xs
    refine ⟨by omega, Value.wellFormedItems_iff.mpr ?_⟩
    intro x hm
    have part := itemCount_le_of_mem hm
    exact ih x hm _ (shapedItems_iff.mp hs.2 x hm) (by omega)
  | object ms ih =>
    intro lv hs few
    obtain ⟨_, hne, pts⟩ := hs
    rw [itemCount] at few
    have len := length_le_itemCountMembers ms
    refine ⟨by omega, hne, Value.wellFormedMembers_iff.mpr ?_⟩
    intro e hm
    have part := itemCount_le_of_mem_members hm
    obtain ⟨k, hs⟩ := shapedMembers_iff.mp pts e hm
    exact ⟨lt_of_le_of_lt k hsh, ih e hm _ hs (by omega)⟩

/-! ## Acceptance -/

theorem noteBudget_eq_some {d items : Nat} (hshal : d ≤ lim.maxDepth)
    (few : items + 1 ≤ lim.maxItems) (countable : lim.maxItems < 2 ^ 64) :
    noteBudget (some lim) d items = some (items + 1) := by
  rw [noteBudget]
  exact if_pos ⟨hshal, by omega, few⟩

theorem lenBudget_eq_some {len items : Nat} (few : items + len ≤ lim.maxItems) :
    lenBudget (some lim) len items = some items := by
  rw [lenBudget]
  exact if_pos (by omega)

/-- Items are charged one after the other, each from where the last one stopped. -/
theorem budgetItems_eq_some {texts d : Nat} {vs : List Value}
    (each : ∀ v ∈ vs, ∀ xs, xs + itemCount v + texts ≤ lim.maxItems →
      budget (some lim) d v xs = some (xs + itemCount v)) :
    ∀ xs, xs + itemCountItems vs + texts ≤ lim.maxItems →
      budgetItems (some lim) d vs xs = some (xs + itemCountItems vs) := by
  induction vs with
  | nil => intro xs _; rfl
  | cons v vs ih =>
    intro xs few
    rw [itemCountItems] at few
    simp only [forall_mem_cons] at each
    rw [budgetItems, each.1 xs (by omega), itemCountItems, ← Nat.add_assoc]
    exact ih each.2 _ (by omega)

theorem budgetMembers_eq_some {texts d : Nat} (countable : lim.maxItems < 2 ^ 64)
    (hshal : d ≤ lim.maxDepth) (each : ∀ e ∈ ms, (utf8Bytes e.1).length ≤ texts ∧ ∀ xs,
      xs + itemCount e.2 + texts ≤ lim.maxItems →
        budget (some lim) d e.2 xs = some (xs + itemCount e.2)) :
    ∀ xs, xs + itemCountMembers ms + texts ≤ lim.maxItems →
      budgetMembers (some lim) d ms xs = some (xs + itemCountMembers ms) := by
  induction ms with
  | nil => intro xs _; rfl
  | cons e ms ih =>
    intro xs few
    obtain ⟨_, v⟩ := e
    rw [itemCountMembers] at few
    simp only [forall_mem_cons] at each
    obtain ⟨⟨_, v⟩, tl⟩ := each
    simp only [budgetMembers, noteBudget_eq_some hshal (show xs + 1 ≤ _ by omega) countable,
      Option.bind_eq_bind, Option.bind_some]
    rw [lenBudget_eq_some (by omega), Option.bind_some, v (xs + 1) (by omega),
      Option.bind_some, ih tl _ (by omega), itemCountMembers]
    congr 1
    omega

/-- A value is accepted when its items and one more text still fit. -/
theorem budget_eq_some {texts : Nat} (countable : lim.maxItems < 2 ^ 64) (v : Value) :
    ∀ d lv xs, d + lv ≤ lim.maxDepth →
      Shaped texts lv v → xs + itemCount v + texts ≤ lim.maxItems →
      budget (some lim) d v xs = some (xs + itemCount v) := by
  induction v using Value.induction with
  | null | bool | number =>
    intro d lv xs hshal _ few
    exact noteBudget_eq_some (by omega) (by simp only [itemCount] at few; omega) countable
  | string text =>
    intro d lv xs hshal hs few
    simp only [itemCount] at few
    have hsh : (utf8Bytes text).length ≤ texts := hs
    rw [budget, noteBudget_eq_some (by omega) (by omega) countable]
    exact lenBudget_eq_some (by omega)
  | array vs ih =>
    intro d lv xs hshal hs few
    obtain ⟨hpos, pts⟩ := hs
    have len := length_le_itemCountItems vs
    rw [itemCount] at few
    have each : ∀ v ∈ vs, ∀ xs, xs + itemCount v + texts ≤ lim.maxItems →
        budget (some lim) (d + 1) v xs = some (xs + itemCount v) :=
      fun v hm xs few => ih v hm _ (lv - 1) xs (by omega)
        (shapedItems_iff.mp pts v hm) few
    simp only [budget, noteBudget_eq_some (show d ≤ _ by omega)
      (show xs + 1 ≤ _ by omega) countable, Option.bind_eq_bind, Option.bind_some]
    rw [lenBudget_eq_some (by omega), Option.bind_some, budgetItems_eq_some each _ (by omega),
      itemCount, Nat.add_assoc]
  | object ms ih =>
    intro d lv xs hshal hs few
    obtain ⟨hpos, _, pts⟩ := hs
    have len := length_le_itemCountMembers ms
    rw [itemCount] at few
    have each : ∀ e ∈ ms, (utf8Bytes e.1).length ≤ texts ∧ ∀ xs,
        xs + itemCount e.2 + texts ≤ lim.maxItems →
          budget (some lim) (d + 1) e.2 xs = some (xs + itemCount e.2) := by
      intro e hm
      obtain ⟨hsh, hs⟩ := shapedMembers_iff.mp pts e hm
      exact ⟨hsh, fun xs few => ih e hm _ (lv - 1) xs (by omega) hs few⟩
    simp only [budget, noteBudget_eq_some (show d ≤ _ by omega)
      (show xs + 1 ≤ _ by omega) countable, Option.bind_eq_bind, Option.bind_some]
    rw [lenBudget_eq_some (by omega), Option.bind_some,
      budgetMembers_eq_some countable (by omega) each _ (by omega), itemCount, Nat.add_assoc]

/-- The bounded decoder reads back what the encoder wrote, if the value is small enough. -/
theorem decodeBounded_eq_ok {texts : Nat} {v : Value} (countable : lim.maxItems < 2 ^ 64)
    (hs : Shaped texts lim.maxDepth v) (few : itemCount v + texts ≤ lim.maxItems)
    (hsh : (encodeValue v).length ≤ lim.maxBytes) :
    decodeBounded (encodeValue v) lim = .ok (canonical v) := by
  have wf := wellFormed_of_shaped (by omega) v _ hs (by omega)
  apply eq_ok_of_toOption
  rw [decodeBounded_encodeValue wf hsh,
    budget_eq_some countable (canonical v) 0 lim.maxDepth 0 (by omega)
      (shaped_canonical v _ hs) (by rw [itemCount_canonical]; omega)]
  rfl

/-! ## Length of an encoding -/

theorem length_encodeTypeLen_le (major : UInt8) (len : Nat) :
    (encodeTypeLen major len).length ≤ 9 := by
  unfold encodeTypeLen
  dsimp only
  split_ifs <;> simp

theorem length_encodeItems_le {vs : List Value}
    (each : ∀ v ∈ vs, (encodeValue v).length ≤ sizeBound v) :
    (encodeItems vs).length ≤ sizeBoundItems vs := by
  induction vs with
  | nil => simp [encodeItems]
  | cons v vs ih =>
    simp only [forall_mem_cons] at each
    have rest := ih each.2
    rw [encodeItems, sizeBoundItems, length_append]
    omega

theorem length_flatMap_encodeMember_le (each : ∀ e ∈ ms, (encodeValue e.2).length ≤ sizeBound e.2) :
    (ms.flatMap encodeMember).length ≤ sizeBoundMembers ms := by
  induction ms with
  | nil => simp
  | cons e ms ih =>
    obtain ⟨k, _⟩ := e
    simp only [forall_mem_cons] at each
    have rest := ih each.2
    have header := length_encodeTypeLen_le 3 (utf8Bytes k).length
    rw [flatMap_cons, length_append, sizeBoundMembers, encodeMember, length_append,
      encodeText, length_append]
    dsimp only
    omega

/-- The size of a record whose field names have at most 32 bytes. -/
theorem sizeBound_object_le {ms : List (String × Value)} {size : Nat}
    (keys : ∀ name ∈ ms.map Prod.fst, (utf8Bytes name).length ≤ 32)
    (total : 9 + 41 * ms.length + (ms.map fun e => sizeBound e.2).sum ≤ size) :
    sizeBound (.object ms) ≤ size := by
  refine le_trans ?_ total
  clear total
  rw [sizeBound]
  suffices parts : sizeBoundMembers ms ≤
      41 * ms.length + (ms.map fun e => sizeBound e.2).sum by omega
  induction ms with
  | nil => simp [sizeBoundMembers]
  | cons e ms ih =>
    simp only [map_cons, forall_mem_cons] at keys
    have rest := ih keys.2
    have key := keys.1
    simp only [sizeBoundMembers, length_cons, map_cons, sum_cons]
    omega

theorem length_encodeValue_le (v : Value) : (encodeValue v).length ≤ sizeBound v := by
  induction v using Value.induction with
  | null => simp [encodeValue, sizeBound]
  | bool v => cases v <;> simp [encodeValue, sizeBound]
  | number v =>
    cases v with
    | posInt | negInt => exact length_encodeTypeLen_le _ _
    | float => simp [encodeValue, encodeNumber, sizeBound]
  | string text =>
    have header := length_encodeTypeLen_le 3 (utf8Bytes text).length
    rw [encodeValue, encodeText, length_append, sizeBound]
    omega
  | array vs ih =>
    have header := length_encodeTypeLen_le 4 vs.length
    have pts := length_encodeItems_le ih
    rw [encodeValue, length_append, sizeBound]
    omega
  | object ms ih =>
    have header := length_encodeTypeLen_le 5 ms.length
    have pts := length_flatMap_encodeMember_le ih
    have sorted : ((sortMembers ms).flatMap encodeMember).length =
        (ms.flatMap encodeMember).length :=
      ((sortMembers_perm ms).flatMap_right encodeMember).length_eq
    rw [encodeValue_object, length_append, sizeBound]
    omega

end Ostadix.CanonicalCbor
