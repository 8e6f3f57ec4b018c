import Ostadix.CanonicalCbor.Canonical
import Ostadix.CanonicalCbor.Decode
import Ostadix.Lib.Except

/-! # Decoding what the encoder wrote

The encoding of a value is a prefix code: whatever follows it, the decoder reads back the
canonical form of the value and stops where the encoding stops. With limits it does so exactly
when the value stays within the item budget, which `budget` computes from the value alone. -/

namespace Ostadix.CanonicalCbor

open Ostadix.Lib List Value Except

/-! ## Initial bytes -/

private theorem initial_byte : ∀ major : Fin 8, ∀ xtra : Fin 32,
    (UInt8.ofNat major.1 <<< 5 ||| UInt8.ofNat xtra.1) >>> 5 = UInt8.ofNat major.1 ∧
      (UInt8.ofNat major.1 <<< 5 ||| UInt8.ofNat xtra.1) &&& 0x1f =
        UInt8.ofNat xtra.1 := by
  decide

theorem initial_byte_split (major xtra : UInt8) (isMajor : major < 8) (isAdditional : xtra < 32) :
    (major <<< 5 ||| xtra) >>> 5 = major ∧ (major <<< 5 ||| xtra) &&& 0x1f = xtra := by
  have split := initial_byte ⟨major.toNat, isMajor⟩ ⟨xtra.toNat, isAdditional⟩
  simpa using split

variable {lim : Option DecodeLimits}

theorem readBytes_append {bs tl : Bytes} {items len : Nat} (exact : bs.length = len) :
    readBytes len ⟨bs ++ tl, lim, items⟩ = .ok (bs, ⟨tl, lim, items⟩) := by
  subst exact
  simp [readBytes]

theorem readBytes_toBigEndian {w len : Nat} (fits : len < 256 ^ w) (tl : Bytes)
    (lim : Option DecodeLimits) (items : Nat) :
    (do
      let (bs, dec) ← readBytes w ⟨toBigEndian w len ++ tl, lim, items⟩
      return (ofBigEndian bs, dec)) =
      (.ok (len, ⟨tl, lim, items⟩) : Except DecodeError (Decoded Nat)) := by
  rw [readBytes_append (length_toBigEndian w len)]
  show ok (ofBigEndian (toBigEndian w len), _) = _
  rw [ofBigEndian_toBigEndian_of_lt fits]

/-- The initial byte carries the major type, and the argument after it is read back whatever
follows. -/
theorem encodeTypeLen_spec (major : UInt8) {len : Nat} (isMajor : major < 8) (fits : len < 2 ^ 64) :
    ∃ ini arg, encodeTypeLen major len = ini :: arg ∧ ini >>> 5 = major ∧
      ∀ tl lim xs, readLen (ini &&& 0x1f) ⟨arg ++ tl, lim, xs⟩ =
        .ok (len, ⟨tl, lim, xs⟩) := by
  unfold encodeTypeLen
  dsimp only
  split_ifs with tiny byte short word
  · have value : (UInt8.ofNat len).toNat = len := by
      rw [UInt8.toNat_ofNat', Nat.mod_eq_of_lt (by omega)]
    have hsm : UInt8.ofNat len ≤ 23 := by
      rw [UInt8.le_iff_toNat_le, value]
      exact tiny
    obtain ⟨high, low⟩ := initial_byte_split major (.ofNat len) isMajor
      (UInt8.lt_of_le_of_lt hsm (by decide))
    refine ⟨_, [], rfl, high, ?_⟩
    intro tl lim xs
    rw [low, readLen, if_pos hsm, nil_append, value]
  · have value : (UInt8.ofNat len).toNat = len := by
      rw [UInt8.toNat_ofNat', Nat.mod_eq_of_lt (by omega)]
    obtain ⟨high, low⟩ := initial_byte_split major 24 isMajor (by decide)
    refine ⟨_, _, rfl, high, ?_⟩
    intro tl lim xs
    rw [low]
    show ok ((UInt8.ofNat len).toNat, (⟨tl, lim, xs⟩ : CborDecoder)) = _
    rw [value]
  · obtain ⟨high, low⟩ := initial_byte_split major 25 isMajor (by decide)
    refine ⟨_, _, rfl, high, fun tl lim xs => ?_⟩
    rw [low]
    exact readBytes_toBigEndian (by omega) tl lim xs
  · obtain ⟨high, low⟩ := initial_byte_split major 26 isMajor (by decide)
    refine ⟨_, _, rfl, high, fun tl lim xs => ?_⟩
    rw [low]
    exact readBytes_toBigEndian (by omega) tl lim xs
  · obtain ⟨high, low⟩ := initial_byte_split major 27 isMajor (by decide)
    refine ⟨_, _, rfl, high, fun tl lim xs => ?_⟩
    rw [low]
    exact readBytes_toBigEndian (by omega) tl lim xs

/-! ## The item budget of a value

`budget limits depth value items` is the decoder's item counter after reading `value`, started
at `items`, or nothing when a limit stops it. Without limits the counter does not move. -/

def noteBudget (limits : Option DecodeLimits) (depth items : Nat) : Option Nat :=
  match limits with
  | none => some items
  | some limits =>
      if depth ≤ limits.maxDepth ∧ items + 1 < 2 ^ 64 ∧ items + 1 ≤ limits.maxItems then
        some (items + 1)
      else none

def lenBudget (limits : Option DecodeLimits) (len items : Nat) : Option Nat :=
  match limits with
  | none => some items
  | some limits => if len ≤ limits.maxItems - items then some items else none

mutual
def budget (limits : Option DecodeLimits) : Nat → Value → Nat → Option Nat
  | depth, .string text, items => do
      let items ← noteBudget limits depth items
      lenBudget limits (utf8Bytes text).length items
  | depth, .array values, items => do
      let items ← noteBudget limits depth items
      let items ← lenBudget limits values.length items
      budgetItems limits (depth + 1) values items
  | depth, .object members, items => do
      let items ← noteBudget limits depth items
      let items ← lenBudget limits members.length items
      budgetMembers limits (depth + 1) members items
  | depth, .null, items => noteBudget limits depth items
  | depth, .bool _, items => noteBudget limits depth items
  | depth, .number _, items => noteBudget limits depth items

def budgetItems (limits : Option DecodeLimits) : Nat → List Value → Nat → Option Nat
  | _, [], items => some items
  | depth, value :: values, items => do
      let items ← budget limits depth value items
      budgetItems limits depth values items

def budgetMembers (limits : Option DecodeLimits) : Nat → List (String × Value) → Nat → Option Nat
  | _, [], items => some items
  | depth, (key, value) :: members, items => do
      let items ← noteBudget limits depth items
      let items ← lenBudget limits (utf8Bytes key).length items
      let items ← budget limits depth value items
      budgetMembers limits depth members items
end

theorem budget_none (v : Value) : ∀ d xs, budget none d v xs = some xs := by
  induction v using induction with
  | null | bool | number | string => intro d xs; rfl
  | array vs ih =>
    intro d xs
    suffices all : ∀ xs, budgetItems none (d + 1) vs xs = some xs from all xs
    induction vs with
    | nil => intro xs; rfl
    | cons v vs step =>
      intro xs
      rw [budgetItems, ih v (by simp)]
      exact step (fun x hm => ih x (by simp [hm])) xs
  | object ms ih =>
    intro d xs
    suffices all : ∀ xs, budgetMembers none (d + 1) ms xs = some xs from all xs
    induction ms with
    | nil => intro xs; rfl
    | cons e ms step =>
      intro xs
      obtain ⟨k, v⟩ := e
      simp only [budgetMembers, noteBudget, lenBudget, Option.bind_eq_bind, Option.bind_some]
      rw [ih (k, v) (by simp)]
      exact step (fun e hm => ih e (by simp [hm])) xs

/-! ## Reading back -/

theorem noteItem_toOption (d : Nat) (pl : Bytes) (lim : Option DecodeLimits) (items : Nat) :
    (noteItem d ⟨pl, lim, items⟩).toOption =
      (noteBudget lim d items).map fun items => ⟨pl, lim, items⟩ := by
  cases lim with
  | none => rfl
  | some =>
    simp only [noteItem, chargeItems, noteBudget]
    split_ifs <;> first | rfl | omega

/-- A sized length is accepted exactly when the item budget allows it, provided its items can
fit in what follows. -/
theorem readSizedLen_toOption {xtra : UInt8} {len minimum items : Nat}
    {arg tl : Bytes} (kind : String)
    (reads : readLen xtra ⟨arg, lim, items⟩ = .ok (len, ⟨tl, lim, items⟩))
    (fits : len ≤ tl.length / minimum) :
    (readSizedLen xtra kind minimum ⟨arg, lim, items⟩).toOption =
      (lenBudget lim len items).map fun items => (len, ⟨tl, lim, items⟩) := by
  rw [readSizedLen, reads]
  have hen : ¬ tl.length / minimum < len := by omega
  cases lim with
  | none => simp [bind, Except.bind, pure, Except.pure, hen, lenBudget, Except.toOption]
  | some lim =>
    by_cases hal : len ≤ lim.maxItems - items
    · have hw : ¬ lim.maxItems - items < len := by omega
      simp [bind, Except.bind, pure, Except.pure, hen, lenBudget, Except.toOption, hal, hw]
    · have beyond : lim.maxItems - items < len := by omega
      simp [bind, Except.bind, hen, lenBudget, Except.toOption, hal, beyond, throw,
        throwThe, MonadExceptOf.throw]

/-- What it means that `decodeOne` reads `value` back from its encoding. -/
def ReadsBack (limits : Option DecodeLimits) (depth : Nat)
    (decodeOne : CborDecoder → Except DecodeError (Decoded Value)) (value : Value) : Prop :=
  ∀ rest items, (decodeOne ⟨encodeValue value ++ rest, limits, items⟩).toOption =
    (budget limits depth (canonical value) items).map fun items =>
      (canonical value, ⟨rest, limits, items⟩)

variable {decodeOne : CborDecoder → Except DecodeError (Decoded Value)}
  {ms : List (String × Value)}

theorem decodeItems_readsBack {d : Nat} {vs : List Value}
    (reads : ∀ v ∈ vs, ReadsBack lim d decodeOne v) (tl : Bytes) (items : Nat) :
    (decodeItems decodeOne vs.length ⟨vs.flatMap encodeValue ++ tl, lim, items⟩).toOption =
      (budgetItems lim d (vs.map canonical) items).map fun items =>
        (vs.map canonical, ⟨tl, lim, items⟩) := by
  induction vs generalizing items with
  | nil => rfl
  | cons v vs ih =>
    simp only [forall_mem_cons] at reads
    simp only [length_cons, flatMap_cons, append_assoc, decodeItems, map_cons,
      budgetItems, toOption_bind, reads.1 _ items, Option.bind_eq_bind]
    cases budget lim d (canonical v) items with
    | none => rfl
    | some items =>
      simp only [Option.map_some, Option.bind_some, ih reads.2 items]
      cases budgetItems lim d (vs.map canonical) items <;> rfl

theorem insertMember_of_not_mem {k : String} (v : Value) (fresh : k ∉ ms.map Prod.fst) :
    insertMember k v ms = ms ++ [(k, v)] := by
  induction ms with
  | nil => rfl
  | cons e ms ih =>
    obtain ⟨_, _⟩ := e
    simp only [map_cons, mem_cons, not_or] at fresh
    rw [insertMember, if_neg (Ne.symm fresh.1), ih fresh.2, cons_append]

theorem decodeMembers_readsBack {d : Nat} {es : List (String × Value)} (reads : ∀ e ∈ es,
      ReadsBack lim d decodeOne (.string e.1) ∧ ReadsBack lim d decodeOne e.2)
    (map : List (String × Value)) (hne : (map.map Prod.fst ++ es.map Prod.fst).Nodup)
    (tl : Bytes) (items : Nat) :
    (decodeMembers decodeOne es.length map ⟨es.flatMap encodeMember ++ tl, lim, items⟩).toOption =
      (budgetMembers lim d (es.map canonicalMember) items).map fun items =>
        (map ++ es.map canonicalMember, ⟨tl, lim, items⟩) := by
  induction es generalizing map items with
  | nil => simp [decodeMembers, budgetMembers, Except.toOption]
  | cons e es ih =>
    obtain ⟨k, v⟩ := e
    simp only [forall_mem_cons] at reads
    obtain ⟨⟨readsKey, readsValue⟩, readsRest⟩ := reads
    have fresh : k ∉ map.map Prod.fst := by
      intro hk
      exact disjoint_of_nodup_append hne hk (by simp)
    have distinctRest : ((map ++ [(k, canonical v)]).map Prod.fst ++ es.map Prod.fst).Nodup := by
      simpa using hne
    have readKey : ∀ tl items, (decodeOne ⟨encodeText k ++ tl, lim, items⟩).toOption =
          ((noteBudget lim d items).bind (lenBudget lim (utf8Bytes k).length)).map
            fun items => (.string k, ⟨tl, lim, items⟩) := readsKey
    simp only [length_cons, flatMap_cons, append_assoc, decodeMembers, map_cons,
      canonicalMember, encodeMember, budgetMembers, toOption_bind, readKey, Option.bind_eq_bind]
    rw [← Option.bind_assoc]
    cases (noteBudget lim d items).bind (lenBudget lim (utf8Bytes k).length) with
    | none => rfl
    | some items =>
      simp only [Option.map_some, Option.bind_some, toOption_bind, readsValue _ items]
      cases budget lim d (canonical v) items with
      | none => rfl
      | some items =>
        simp only [Option.map_some, Option.bind_some]
        rw [insertMember_of_not_mem _ fresh, ih readsRest _ distinctRest items,
          append_assoc, singleton_append]

theorem decodeValueAtDepth_cons (fuel d items : Nat) (ini : UInt8) (pl : Bytes)
    (lim : Option DecodeLimits) :
    (decodeValueAtDepth (fuel + 1) d ⟨ini :: pl, lim, items⟩).toOption =
      (noteBudget lim d items).bind fun items =>
        (decodeBody (decodeValueAtDepth fuel (d + 1)) ini ⟨pl, lim, items⟩).toOption := by
  rw [decodeValueAtDepth, toOption_bind, noteItem_toOption]
  cases noteBudget lim d items <;> rfl

theorem text_readsBack {text : String} (fits : (utf8Bytes text).length < 2 ^ 64)
    (lim : Option DecodeLimits) (fuel d : Nat) :
    ReadsBack lim d (decodeValueAtDepth (fuel + 1) d) (.string text) := by
  intro rest xs
  obtain ⟨_, _, enc, high, reads⟩ := encodeTypeLen_spec 3 (by decide) fits
  rw [encodeValue, encodeText, enc, cons_append, cons_append, decodeValueAtDepth_cons]
  show _ = ((noteBudget lim d xs).bind (lenBudget lim (utf8Bytes text).length)).map _
  rw [Option.map_bind]
  congr 1
  funext xs
  simp +decide only [decodeBody, high, reduceIte]
  rw [append_assoc, toOption_bind, readSizedLen_toOption _ (reads _ lim xs) (by simp)]
  show _ = (lenBudget lim (utf8Bytes text).length xs).map _
  cases lenBudget lim (utf8Bytes text).length xs with
  | none => rfl
  | some =>
    simp only [Option.map_some, Option.bind_some, readBytes_append, toOption_bind, toOption_ok,
      fromUtf8_utf8Bytes]
    rfl

theorem number_readsBack (num : Number) (lim : Option DecodeLimits) (fuel d : Nat) :
    ReadsBack lim d (decodeValueAtDepth (fuel + 1) d) (.number num) := by
  intro tl xs
  have hstd : ∀ ini pl, encodeNumber num = ini :: pl →
      (∀ xs, decodeBody (decodeValueAtDepth fuel (d + 1)) ini
        ⟨pl ++ tl, lim, xs⟩ = .ok (.number num, ⟨tl, lim, xs⟩)) →
      (decodeValueAtDepth (fuel + 1) d ⟨encodeValue (.number num) ++ tl, lim, xs⟩).toOption =
        (budget lim d (canonical (.number num)) xs).map fun xs =>
          (canonical (.number num), ⟨tl, lim, xs⟩) := by
    intro ini pl enc bd
    rw [encodeValue, enc, cons_append, decodeValueAtDepth_cons, canonical, budget]
    cases noteBudget lim d xs with
    | none => rfl
    | some xs => simp only [Option.bind_some, bd xs, Except.toOption, Option.map_some]
  cases num with
  | posInt v =>
    obtain ⟨ini, arg, enc, high, reads⟩ := encodeTypeLen_spec 0 (by decide) v.toNat_lt
    refine hstd ini arg enc fun xs => ?_
    rw [decodeBody, high, if_pos rfl, reads tl lim xs]
    show ok (number (.posInt (UInt64.ofNat v.toNat)), _) = _
    rw [UInt64.ofNat_toNat]
  | negInt v =>
    have hsm : (-1 - v.value).toNat < 2 ^ 64 := by
      have := v.lower
      omega
    obtain ⟨ini, arg, enc, high, reads⟩ := encodeTypeLen_spec 1 (by decide) hsm
    refine hstd ini arg enc fun xs => ?_
    have back : Number.fromNegative (-1 - v.value).toNat = some (.negInt v) := by
      have lower := v.lower
      have negative := v.negative
      have he : -1 - ((-1 - v.value).toNat : Int) = v.value := by omega
      rw [Number.fromNegative, dif_pos (by omega)]
      simp only [he]
    rw [decodeBody, high, if_neg (by decide), if_pos rfl, reads tl lim xs]
    simp only [bind, Except.bind, back]
    rfl
  | float v =>
    refine hstd 0xfb (toBigEndian 8 v.bits.toNat) rfl fun xs => ?_
    have back : Number.fromF64 v.bits = some (.float v) := by
      rw [Number.fromF64, dif_pos v.finite]
    have simple : decodeBody (decodeValueAtDepth fuel (d + 1)) 0xfb
        ⟨toBigEndian 8 v.bits.toNat ++ tl, lim, xs⟩ =
        decodeSimple 27 ⟨toBigEndian 8 v.bits.toNat ++ tl, lim, xs⟩ := by
      have isSimple : (0xfb : UInt8) >>> 5 = 7 := by decide
      simp +decide only [decodeBody, isSimple, reduceIte]
      rfl
    rw [simple, decodeSimple, if_neg (by decide), if_neg (by decide), if_neg (by decide),
      if_neg (by decide), if_pos rfl, readBytes_append (length_toBigEndian _ _)]
    simp only [bind, Except.bind]
    have fits : v.bits.toNat < 256 ^ 8 := by
      have := v.bits.toNat_lt
      omega
    rw [ofBigEndian_toBigEndian_of_lt fits, UInt64.ofNat_toNat, back]
    rfl

theorem array_readsBack {vs : List Value} (fits : vs.length < 2 ^ 64) {fuel d : Nat}
    (reads : ∀ v ∈ vs, ReadsBack lim (d + 1) (decodeValueAtDepth fuel (d + 1)) v) :
    ReadsBack lim d (decodeValueAtDepth (fuel + 1) d) (.array vs) := by
  intro rest xs
  obtain ⟨_, _, enc, high, readsLen⟩ := encodeTypeLen_spec 4 (by decide) fits
  have large : 1 * vs.length ≤ (vs.flatMap encodeValue).length :=
    mul_length_le_length_flatMap fun v _ => length_encodeValue_pos v
  rw [encodeValue, encodeItems_eq_flatMap, enc, cons_append, cons_append,
    decodeValueAtDepth_cons, canonical_array, budget, Option.bind_eq_bind, Option.map_bind]
  congr 1
  funext xs
  simp +decide only [decodeBody, high, reduceIte]
  rw [append_assoc, toOption_bind,
    readSizedLen_toOption _ (readsLen _ lim xs) (by rw [length_append]; omega)]
  simp only [length_map, Function.comp_apply]
  cases lenBudget lim vs.length xs with
  | none => rfl
  | some xs =>
    simp only [Option.map_some, Option.bind_some, toOption_bind, decodeItems_readsBack reads]
    cases budgetItems lim (d + 1) (vs.map canonical) xs <;> rfl

theorem object_readsBack (fits : ms.length < 2 ^ 64) (hne : (ms.map Prod.fst).Nodup) {fuel d : Nat}
    (reads : ∀ e ∈ ms,
      ReadsBack lim (d + 1) (decodeValueAtDepth fuel (d + 1)) (.string e.1) ∧
        ReadsBack lim (d + 1) (decodeValueAtDepth fuel (d + 1)) e.2) :
    ReadsBack lim d (decodeValueAtDepth (fuel + 1) d) (.object ms) := by
  intro tl xs
  obtain ⟨_, _, enc, high, readsLen⟩ := encodeTypeLen_spec 5 (by decide) fits
  have large : 2 * (sortMembers ms).length ≤ ((sortMembers ms).flatMap encodeMember).length := by
    apply mul_length_le_length_flatMap
    intro e _
    have key := length_encodeText_pos e.1
    have value := length_encodeValue_pos e.2
    rw [encodeMember, length_append]
    omega
  have readsSorted : ∀ e ∈ sortMembers ms, _ := fun e hm =>
    reads e (mem_sortMembers.mp hm)
  have readsMembers := decodeMembers_readsBack readsSorted []
    (by simpa using nodup_keys_sortMembers hne) tl
  rw [length_sortMembers] at large readsMembers
  rw [encodeValue_object, enc, cons_append, cons_append,
    decodeValueAtDepth_cons, canonical_object, budget, Option.bind_eq_bind, Option.map_bind]
  congr 1
  funext xs
  simp +decide only [decodeBody, high, reduceIte]
  rw [append_assoc, toOption_bind,
    readSizedLen_toOption _ (readsLen _ lim xs) (by rw [length_append]; omega)]
  simp only [length_map, length_sortMembers, Function.comp_apply]
  cases lenBudget lim ms.length xs with
  | none => rfl
  | some xs =>
    simp only [Option.map_some, Option.bind_some, toOption_bind, readsMembers]
    cases budgetMembers lim (d + 1) ((sortMembers ms).map canonicalMember) xs <;> rfl

theorem decodeValueAtDepth_readsBack (lim : Option DecodeLimits) (v : Value) :
    v.WellFormed → ∀ fuel d, (encodeValue v).length ≤ fuel →
      ReadsBack lim d (decodeValueAtDepth fuel d) v := by
  -- The first byte of the encoding pays for one unit of fuel; nested items are shorter.
  have hpos : ∀ {v fuel}, (encodeValue v).length ≤ fuel → ∃ less, fuel = less + 1 := by
    intro v fuel hen
    have := length_encodeValue_pos v
    exact ⟨fuel - 1, by omega⟩
  induction v using induction with
  | null =>
    intro _ fuel d hen tl items
    obtain ⟨fuel, rfl⟩ := hpos hen
    rw [encodeValue, singleton_append, decodeValueAtDepth_cons, canonical, budget]
    cases noteBudget lim d items <;> rfl
  | bool v =>
    intro _ fuel d hen tl items
    obtain ⟨fuel, rfl⟩ := hpos hen
    cases v <;>
      (rw [encodeValue, singleton_append, decodeValueAtDepth_cons, canonical, budget]
       cases noteBudget lim d items <;> rfl)
  | number v =>
    intro _ fuel d hen
    obtain ⟨fuel, rfl⟩ := hpos hen
    exact number_readsBack v lim fuel d
  | string =>
    intro wf fuel d hen
    obtain ⟨fuel, rfl⟩ := hpos hen
    exact text_readsBack wf lim fuel d
  | array vs ih =>
    intro wf fuel d hen
    obtain ⟨fuel, rfl⟩ := hpos hen
    refine array_readsBack wf.1 fun v hm => ?_
    refine ih v hm (wellFormedItems_iff.mp wf.2 v hm) _ _ ?_
    have header := length_encodeTypeLen_pos 4 vs.length
    have nested := length_le_length_flatMap encodeValue hm
    rw [encodeValue, encodeItems_eq_flatMap, length_append] at hen
    omega
  | object ms ih =>
    intro wf fuel d hen
    obtain ⟨fuel, rfl⟩ := hpos hen
    obtain ⟨fits, hne, pts⟩ := wf
    refine object_readsBack fits hne fun e hm => ?_
    obtain ⟨keyFits, wf⟩ := wellFormedMembers_iff.mp pts e hm
    have header := length_encodeTypeLen_pos 5 ms.length
    have nested := length_le_length_flatMap encodeMember (mem_sortMembers.mpr hm)
    have key := length_encodeText_pos e.1
    rw [encodeValue_object, length_append] at hen
    rw [encodeMember, length_append] at nested
    refine ⟨?_, ih e hm wf _ _ (by omega)⟩
    obtain ⟨less, rfl⟩ : ∃ less, fuel = less + 1 := ⟨fuel - 1, by omega⟩
    exact text_readsBack keyFits lim less (d + 1)

theorem decodeWhole_encodeValue {v : Value} (wf : v.WellFormed) (lim : Option DecodeLimits) :
    (decodeWhole ⟨encodeValue v, lim, 0⟩).toOption =
      (budget lim 0 (canonical v) 0).map fun _ => canonical v := by
  have reads := decodeValueAtDepth_readsBack lim v wf ((encodeValue v).length + 1) 0 (by omega) [] 0
  rw [append_nil] at reads
  rw [decodeWhole, toOption_bind, reads]
  cases budget lim 0 (canonical v) 0 <;> rfl

theorem decode_encodeValue {v : Value} (wf : v.WellFormed) :
    decode (encodeValue v) = .ok (canonical v) := by
  apply eq_ok_of_toOption
  have whole := decodeWhole_encodeValue wf none
  rwa [budget_none] at whole

theorem decodeBounded_encodeValue {v : Value} (wf : v.WellFormed)
    {lim : DecodeLimits} (short : (encodeValue v).length ≤ lim.maxBytes) :
    (decodeBounded (encodeValue v) lim).toOption =
      (budget (some lim) 0 (canonical v) 0).map fun _ => canonical v := by
  rw [decodeBounded, if_neg (by omega)]
  exact decodeWhole_encodeValue wf (some lim)

/-! ## Equal values have one encoding -/

theorem encodeText_injective {left right : String} (fitsLeft : (utf8Bytes left).length < 2 ^ 64)
    (fitsRight : (utf8Bytes right).length < 2 ^ 64) (he : encodeText left = encodeText right) :
    left = right := by
  have reads : ∀ text, (utf8Bytes text).length < 2 ^ 64 →
      decode (encodeText text) = .ok (.string text) := by
    intro text fits
    have wf : (string text).WellFormed := fits
    exact decode_encodeValue wf
  have both := reads left fitsLeft
  rw [he, reads right fitsRight] at both
  cases both
  rfl

theorem sortEntries_eq_of_perm {α : Type} {left right : List (Bytes × α)}
    (hne : (left.map Prod.fst).Nodup) (perm : left.Perm right) :
    sortEntries left = sortEntries right := by
  have sorted : ∀ es : List (Bytes × α),
      (sortEntries es).Pairwise fun first x2 => shortlexLe first.1 x2.1 = true :=
    pairwise_mergeSort (fun _ _ _ => shortlexLe_trans) fun first x2 =>
      shortlexLe_total first.1 x2.1
  have sortedPerm : (sortEntries left).Perm (sortEntries right) :=
    (mergeSort_perm _ _).trans (perm.trans (mergeSort_perm _ _).symm)
  refine sortedPerm.eq_of_pairwise ?_ (sorted left) (sorted right)
  intro first x2 inLeft inRight le ge
  have k := shortlexLe_antisymm le ge
  have memberFirst : first ∈ left := (mergeSort_perm _ _).mem_iff.mp inLeft
  have memberSecond : x2 ∈ left := perm.mem_iff.mpr ((mergeSort_perm _ _).mem_iff.mp inRight)
  exact inj_on_of_nodup_map hne memberFirst memberSecond k

theorem encodeItems_eq_of_eqv {left right : List Value}
    (ih : ∀ x ∈ left, ∀ o ∈ right, x.eqv o = true → encodeValue x = encodeValue o)
    (he : eqvItems left right = true) :
    left.length = right.length ∧ encodeItems left = encodeItems right := by
  induction left generalizing right with
  | nil =>
    cases right with
    | nil => exact ⟨rfl, rfl⟩
    | cons => cases he
  | cons x left step =>
    cases right with
    | nil => cases he
    | cons o =>
      rw [eqvItems, Bool.and_eq_true] at he
      obtain ⟨sizes, encodings⟩ := step (fun x inLeft o inRight =>
        ih x (by simp [inLeft]) o (by simp [inRight])) he.2
      refine ⟨by simp [sizes], ?_⟩
      rw [encodeItems, encodeItems, ih x (by simp) o (by simp) he.1, encodings]

/-- Members of equal objects encode to the same entries, up to their order. -/
theorem encodeMembers_perm_of_eqv {left right : List (String × Value)}
    (wfLeft : Value.WellFormedMembers left) (hne : (left.map Prod.fst).Nodup)
    (ih : ∀ e ∈ left, ∀ o ∈ right, e.2.eqv o.2 = true →
      encodeValue e.2 = encodeValue o.2)
    (sizes : left.length = right.length) (he : eqvMembers left right = true) :
    ((encodeMembers left).map Prod.fst).Nodup ∧ (encodeMembers left).Perm (encodeMembers right) := by
  have keys : ((encodeMembers left).map Prod.fst).Nodup := by
    rw [encodeMembers_eq_map, map_map,
      show (Prod.fst ∘ fun e : String × Value => (encodeText e.1, encodeValue e.2)) =
        encodeText ∘ Prod.fst from rfl, ← map_map]
    refine .map_on ?_ hne
    intro first inFirst x2 inSecond heq
    obtain ⟨e, hm, rfl⟩ := mem_map.mp inFirst
    obtain ⟨o, otherMember, rfl⟩ := mem_map.mp inSecond
    exact encodeText_injective (wellFormedMembers_iff.mp wfLeft e hm).1
      (wellFormedMembers_iff.mp wfLeft o otherMember).1 heq
  refine ⟨keys, ?_⟩
  have subset : encodeMembers left ⊆ encodeMembers right := by
    rw [encodeMembers_eq_map, encodeMembers_eq_map]
    intro enc inLeft
    obtain ⟨e, hm, rfl⟩ := mem_map.mp inLeft
    obtain ⟨_, lookup, heq⟩ := eqvMembers_iff.mp he e hm
    have hst := mem_of_lookup lookup
    refine mem_map.mpr ⟨_, hst, ?_⟩
    rw [ih e hm _ hst heq]
  refine (subperm_of_subset (keys.of_map Prod.fst) subset).perm_of_length_le ?_
  simp [encodeMembers_eq_map, sizes]

theorem encodeValue_eq_of_eqv (left : Value) : ∀ right : Value, left.WellFormed →
    left.eqv right = true → encodeValue left = encodeValue right := by
  induction left using induction with
  | null | bool | number | string =>
    intro right _ he
    cases right <;> simp_all [eqv]
  | array xs ih =>
    intro right wf he
    cases right with
    | array =>
      obtain ⟨sizes, encodings⟩ := encodeItems_eq_of_eqv (fun x hm o _ =>
        ih x hm o (wellFormedItems_iff.mp wf.2 x hm)) he
      rw [encodeValue, encodeValue, sizes, encodings]
    | _ => simp [eqv] at he
  | object ms ih =>
    intro right wf he
    cases right with
    | object =>
      obtain ⟨_, hne, pts⟩ := wf
      rw [eqv, Bool.and_eq_true, beq_iff_eq] at he
      obtain ⟨keys, perm⟩ := encodeMembers_perm_of_eqv pts hne (fun e hm o _ =>
        ih e hm o.2 (wellFormedMembers_iff.mp pts e hm).2) he.1 he.2
      rw [encodeValue, encodeValue, he.1, sortEntries_eq_of_perm keys perm]
    | _ => simp [eqv] at he

/-- Decoding an encoding returns the encoded JSON value; two values share an encoding exactly
when they are equal, so the order in which members were inserted does not show. -/
theorem decode_encode_and_encode_eq_iff :
    (∀ message : JsonValue, ∃ decoded, decode (encode message) = .ok decoded ∧
      message.value.eqv decoded = true) ∧
    (∀ left right : JsonValue, encode left = encode right ↔ left.value.eqv right.value = true) := by
  refine ⟨?_, ?_⟩
  · intro message
    exact ⟨_, decode_encodeValue message.wellFormed, eqv_canonical _ message.wellFormed⟩
  · intro left right
    constructor
    · intro same
      have decoded := decode_encodeValue left.wellFormed
      rw [show encodeValue left.value = encodeValue right.value from same,
        decode_encodeValue right.wellFormed] at decoded
      exact eqv_of_canonical_eq _ _ left.wellFormed right.wellFormed (ok.inj decoded).symm
    · exact encodeValue_eq_of_eqv _ _ left.wellFormed

end Ostadix.CanonicalCbor
