import Ostadix.Lib.Layout
import Ostadix.Ocore.WellFormed

/-! # Layouts from the layouts of components

The layout of a struct or an enum as a function of the layouts of its component types, in machine
arithmetic and exactly. While no sum reaches the limit of machine arithmetic the two agree; where
overflows trap, a result shows that no sum did. -/

namespace Ostadix.Ocore

open Lib Lib.Layout List Nat

/-! ## In machine arithmetic -/

def offsetsOf (overflow : Overflow) (packed : Bool) :
    UInt64 → UInt64 → List Layout → Option (List UInt64 × UInt64 × UInt64)
  | offset, maxAlign, [] => some ([], offset, maxAlign)
  | offset, maxAlign, layout :: layouts => do
      let fieldAlign := if packed then 1 else layout.align
      let offset ← (overflow.alignUp offset fieldAlign).toOption
      let next ← checkedAdd offset layout.size
      let (offsets, stop) ← offsetsOf overflow packed next (max maxAlign fieldAlign) layouts
      return (offset :: offsets, stop)

def alignWith (requested : Option UInt64) (align : UInt64) : UInt64 :=
  (requested.map (max align)).getD align

/-- The offsets of the fields and the layout of a struct. -/
def structLayout (overflow : Overflow) (packed : Bool) (requested : Option UInt64)
    (layouts : List Layout) : Option (List UInt64 × Layout) := do
  let (offsets, stop, align) ← offsetsOf overflow packed 0 1 layouts
  let size ← (overflow.alignUp stop (alignWith requested align)).toOption
  return (offsets, ⟨size, alignWith requested align⟩)

def payloadEnd (overflow : Overflow) : UInt64 → UInt64 → List Layout → Option (UInt64 × UInt64)
  | offset, align, [] => some (offset, align)
  | offset, align, layout :: layouts => do
      let offset ← (overflow.alignUp offset layout.align).toOption
      let offset ← (overflow.add offset layout.size).toOption
      payloadEnd overflow offset (max align layout.align) layouts

def payloadLayouts (overflow : Overflow) :
    UInt64 → UInt64 → List (List Layout) → Option (List Layout × UInt64 × UInt64)
  | maxSize, maxAlign, [] => some ([], maxSize, maxAlign)
  | maxSize, maxAlign, payload :: payloads => do
      let (stop, align) ← payloadEnd overflow 0 1 payload
      let size ← (overflow.alignUp stop align).toOption
      let (layouts, rest) ←
        payloadLayouts overflow (max maxSize size) (max maxAlign align) payloads
      return (⟨size, align⟩ :: layouts, rest)

/-- The layouts of the payloads, the offset of the payload and the layout of an enum. -/
def enumLayout (overflow : Overflow) (tagSize : UInt64) (payloads : List (List Layout)) :
    Option (List Layout × UInt64 × Layout) := do
  let (layouts, maxSize, maxAlign) ← payloadLayouts overflow 0 1 payloads
  let payloadOffset ← (overflow.alignUp tagSize maxAlign).toOption
  let stop ← (overflow.add payloadOffset maxSize).toOption
  let size ← (overflow.alignUp stop (max maxAlign tagSize)).toOption
  return (layouts, payloadOffset, ⟨size, max maxAlign tagSize⟩)

/-! ## Exactly -/

def Layout.shape (layout : Layout) : Shape :=
  ⟨layout.size.toNat, layout.align.toNat⟩

/-- The fields of a struct as parts: those of a packed struct may start anywhere. -/
def fieldParts (packed : Bool) (shapes : List Shape) : List Shape :=
  if packed then shapes.map fun shape => { shape with align := 1 } else shapes

def leastAlign (requested : Option UInt64) : Nat :=
  (requested.map UInt64.toNat).getD 1

def structShape (packed : Bool) (requested : Option UInt64) (shapes : List Shape) : Shape :=
  enclose (leastAlign requested) (fieldParts packed shapes)

def payloadAlign (payloads : List (List Shape)) : Nat :=
  maxAlign 1 (payloads.map (enclose 1))

/-- Where the payload of an enum starts: behind its tag. -/
def payloadStart (tagSize : Nat) (payloads : List (List Shape)) : Nat :=
  roundUp tagSize (payloadAlign payloads)

/-- The end of the largest payload. -/
def payloadStop (tagSize : Nat) (payloads : List (List Shape)) : Nat :=
  payloadStart tagSize payloads + maxSize 0 (payloads.map (enclose 1))

def enumAlign (tagSize : Nat) (payloads : List (List Shape)) : Nat :=
  max (payloadAlign payloads) tagSize

def enumShape (tagSize : Nat) (payloads : List (List Shape)) : Shape :=
  ⟨roundUp (payloadStop tagSize payloads) (enumAlign tagSize payloads), enumAlign tagSize payloads⟩

/-! ## Machine arithmetic without overflow -/

/-- A power of two that machine arithmetic can hold. -/
def Power (align : Nat) : Prop :=
  ∃ exponent < 64, align = 2 ^ exponent

theorem Power.pos {al : Nat} (power : Power al) : 0 < al := by
  obtain ⟨ex, -, rfl⟩ := power
  exact Nat.two_pow_pos ex

theorem power_one : Power 1 :=
  ⟨0, by decide, rfl⟩

theorem power_toNat_one : Power (UInt64.toNat 1) :=
  power_one

theorem toNat_max (left right : UInt64) : (max left right).toNat = max left.toNat right.toNat := by
  show (if left ≤ right then right else left).toNat = _
  split
  · rename_i hlt
    exact (Nat.max_eq_right (UInt64.le_iff_toNat_le.mp hlt)).symm
  · rename_i larger
    rw [UInt64.le_iff_toNat_le, Nat.not_le] at larger
    exact (Nat.max_eq_left (Nat.le_of_lt larger)).symm

theorem power_max {left right : Nat} (leftPower : Power left) (rightPower : Power right) :
    Power (max left right) := by
  rcases Nat.le_total left right with hlt | larger
  · rw [Nat.max_eq_right hlt]
    exact rightPower
  · rw [Nat.max_eq_left larger]
    exact leftPower

variable {left right : UInt64}

theorem power_toNat_max (leftPower : Power left.toNat) (rightPower : Power right.toNat) :
    Power (max left right).toNat :=
  toNat_max left right ▸ power_max leftPower rightPower

theorem checkedAdd_eq_some {left right sum : UInt64} : checkedAdd left right = some sum ↔
      left.toNat + right.toNat < 2 ^ 64 ∧ sum.toNat = left.toNat + right.toNat := by
  rw [checkedAdd]
  split
  · rename_i fits
    have hex : (left + right).toNat = left.toNat + right.toNat := by
      rw [UInt64.toNat_add, mod_eq_of_lt fits]
    constructor
    · rintro ⟨⟩
      exact ⟨fits, hex⟩
    · rintro ⟨-, he⟩
      rw [UInt64.toNat_inj.mp (hex.trans he.symm)]
  · rename_i overflows
    exact ⟨nofun, fun fits => absurd fits.1 overflows⟩

theorem exists_checkedAdd (fits : left.toNat + right.toNat < 2 ^ 64) :
    ∃ sum, checkedAdd left right = some sum ∧ sum.toNat = left.toNat + right.toNat :=
  ⟨left + right, by rw [checkedAdd, if_pos fits], by rw [UInt64.toNat_add, mod_eq_of_lt fits]⟩

/-- Clearing the low bits rounds down. -/
theorem and_two_pow_sub {v ex : Nat} (hb : v < 2 ^ 64) (hsm : ex < 64) :
    v &&& (2 ^ 64 - 2 ^ ex) = v / 2 ^ ex * 2 ^ ex := by
  have hpos := Nat.two_pow_pos ex
  have hlt : 2 ^ ex - 1 < 2 ^ 64 :=
    Nat.lt_of_lt_of_le (Nat.sub_lt hpos (by decide))
      (Nat.pow_le_pow_right (by decide) (Nat.le_of_lt hsm))
  have split : 2 ^ 64 - 2 ^ ex = 2 ^ 64 - (2 ^ ex - 1 + 1) := by
    rw [Nat.sub_add_cancel hpos]
  apply eq_of_testBit_eq
  intro bit
  rw [testBit_and, split, testBit_two_pow_sub_succ hlt, testBit_two_pow_sub_one,
    testBit_mul_two_pow, testBit_div_two_pow]
  by_cases high : ex ≤ bit
  · by_cases hi : bit < 64
    · simp [high, hi]
    · have beyond : v.testBit bit = false :=
        Nat.testBit_lt_two_pow (Nat.lt_of_lt_of_le hb
          (Nat.pow_le_pow_right (by decide) (Nat.le_of_not_lt hi)))
      simp [high, beyond]
  · simp [high, Nat.lt_of_not_le high]

theorem toNat_sub_one {v : UInt64} (hpos : 1 ≤ v.toNat) : (v - 1).toNat = v.toNat - 1 :=
  UInt64.toNat_sub_of_le v 1 (UInt64.le_iff_toNat_le.mpr (show UInt64.toNat 1 ≤ _ from hpos))

theorem toNat_complement {al : UInt64} {ex : Nat} (power : al.toNat = 2 ^ ex) :
    (~~~(al - 1)).toNat = 2 ^ 64 - 2 ^ ex := by
  have hpos : 1 ≤ al.toNat := power ▸ Nat.two_pow_pos ex
  have less : (al - 1).toNat = 2 ^ ex - 1 := by
    rw [toNat_sub_one hpos, power]
  rw [UInt64.toNat_not, less]
  have := Nat.two_pow_pos ex
  simp only [UInt64.size]
  omega

namespace Overflow

theorem exists_add (ov : Overflow) (fits : left.toNat + right.toNat < 2 ^ 64) :
    ∃ sum, ov.add left right = .ok sum ∧ sum.toNat = left.toNat + right.toNat := by
  obtain ⟨sum, hk, hex⟩ := exists_checkedAdd fits
  have he : left + right = sum := by
    rw [checkedAdd, if_pos fits] at hk
    exact Option.some.inj hk
  cases ov with
  | wraps => exact ⟨sum, congrArg Except.ok he, hex⟩
  | traps => exact ⟨sum, by rw [add, hk]; rfl, hex⟩

theorem fits_of_add {left right sum : UInt64} (added : add .traps left right = .ok sum) :
    left.toNat + right.toNat < 2 ^ 64 := by
  cases hk : checkedAdd left right with
  | none => simp [add, hk, unwrap] at added
  | some => exact (checkedAdd_eq_some.mp hk).1

theorem exists_alignUp (ov : Overflow) {v al : UInt64} (power : Power al.toNat)
    (fits : v.toNat + al.toNat < 2 ^ 64) :
    ∃ r, ov.alignUp v al = .ok r ∧ r.toNat = roundUp v.toNat al.toNat := by
  obtain ⟨sum, added, hex⟩ := ov.exists_add fits
  obtain ⟨ex, hsm, isPower⟩ := power
  refine ⟨(sum - 1) &&& ~~~(al - 1), by rw [Overflow.alignUp, added]; rfl, ?_⟩
  have hpos : 1 ≤ sum.toNat := by
    have := Nat.two_pow_pos ex
    omega
  have less : (sum - 1).toNat = v.toNat + al.toNat - 1 := by
    rw [toNat_sub_one hpos, hex]
  rw [UInt64.toNat_and, toNat_complement isPower, less, isPower,
    and_two_pow_sub (by omega) hsm, roundUp]

theorem fits_of_alignUp {v al r : UInt64}
    (hali : alignUp .traps v al = .ok r) : v.toNat + al.toNat < 2 ^ 64 := by
  obtain ⟨_, added, -⟩ := bind_eq_ok.mp hali
  exact fits_of_add added

end Overflow

variable {ov : Overflow} {off align last largest : UInt64}

theorem alignUp_exact {v al r : UInt64} (power : Power al.toNat)
    (fits : v.toNat + al.toNat < 2 ^ 64) (hali : ov.alignUp v al = .ok r) :
    r.toNat = roundUp v.toNat al.toNat := by
  obtain ⟨_, alsoAligned, hex⟩ := ov.exists_alignUp power fits
  rw [hali] at alsoAligned
  cases alsoAligned
  exact hex

theorem add_exact {left right sum : UInt64} (fits : left.toNat + right.toNat < 2 ^ 64)
    (added : ov.add left right = .ok sum) : sum.toNat = left.toNat + right.toNat := by
  obtain ⟨_, alsoAdded, hex⟩ := ov.exists_add fits
  rw [added] at alsoAdded
  cases alsoAdded
  exact hex

/-- While the parts fit, so do the sums for the first of them. -/
theorem head_fits {off al : Nat} {part : Shape} {pts : List Shape}
    (hpos : ∀ sh ∈ part :: pts, 0 < sh.align)
    (fits : stop off (part :: pts) + maxAlign al (part :: pts) < 2 ^ 64) :
    off + part.align < 2 ^ 64 ∧ roundUp off part.align + part.size < 2 ^ 64 := by
  have first := hpos part mem_cons_self
  have starts := le_roundUp off first
  have ends := le_stop (roundUp off part.align + part.size) (forall_mem_cons.mp hpos).2
  have hali : part.align ≤ maxAlign al (part :: pts) := align_le_maxAlign al mem_cons_self
  rw [stop] at fits
  omega

/-! ## Structs -/

/-- A field as a part of its struct. -/
def Layout.part (packed : Bool) (layout : Layout) : Shape :=
  ⟨layout.size.toNat, (if packed then 1 else layout.align).toNat⟩

theorem fieldParts_shape (pk : Bool) (ls : List Layout) :
    fieldParts pk (ls.map Layout.shape) = ls.map (Layout.part pk) := by
  cases pk with
  | true => simp [fieldParts, Layout.part, Layout.shape, Function.comp_def]
  | false => rfl

variable {layout : Layout}

abbrev Powers (layouts : List Layout) : Prop :=
  ∀ layout ∈ layouts, Power layout.align.toNat

theorem Layout.part_power (pk : Bool) (power : Power layout.align.toNat) :
    Power (layout.part pk).align := by
  cases pk with
  | true => exact power_one
  | false => exact power

section Struct

variable {pk : Bool} {ls : List Layout}

theorem parts_pos (pk : Bool) (powers : Powers ls) :
    ∀ sh ∈ ls.map (Layout.part pk), 0 < sh.align := by
  intro sh hm
  obtain ⟨lay, hls, rfl⟩ := mem_map.mp hm
  exact (Layout.part_power pk (powers lay hls)).pos

theorem offsetsOf_exact (ov : Overflow) (off al : UInt64) (powers : Powers ls)
    (fits : stop off.toNat (ls.map (Layout.part pk)) +
      maxAlign al.toNat (ls.map (Layout.part pk)) < 2 ^ 64) :
    ∃ offs last lg, offsetsOf ov pk off al ls = some (offs, last, lg) ∧
      offs.map UInt64.toNat = place off.toNat (ls.map (Layout.part pk)) ∧
      last.toNat = stop off.toNat (ls.map (Layout.part pk)) ∧
      lg.toNat = maxAlign al.toNat (ls.map (Layout.part pk)) := by
  induction ls generalizing off al with
  | nil => exact ⟨[], off, al, rfl, rfl, rfl, rfl⟩
  | cons lay ls ih =>
    have power := Layout.part_power pk (powers lay mem_cons_self)
    have oths : Powers ls := (forall_mem_cons.mp powers).2
    rw [map_cons] at fits
    obtain ⟨alignFits, sizeFits⟩ := head_fits (parts_pos pk powers) fits
    rw [offsetsOf, map_cons, place, stop, maxAlign, foldl_cons]
    rw [stop, maxAlign, foldl_cons] at fits
    rw [Layout.part] at power fits alignFits sizeFits ⊢
    generalize (if pk then 1 else lay.align) = fieldAlign at power fits alignFits sizeFits ⊢
    dsimp only at power fits alignFits sizeFits ⊢
    -- the field
    obtain ⟨first, hpl, firstExact⟩ := ov.exists_alignUp power alignFits
    obtain ⟨_, added, nextExact⟩ := exists_checkedAdd
      (show first.toNat + lay.size.toNat < 2 ^ 64 from firstExact ▸ sizeFits)
    -- the fields behind it
    rw [← toNat_max, ← firstExact, ← nextExact] at fits
    obtain ⟨offs, last, lg, tl, hoffx, hlx, hlgx⟩ := ih _ _ oths fits
    refine ⟨first :: offs, last, lg, ?_, ?_, ?_, ?_⟩
    · simp [hpl, added, tl]
    · rw [map_cons, hoffx, nextExact, firstExact]
    · rw [hlx, nextExact, firstExact]
    · rw [hlgx, toNat_max, maxAlign]

variable {req : Option UInt64} {offs : List UInt64}

/-- Where overflows trap, a result is exact. -/
theorem offsetsOf_traps (powers : Powers ls)
    (hpl : offsetsOf .traps pk off align ls = some (offs, last, largest)) :
    last.toNat = stop off.toNat (ls.map (Layout.part pk)) ∧
      largest.toNat = maxAlign align.toNat (ls.map (Layout.part pk)) := by
  induction ls generalizing off align offs with
  | nil =>
    cases hpl
    exact ⟨rfl, rfl⟩
  | cons lay ls ih =>
    have power := Layout.part_power pk (powers lay mem_cons_self)
    rw [offsetsOf] at hpl
    rw [map_cons, stop, maxAlign, foldl_cons]
    rw [Layout.part] at power ⊢
    generalize (if pk then 1 else lay.align) = fieldAlign at power hpl ⊢
    dsimp only at power ⊢
    simp only [Option.bind_eq_bind, Option.bind_eq_some_iff] at hpl
    obtain ⟨_, hali, _, added, ⟨_, _⟩, hprest, he⟩ := hpl
    cases he
    have hali := eq_ok_of_toOption hali
    have firstExact := alignUp_exact power (Overflow.fits_of_alignUp hali) hali
    have nextExact := (checkedAdd_eq_some.mp added).2
    obtain ⟨hlx, hlgx⟩ := ih (forall_mem_cons.mp powers).2 hprest
    rw [toNat_max] at hlgx
    rw [nextExact, firstExact] at hlx
    exact ⟨hlx, hlgx⟩

variable {shs : List Shape}

theorem power_maxAlign {lo : Nat} (power : Power lo)
    (powers : ∀ sh ∈ shs, Power sh.align) : Power (maxAlign lo shs) := by
  rcases maxAlign_cases lo shs with he | ⟨sh, hm, he⟩
  · rw [he]
    exact power
  · rw [he]
    exact powers sh hm

/-- A requested alignment is a power of two. -/
def RequestsPower (requested : Option UInt64) : Prop :=
  ∀ align, requested = some align → Power align.toNat

theorem power_leastAlign (power : RequestsPower req) : Power (leastAlign req) := by
  cases req with
  | none => exact power_one
  | some al => exact power al rfl

theorem toNat_alignWith (power : RequestsPower req) {lg : UInt64}
    (hex : lg.toNat = maxAlign 1 shs) :
    (alignWith req lg).toNat = maxAlign (leastAlign req) shs := by
  cases req with
  | none => exact hex
  | some al =>
    have hpos : 1 ≤ al.toNat := (power al rfl).pos
    show (max lg al).toNat = maxAlign al.toNat shs
    rw [toNat_max, hex, Nat.max_comm, ← maxAlign_max, Nat.max_eq_left hpos]

theorem powers_parts (pk : Bool) (powers : Powers ls) :
    ∀ sh ∈ ls.map (Layout.part pk), Power sh.align := by
  intro sh hm
  obtain ⟨lay, hls, rfl⟩ := mem_map.mp hm
  exact Layout.part_power pk (powers lay hls)

theorem offsetsOf_result (powers : Powers ls) (power : Power align.toNat)
    (hpl : offsetsOf ov pk off align ls = some (offs, last, largest)) :
    offs.length = ls.length ∧ Power largest.toNat := by
  induction ls generalizing off align offs with
  | nil =>
    cases hpl
    exact ⟨rfl, power⟩
  | cons lay ls ih =>
    simp only [offsetsOf, Option.bind_eq_bind, Option.bind_eq_some_iff] at hpl
    obtain ⟨_, -, _, -, ⟨_, _⟩, hprest, he⟩ := hpl
    cases he
    have fieldPower : Power (if pk then 1 else lay.align).toNat :=
      Layout.part_power pk (powers lay mem_cons_self)
    obtain ⟨len, r⟩ := ih (forall_mem_cons.mp powers).2 (power_toNat_max power fieldPower) hprest
    exact ⟨congrArg (· + 1) len, r⟩

theorem structLayout_result (powers : Powers ls) (power : RequestsPower req)
    (hlo : structLayout ov pk req ls = some (offs, layout)) :
    offs.length = ls.length ∧ Power layout.align.toNat := by
  simp only [structLayout, Option.bind_eq_bind, Option.bind_eq_some_iff] at hlo
  obtain ⟨⟨_, _, _⟩, hpl, _, -, ⟨⟩⟩ := hlo
  obtain ⟨len, largestPower⟩ := offsetsOf_result powers power_toNat_one hpl
  refine ⟨len, ?_⟩
  cases req with
  | none => exact largestPower
  | some al => exact power_toNat_max largestPower (power al rfl)

/-- No sum of a struct layout reaches the limit of machine arithmetic. -/
def StructFits (packed : Bool) (requested : Option UInt64) (shapes : List Shape) : Prop :=
  stop 0 (fieldParts packed shapes) + (structShape packed requested shapes).align < 2 ^ 64

theorem StructFits.fieldsFit (fits : StructFits pk req shs) (power : RequestsPower req) :
    stop 0 (fieldParts pk shs) + maxAlign 1 (fieldParts pk shs) < 2 ^ 64 := by
  have hle := maxAlign_max (leastAlign req) 1 (fieldParts pk shs)
  rw [Nat.max_eq_left (power_leastAlign power).pos] at hle
  rw [StructFits, structShape, enclose] at fits
  dsimp only at fits
  omega

theorem structLayout_exact (ov : Overflow) (powers : Powers ls) (power : RequestsPower req)
    (fits : StructFits pk req (ls.map Layout.shape)) :
    ∃ offs lay, structLayout ov pk req ls = some (offs, lay) ∧
      offs.map UInt64.toNat = place 0 (fieldParts pk (ls.map Layout.shape)) ∧
      lay.shape = structShape pk req (ls.map Layout.shape) := by
  have fieldsFit := fits.fieldsFit power
  rw [StructFits, structShape, enclose, fieldParts_shape] at fits
  rw [structShape, enclose, fieldParts_shape]
  rw [fieldParts_shape] at fieldsFit
  obtain ⟨offs, last, lg, hpl, hoffx, hlx, hlgx⟩ := offsetsOf_exact ov 0 1 powers fieldsFit
  have alignExact := toNat_alignWith power hlgx
  obtain ⟨size, hali, sizeExact⟩ := ov.exists_alignUp
    (alignExact ▸ power_maxAlign (power_leastAlign power) (powers_parts pk powers))
    (show last.toNat + (alignWith req lg).toNat < 2 ^ 64 by
      rw [alignExact, hlx]
      exact fits)
  refine ⟨offs, ⟨size, alignWith req lg⟩, ?_, hoffx, ?_⟩
  · simp [structLayout, hpl, hali]
  · rw [Layout.shape, sizeExact, alignExact, hlx]
    rfl

theorem structFits_of_traps (powers : Powers ls) (power : RequestsPower req)
    (hlo : structLayout .traps pk req ls = some (offs, layout)) :
    StructFits pk req (ls.map Layout.shape) := by
  simp only [structLayout, Option.bind_eq_bind, Option.bind_eq_some_iff] at hlo
  obtain ⟨⟨_, _, _⟩, hpl, _, hali, -⟩ := hlo
  obtain ⟨hlx, hlgx⟩ := offsetsOf_traps powers hpl
  have fits := Overflow.fits_of_alignUp (eq_ok_of_toOption hali)
  rw [toNat_alignWith power hlgx, hlx] at fits
  rw [StructFits, structShape, enclose, fieldParts_shape]
  exact fits

end Struct

/-! ## Enums -/

section Enum

variable {pl : List Layout} {pls : List (List Layout)}

theorem shapes_pos (powers : Powers pl) : ∀ sh ∈ pl.map Layout.shape, 0 < sh.align :=
  parts_pos false powers

/-- Payloads are placed like fields that are not packed. -/
theorem payloadEnd_of_offsetsOf {offs : List UInt64}
    (hpl : offsetsOf ov false off align pl = some (offs, last, largest)) :
    payloadEnd ov off align pl = some (last, largest) := by
  induction pl generalizing off align offs with
  | nil =>
    cases hpl
    rfl
  | cons =>
    simp only [offsetsOf, Option.bind_eq_bind, Option.bind_eq_some_iff] at hpl
    obtain ⟨_, _, _, added, ⟨_, _⟩, _, he⟩ := hpl
    cases he
    obtain ⟨fits, hex⟩ := checkedAdd_eq_some.mp added
    obtain ⟨_, _, sumExact⟩ := ov.exists_add fits
    cases UInt64.toNat_inj.mp (sumExact.trans hex.symm)
    simp_all [payloadEnd]

theorem offsetsOf_of_payloadEnd (hpl : payloadEnd .traps off align pl = some (last, largest)) :
    ∃ offs, offsetsOf .traps false off align pl = some (offs, last, largest) := by
  induction pl generalizing off align with
  | nil =>
    cases hpl
    exact ⟨[], rfl⟩
  | cons lay pl ih =>
    simp only [payloadEnd, Option.bind_eq_bind, Option.bind_eq_some_iff] at hpl
    obtain ⟨first, hali, _, added, hprest⟩ := hpl
    obtain ⟨offs, tl⟩ := ih hprest
    have added := eq_ok_of_toOption added
    have fits := Overflow.fits_of_add added
    have sum := checkedAdd_eq_some.mpr ⟨fits, add_exact fits added⟩
    exact ⟨first :: offs, by simp [offsetsOf, hali, sum, tl]⟩

/-- The shape of the payload of a variant. -/
def payloadShape (payload : List Layout) : Shape :=
  enclose 1 (payload.map Layout.shape)

def PayloadFits (shapes : List Shape) : Prop :=
  stop 0 shapes + maxAlign 1 shapes < 2 ^ 64

theorem payloadLayouts_exact (ov : Overflow) (leastSize la : UInt64)
    (powers : ∀ pl ∈ pls, Powers pl) (fits : ∀ pl ∈ pls, PayloadFits (pl.map Layout.shape)) :
    ∃ ls size al, payloadLayouts ov leastSize la pls = some (ls, size, al) ∧
      ls.map Layout.shape = pls.map payloadShape ∧
      size.toNat = maxSize leastSize.toNat (pls.map payloadShape) ∧
      al.toNat = maxAlign la.toNat (pls.map payloadShape) := by
  induction pls generalizing leastSize la with
  | nil => exact ⟨[], leastSize, la, rfl, rfl, rfl, rfl⟩
  | cons pl pls ih =>
    have first := powers pl mem_cons_self
    have firstFits := fits pl mem_cons_self
    obtain ⟨_, last, lg, hpl, -, hlx, hlgx⟩ := @offsetsOf_exact false pl ov 0 1 first firstFits
    have hpl := payloadEnd_of_offsetsOf hpl
    have power : Power lg.toNat := by
      rw [hlgx]
      exact power_maxAlign power_one (powers_parts false first)
    obtain ⟨size, hali, sizeExact⟩ := ov.exists_alignUp power
      (show last.toNat + lg.toNat < 2 ^ 64 by
        rw [hlx, hlgx]
        exact firstFits)
    have shapeExact : Layout.shape ⟨size, lg⟩ = payloadShape pl := by
      rw [Layout.shape, sizeExact, hlx, hlgx]
      rfl
    obtain ⟨ls, total, al, tl, layoutsExact, totalExact, alignExact⟩ := ih
      (max leastSize size) (max la lg)
      (forall_mem_cons.mp powers).2
      (forall_mem_cons.mp fits).2
    refine ⟨⟨size, lg⟩ :: ls, total, al, ?_, ?_, ?_, ?_⟩
    · simp [payloadLayouts, hpl, hali, tl]
    · rw [map_cons, layoutsExact, shapeExact, map_cons]
    · rw [totalExact, toNat_max, map_cons, ← shapeExact]
      rfl
    · rw [alignExact, toNat_max, map_cons, ← shapeExact]
      rfl

theorem payloadFits_of_traps {leastSize al : UInt64}
    {r : List Layout × UInt64 × UInt64} (powers : ∀ pl ∈ pls, Powers pl)
    (hpl : payloadLayouts .traps leastSize al pls = some r) :
    ∀ pl ∈ pls, PayloadFits (pl.map Layout.shape) := by
  induction pls generalizing leastSize al r with
  | nil => exact forall_mem_nil _
  | cons pl pls ih =>
    simp only [payloadLayouts, Option.bind_eq_bind, Option.bind_eq_some_iff] at hpl
    obtain ⟨⟨_, _⟩, placedFirst, _, hali, _, hprest, -⟩ := hpl
    obtain ⟨_, placedFirst⟩ := offsetsOf_of_payloadEnd placedFirst
    obtain ⟨hlx, hlgx⟩ := offsetsOf_traps (powers pl mem_cons_self) placedFirst
    have fits := Overflow.fits_of_alignUp (eq_ok_of_toOption hali)
    rw [hlx, hlgx] at fits
    exact forall_mem_cons.mpr ⟨fits, ih (forall_mem_cons.mp powers).2 hprest⟩

/-- No sum of an enum layout reaches the limit of machine arithmetic. -/
def EnumFits (tagSize : Nat) (payloads : List (List Shape)) : Prop :=
  payloadStop tagSize payloads + enumAlign tagSize payloads < 2 ^ 64

theorem EnumFits.payloadFits {tagSize : Nat} {pls : List (List Shape)}
    (fits : EnumFits tagSize pls) {pl : List Shape} (hm : pl ∈ pls) :
    PayloadFits pl := by
  have hls := mem_map_of_mem (f := enclose 1) hm
  have room := stop_le_enclose Nat.one_pos pl
  have size := size_le_maxSize 0 hls
  have al : maxAlign 1 pl ≤ payloadAlign pls := align_le_maxAlign 1 hls
  rw [EnumFits, payloadStop, enumAlign] at fits
  rw [PayloadFits]
  omega

theorem enclose_payloads (pls : List (List Layout)) :
    (pls.map (List.map Layout.shape)).map (enclose 1) = pls.map payloadShape := by
  rw [map_map]
  rfl

theorem powers_payloadShape (powers : ∀ pl ∈ pls, Powers pl) :
    ∀ sh ∈ pls.map payloadShape, Power sh.align := by
  intro sh hm
  obtain ⟨pl, hls, rfl⟩ := mem_map.mp hm
  exact power_maxAlign power_one (powers_parts false (powers pl hls))

theorem enumLayout_exact (ov : Overflow) {tagSize : UInt64}
    (powers : ∀ pl ∈ pls, Powers pl) (power : Power tagSize.toNat)
    (fits : EnumFits tagSize.toNat (pls.map (List.map Layout.shape))) :
    ∃ ls po lay, enumLayout ov tagSize pls = some (ls, po, lay) ∧
      po.toNat = payloadStart tagSize.toNat (pls.map (List.map Layout.shape)) ∧
      lay.shape = enumShape tagSize.toNat (pls.map (List.map Layout.shape)) := by
  obtain ⟨ls, size, al, hpl, -, sizeExact, alignExact⟩ :=
    payloadLayouts_exact ov 0 1 powers fun pl hm =>
      fits.payloadFits (mem_map_of_mem hm)
  have alignPower : Power al.toNat :=
    alignExact ▸ power_maxAlign power_one (powers_payloadShape powers)
  rw [EnumFits, payloadStop, enumAlign, payloadStart, payloadAlign, enclose_payloads] at fits
  rw [enumShape, payloadStop, enumAlign, payloadStart, payloadAlign, enclose_payloads]
  rw [show (1 : Nat) = UInt64.toNat 1 from rfl, show (0 : Nat) = UInt64.toNat 0 from rfl,
    ← alignExact, ← sizeExact] at fits ⊢
  have tagFits := le_roundUp tagSize.toNat alignPower.pos
  obtain ⟨po, offsetAligned, offsetExact⟩ := ov.exists_alignUp alignPower
    (show tagSize.toNat + al.toNat < 2 ^ 64 by omega)
  rw [← offsetExact] at fits ⊢
  obtain ⟨_, added, hlx⟩ := ov.exists_add (show po.toNat + size.toNat < 2 ^ 64 by omega)
  rw [← hlx, ← toNat_max] at fits ⊢
  obtain ⟨total, hali, totalExact⟩ := ov.exists_alignUp (power_toNat_max alignPower power) fits
  refine ⟨ls, po, ⟨total, max al tagSize⟩, ?_, rfl, ?_⟩
  · simp [enumLayout, hpl, offsetAligned, added, hali]
  · rw [Layout.shape, totalExact]

theorem enumFits_of_traps {tagSize : UInt64} {r : List Layout × UInt64 × Layout}
    (powers : ∀ pl ∈ pls, Powers pl) (hlo : enumLayout .traps tagSize pls = some r) :
    EnumFits tagSize.toNat (pls.map (List.map Layout.shape)) := by
  simp only [enumLayout, Option.bind_eq_bind, Option.bind_eq_some_iff] at hlo
  obtain ⟨⟨_, _, al⟩, hpl, _, offsetAligned, _, added, _, hali, -⟩ := hlo
  obtain ⟨_, _, _, alsoPlaced, -, sizeExact, alignExact⟩ :=
    payloadLayouts_exact .traps 0 1 powers (payloadFits_of_traps powers hpl)
  rw [hpl] at alsoPlaced
  cases alsoPlaced
  have alignPower : Power al.toNat :=
    alignExact ▸ power_maxAlign power_one (powers_payloadShape powers)
  have offsetAligned := eq_ok_of_toOption offsetAligned
  have added := eq_ok_of_toOption added
  have offsetExact :=
    alignUp_exact alignPower (Overflow.fits_of_alignUp offsetAligned) offsetAligned
  have hlx := add_exact (Overflow.fits_of_add added) added
  have fits := Overflow.fits_of_alignUp (eq_ok_of_toOption hali)
  rw [toNat_max, hlx, offsetExact, alignExact, sizeExact] at fits
  rw [EnumFits, payloadStop, enumAlign, payloadStart, payloadAlign, enclose_payloads]
  exact fits

theorem payloadEnd_power (powers : Powers pl) (power : Power align.toNat)
    (hpl : payloadEnd ov off align pl = some (last, largest)) :
    Power largest.toNat := by
  induction pl generalizing off align with
  | nil =>
    cases hpl
    exact power
  | cons lay pl ih =>
    simp only [payloadEnd, Option.bind_eq_bind, Option.bind_eq_some_iff] at hpl
    obtain ⟨_, -, _, -, hprest⟩ := hpl
    exact ih (forall_mem_cons.mp powers).2 (power_toNat_max power (powers lay mem_cons_self)) hprest

theorem payloadLayouts_result {leastSize la size al : UInt64} {ls : List Layout}
    (powers : ∀ pl ∈ pls, Powers pl) (power : Power la.toNat)
    (hpl : payloadLayouts ov leastSize la pls = some (ls, size, al)) :
    ls.length = pls.length ∧ Power al.toNat := by
  induction pls generalizing leastSize la ls with
  | nil =>
    cases hpl
    exact ⟨rfl, power⟩
  | cons pl pls ih =>
    simp only [payloadLayouts, Option.bind_eq_bind, Option.bind_eq_some_iff] at hpl
    obtain ⟨⟨_, _⟩, placedFirst, _, -, ⟨_, _⟩, hprest, he⟩ := hpl
    cases he
    have first := payloadEnd_power (powers pl mem_cons_self) power_toNat_one placedFirst
    obtain ⟨len, r⟩ := ih (forall_mem_cons.mp powers).2 (power_toNat_max power first) hprest
    exact ⟨congrArg (· + 1) len, r⟩

theorem enumLayout_result {tagSize po : UInt64} {ls : List Layout}
    (powers : ∀ pl ∈ pls, Powers pl) (power : Power tagSize.toNat)
    (hlo : enumLayout ov tagSize pls = some (ls, po, layout)) :
    ls.length = pls.length ∧ Power layout.align.toNat := by
  simp only [enumLayout, Option.bind_eq_bind, Option.bind_eq_some_iff] at hlo
  obtain ⟨⟨_, _, _⟩, hpl, _, -, _, -, _, -, ⟨⟩⟩ := hlo
  obtain ⟨len, alignPower⟩ := payloadLayouts_result powers power_toNat_one hpl
  exact ⟨len, power_toNat_max alignPower power⟩

end Enum

end Ostadix.Ocore
