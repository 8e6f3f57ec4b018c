import Ostadix.Ocore.Checked

/-! # Stack frames

The locals and the SSA values of a function have slots below the base of its stack frame: each of
them starts a number of bytes below the base, further down than the ones before it. The cursor is
a machine word and its sums are not checked. -/

namespace Ostadix.Ocore

open Ast Lib Lib.Layout List

structure FrameLayout where
  locals : List UInt64
  values : List UInt64
  size : UInt64
  alignment : UInt64
deriving DecidableEq

/-- The loop over the locals: their offsets, the cursor and the alignment behind them. -/
def frameLocals (overflow : Overflow) (types : TypeContext) :
    UInt64 → UInt64 → List TypeId → CheckResult (List UInt64 × UInt64 × UInt64)
  | cursor, alignment, [] => .ok ([], cursor, alignment)
  | cursor, alignment, ty :: tys => do
      let layout ← unwrap (types.layout ty)
      let sum ← overflow.add cursor (max layout.size 1)
      let cursor ← overflow.alignUp sum (max layout.align 1)
      let (locals, rest) ← frameLocals overflow types cursor (max alignment layout.align) tys
      return (cursor :: locals, rest)

/-- The loop over the SSA values, which looks at no type. -/
def frameValues (overflow : Overflow) : UInt64 → List TypeId → CheckResult (List UInt64 × UInt64)
  | cursor, [] => .ok ([], cursor)
  | cursor, _ :: tys => do
      let cursor ← overflow.alignUp cursor 8
      let cursor ← overflow.add cursor 8
      let (values, rest) ← frameValues overflow cursor tys
      return (cursor :: values, rest)

def FrameLayout.new (overflow : Overflow) (types : TypeContext) (function : MirFunction) :
    CheckResult FrameLayout := do
  let (locals, cursor, alignment) ← frameLocals overflow types 0 16 function.localTypes
  let (values, cursor) ← frameValues overflow cursor function.values
  let size ← overflow.alignUp cursor 16
  return { locals, values, size, alignment }

/-! ## Slots -/

/-- The slot of a local. -/
def TypeContext.localSlot (types : TypeContext) (ty : TypeId) : Shape :=
  (types.layout ty).elim ⟨1, 1⟩ fun layout =>
    ⟨(max layout.size 1).toNat, (max layout.align 1).toNat⟩

/-- The slot of a value is one machine word. -/
def valueSlot (_ : TypeId) : Shape :=
  ⟨8, 8⟩

def MirFunction.slots (types : TypeContext) (function : MirFunction) : List Shape :=
  function.localTypes.map types.localSlot ++ function.values.map valueSlot

def FrameLayout.offsets (frame : FrameLayout) : List Nat :=
  (frame.locals ++ frame.values).map UInt64.toNat

/-- An offset at which a type may lie, the base being aligned. -/
def TypeContext.AlignedAt (types : TypeContext) (offset : Nat) (ty : TypeId) : Prop :=
  ∀ layout, types.layout ty = some layout → layout.align.toNat ∣ offset

/-- The slots are disjoint, aligned and inside the frame. A slot of `size` bytes at `offset` takes
the bytes from `offset` below the base upwards. -/
structure FrameLayout.Sound (types : TypeContext) (function : MirFunction) (frame : FrameLayout) :
    Prop where
  locals : Forall₂ types.AlignedAt (frame.locals.map UInt64.toNat) function.localTypes
  values : Forall₂ types.AlignedAt (frame.values.map UInt64.toNat) function.values
  inside : ∀ slot ∈ frame.offsets.zip (function.slots types),
    slot.2.size ≤ slot.1 ∧ slot.1 ≤ frame.size.toNat
  disjoint : (frame.offsets.zip (function.slots types)).Pairwise fun slot other =>
    slot.1 + other.2.size ≤ other.1 ∨ other.1 + slot.2.size ≤ slot.1

/-- Over unbounded numbers all sums stay below the limit of machine arithmetic. -/
structure MirFunction.FrameBounded (types : TypeContext) (function : MirFunction) : Prop where
  laidOut : ∀ ty ∈ function.localTypes, ∃ layout, types.layout ty = some layout
  locals : Descends (2 ^ 64) 0 (function.localTypes.map types.localSlot)
  size : bottom 0 (function.slots types) + 16 < 2 ^ 64

/-- Besides, every value comes to lie at a multiple of the alignment of its type. -/
structure MirFunction.FrameFits (types : TypeContext) (function : MirFunction) : Prop
    extends FrameBounded types function where
  values : Forall₂ types.AlignedAt
    (descend (bottom 0 (function.localTypes.map types.localSlot)) (function.values.map valueSlot))
    function.values

/-- The offsets and the cursor behind them are the exact ones. -/
structure Placed (slots : List Shape) (cursor : UInt64) (offsets : List UInt64) (rest : UInt64) :
    Prop where
  offsets : offsets.map UInt64.toNat = descend cursor.toNat slots
  rest : rest.toNat = bottom cursor.toNat slots

structure FrameLayout.Exact (types : TypeContext) (function : MirFunction) (frame : FrameLayout) :
    Prop where
  locals : frame.locals.map UInt64.toNat = descend 0 (function.localTypes.map types.localSlot)
  values : frame.values.map UInt64.toNat =
    descend (bottom 0 (function.localTypes.map types.localSlot)) (function.values.map valueSlot)
  size : frame.size.toNat = roundUp (bottom 0 (function.slots types)) 16

section Frame

variable {types : TypeContext} {tys : List TypeId} {cursor alignment : UInt64}
  {fn : MirFunction}

theorem Placed.cons {slot : Shape} {slots : List Shape} {next rest : UInt64} {offs : List UInt64}
    (exact_ : next.toNat = roundUp (cursor.toNat + slot.size) slot.align)
    (placed : Placed slots next offs rest) : Placed (slot :: slots) cursor (next :: offs) rest where
  offsets := by rw [map_cons, placed.offsets, exact_, descend]
  rest := by rw [placed.rest, exact_, bottom]

theorem TypeContext.localSlot_eq {ty : TypeId} {lay : Layout} (found : types.layout ty = some lay) :
    types.localSlot ty = ⟨(max lay.size 1).toNat, (max lay.align 1).toNat⟩ := by
  rw [localSlot, found]
  rfl

theorem TypeContext.localSlot_pos (types : TypeContext) (ty : TypeId) :
    0 < (types.localSlot ty).align := by
  cases found : types.layout ty with
  | none => simp [localSlot, found]
  | some lay =>
    rw [localSlot_eq found]
    exact Nat.lt_of_lt_of_le Nat.one_pos (toNat_max lay.align 1 ▸ Nat.le_max_right _ _)

theorem MirFunction.slots_pos : ∀ slot ∈ fn.slots types, 0 < slot.align := by
  intro slot member
  rcases mem_append.mp member with isLocal | isValue
  · obtain ⟨ty, -, rfl⟩ := mem_map.mp isLocal
    exact types.localSlot_pos ty
  · obtain ⟨ty, -, rfl⟩ := mem_map.mp isValue
    exact Nat.zero_lt_succ 7

/-! ## The values -/

theorem power_eight : Power (UInt64.toNat 8) :=
  ⟨3, by decide, rfl⟩

theorem power_sixteen : Power (UInt64.toNat 16) :=
  ⟨4, by decide, rfl⟩

theorem exists_frameValues (ov : Overflow)
    (fits : bottom cursor.toNat (tys.map valueSlot) < 2 ^ 64) :
    ∃ values rest, frameValues ov cursor tys = .ok (values, rest) ∧
      Placed (tys.map valueSlot) cursor values rest := by
  induction tys generalizing cursor with
  | nil => exact ⟨[], cursor, rfl, rfl, rfl⟩
  | cons ty tys ih =>
    rw [map_cons, bottom] at fits
    -- the code rounds the cursor before it adds the word
    have moved : roundUp (cursor.toNat + 8) 8 = roundUp cursor.toNat 8 + 8 :=
      roundUp_add_self _ (Nat.zero_lt_succ 7)
    have above : cursor.toNat ≤ roundUp cursor.toNat 8 := le_roundUp _ (Nat.zero_lt_succ 7)
    have below : roundUp (cursor.toNat + 8) 8 ≤ bottom _ (tys.map valueSlot) :=
      le_bottom _ (by simp [valueSlot])
    have wordFits : roundUp cursor.toNat 8 + 8 < 2 ^ 64 := moved ▸ Nat.lt_of_le_of_lt below fits
    obtain ⟨start, aligned, startExact⟩ := ov.exists_alignUp power_eight
      (show cursor.toNat + 8 < 2 ^ 64 by omega)
    obtain ⟨next, added, nextExact⟩ := ov.exists_add
      (show start.toNat + UInt64.toNat 8 < 2 ^ 64 from startExact ▸ wordFits)
    rw [startExact] at nextExact
    have exact_ := nextExact.trans moved.symm
    obtain ⟨values, rest, ran, placed⟩ := ih (by rw [exact_]; exact fits)
    exact ⟨next :: values, rest, by simp [frameValues, aligned, added, ran], .cons exact_ placed⟩

/-- Where overflows trap, the cursor is exact in the end. -/
theorem frameValues_traps {values : List UInt64} {rest : UInt64}
    (ran : frameValues .traps cursor tys = .ok (values, rest)) :
    rest.toNat = bottom cursor.toNat (tys.map valueSlot) := by
  induction tys generalizing cursor values with
  | nil =>
    cases ran
    rfl
  | cons ty tys ih =>
    obtain ⟨_, aligned, ran⟩ := bind_eq_ok.mp ran
    obtain ⟨_, added, ran⟩ := bind_eq_ok.mp ran
    obtain ⟨⟨_, _⟩, ran, ⟨⟩⟩ := bind_eq_ok.mp ran
    have startExact := alignUp_exact power_eight (Overflow.fits_of_alignUp aligned) aligned
    have nextExact := add_exact (Overflow.fits_of_add added) added
    rw [ih ran, nextExact, startExact]
    exact congrArg (bottom · _) (roundUp_add_self cursor.toNat (Nat.zero_lt_succ 7)).symm

/-- The slot of a value lies well for every type that is aligned to a machine word or less. -/
theorem descend_valueSlots (depth : Nat) (words : ∀ ty ∈ tys, types.AlignedAt 8 ty) :
    Forall₂ types.AlignedAt (descend depth (tys.map valueSlot)) tys := by
  induction tys generalizing depth with
  | nil => exact .nil
  | cons ty tys ih =>
    obtain ⟨word, words⟩ := forall_mem_cons.mp words
    exact .cons (fun lay found => Nat.dvd_trans (word lay found) (dvd_roundUp _ 8)) (ih _ words)

/-! ## The locals -/

section Locals

-- what the type checker guarantees
variable (powers : ∀ {ty lay}, types.layout ty = some lay → Power lay.align.toNat)

include powers

theorem exists_frameLocals (ov : Overflow) (laidOut : ∀ ty ∈ tys, ∃ lay, types.layout ty = some lay)
    (fits : Descends (2 ^ 64) cursor.toNat (tys.map types.localSlot)) :
    ∃ locals rest most, frameLocals ov types cursor alignment tys = .ok (locals, rest, most) ∧
      Placed (tys.map types.localSlot) cursor locals rest := by
  induction tys generalizing cursor alignment with
  | nil => exact ⟨[], cursor, alignment, rfl, rfl, rfl⟩
  | cons ty tys ih =>
    obtain ⟨lay, found⟩ := laidOut ty mem_cons_self
    have power := power_toNat_max (powers found) power_toNat_one
    rw [map_cons, TypeContext.localSlot_eq found] at fits ⊢
    obtain ⟨alignFits, fits⟩ := fits
    obtain ⟨_, added, sumExact⟩ := ov.exists_add (Nat.lt_of_add_right_lt alignFits)
    obtain ⟨next, aligned, nextExact⟩ := ov.exists_alignUp power (sumExact ▸ alignFits)
    rw [sumExact] at nextExact
    obtain ⟨locals, rest, most, ran, placed⟩ := ih (forall_mem_cons.mp laidOut).2 (nextExact ▸ fits)
    refine ⟨next :: locals, rest, most, ?_, .cons nextExact placed⟩
    simp only [frameLocals, found, unwrap, added, aligned, bind, Except.bind]
    rw [ran]
    rfl

/-- Where overflows trap, a result shows that no sum was too large. -/
theorem descends_of_frameLocals {result : List UInt64 × UInt64 × UInt64}
    (ran : frameLocals .traps types cursor alignment tys = .ok result) :
    (∀ ty ∈ tys, ∃ lay, types.layout ty = some lay) ∧
      Descends (2 ^ 64) cursor.toNat (tys.map types.localSlot) := by
  induction tys generalizing cursor alignment result with
  | nil => exact ⟨forall_mem_nil _, trivial⟩
  | cons ty tys ih =>
    obtain ⟨lay, unwrapped, ran⟩ := bind_eq_ok.mp ran
    obtain ⟨_, added, ran⟩ := bind_eq_ok.mp ran
    obtain ⟨_, aligned, ran⟩ := bind_eq_ok.mp ran
    obtain ⟨_, ran, -⟩ := bind_eq_ok.mp ran
    have found := unwrap_eq_ok.mp unwrapped
    have power := power_toNat_max (powers found) power_toNat_one
    have alignFits := Overflow.fits_of_alignUp aligned
    have nextExact := alignUp_exact power alignFits aligned
    rw [add_exact (Overflow.fits_of_add added) added] at alignFits nextExact
    obtain ⟨laidOut, fits⟩ := ih ran
    rw [map_cons, TypeContext.localSlot_eq found]
    exact ⟨forall_mem_cons.mpr ⟨⟨lay, found⟩, laidOut⟩, alignFits, nextExact ▸ fits⟩

theorem descend_localSlots (depth : Nat) (tys : List TypeId) :
    Forall₂ types.AlignedAt (descend depth (tys.map types.localSlot)) tys := by
  induction tys generalizing depth with
  | nil => exact .nil
  | cons ty tys ih =>
    refine .cons (fun lay found => ?_) (ih _)
    have least : (max lay.align 1).toNat = lay.align.toNat :=
      (toNat_max lay.align 1).trans (Nat.max_eq_left (powers found).pos)
    rw [TypeContext.localSlot_eq found, least]
    exact dvd_roundUp _ _

/-! ## The frame -/

theorem exists_frameLayout (ov : Overflow) (bounded : fn.FrameBounded types) :
    ∃ frame, FrameLayout.new ov types fn = .ok frame ∧ frame.Exact types fn := by
  have sizeFits := bounded.size
  rw [MirFunction.slots, bottom_append] at sizeFits
  obtain ⟨locals, cursor, alignment, localsRan, localsPlaced⟩ :=
    exists_frameLocals powers ov bounded.laidOut
      (show Descends _ (UInt64.toNat 0) _ from bounded.locals)
  have cursorExact : cursor.toNat = bottom 0 _ := localsPlaced.rest
  rw [← cursorExact] at sizeFits
  obtain ⟨values, rest, valuesRan, valuesPlaced⟩ :=
    exists_frameValues ov (Nat.lt_of_add_right_lt sizeFits)
  obtain ⟨size, sizeRan, sizeExact⟩ := ov.exists_alignUp power_sixteen
    (show rest.toNat + 16 < 2 ^ 64 from valuesPlaced.rest ▸ sizeFits)
  refine ⟨⟨locals, values, size, alignment⟩, ?_, localsPlaced.offsets,
    cursorExact ▸ valuesPlaced.offsets, ?_⟩
  · rw [FrameLayout.new, localsRan]
    simp only [bind, Except.bind, valuesRan, sizeRan]
    rfl
  · rw [MirFunction.slots, bottom_append, ← cursorExact, ← valuesPlaced.rest]
    exact sizeExact

theorem bounded_of_frameLayout {frame : FrameLayout}
    (ran : FrameLayout.new .traps types fn = .ok frame) : fn.FrameBounded types := by
  obtain ⟨⟨_, _, _⟩, localsRan, ran⟩ := bind_eq_ok.mp ran
  obtain ⟨⟨_, rest⟩, valuesRan, ran⟩ := bind_eq_ok.mp ran
  obtain ⟨_, sizeRan, -⟩ := bind_eq_ok.mp ran
  obtain ⟨laidOut, fits⟩ := descends_of_frameLocals powers localsRan
  obtain ⟨_, _, _, again, placed⟩ := exists_frameLocals powers .traps laidOut fits
  cases localsRan.symm.trans again
  have sizeFits := Overflow.fits_of_alignUp sizeRan
  rw [frameValues_traps valuesRan, placed.rest] at sizeFits
  refine ⟨laidOut, fits, ?_⟩
  rw [MirFunction.slots, bottom_append]
  exact sizeFits

theorem FrameLayout.Exact.sound {frame : FrameLayout} (exact_ : frame.Exact types fn)
    (fits : fn.FrameFits types) : frame.Sound types fn := by
  have offsets : frame.offsets = descend 0 (fn.slots types) := by
    rw [FrameLayout.offsets, map_append, exact_.locals, exact_.values, MirFunction.slots,
      descend_append]
  have deep : bottom 0 (fn.slots types) ≤ frame.size.toNat :=
    exact_.size ▸ le_roundUp _ (Nat.zero_lt_succ 15)
  refine ⟨exact_.locals ▸ descend_localSlots powers 0 _, exact_.values ▸ fits.values,
    fun slot member => ?_, ?_⟩
  · rw [offsets] at member
    obtain ⟨below, above⟩ := descend_bounds MirFunction.slots_pos member
    exact ⟨Nat.zero_add slot.2.size ▸ below, Nat.le_trans above deep⟩
  · rw [offsets]
    exact (descend_disjoint MirFunction.slots_pos).imp Or.inl

end Locals

end Frame

/-! ## Accepted programs -/

section Checked

variable {overflow : Overflow} {order : HashOrder} {modules : List (String × SourceModule)}
  {program : ProgramTables}

theorem power_of_layout (accepted : check overflow order modules = .ok program) {ty : TypeId}
    {layout : Layout} (found : program.types.context.layout ty = some layout) :
    Power layout.align.toNat := by
  obtain ⟨_, declared, -, valid, extended, -⟩ := check_ok accepted
  obtain ⟨-, _, _, _, -, beforeValid, laid, laidExtends⟩ := declare_ok declared
  obtain ⟨_, finished, rfl⟩ := computeLayouts_finished beforeValid.program.types laid
  have later := finished.extend (laidExtends.trans extended)
  exact later.known_power (later.known_layoutWithin (later.same.symm.wellFormed valid.types) found)

/-- In an accepted program the frame of a function is sound, whether overflows wrap or trap,
exactly if its exact layout fits and puts every value at a multiple of its alignment. -/
theorem frame_sound_iff_fits (accepted : check overflow order modules = .ok program)
    (function : MirFunction) :
    (∀ mode, ∃ frame, FrameLayout.new mode program.hir.types function = .ok frame ∧
      frame.Sound program.hir.types function) ↔ function.FrameFits program.hir.types := by
  constructor
  · intro sound
    obtain ⟨frame, ran, sound⟩ := sound .traps
    have bounded := bounded_of_frameLayout (power_of_layout accepted) ran
    obtain ⟨_, again, exact_⟩ := exists_frameLayout (power_of_layout accepted) .traps bounded
    cases ran.symm.trans again
    exact ⟨bounded, exact_.values ▸ sound.values⟩
  · intro fits mode
    obtain ⟨frame, ran, exact_⟩ :=
      exists_frameLayout (power_of_layout accepted) mode fits.toFrameBounded
    exact ⟨frame, ran, exact_.sound (power_of_layout accepted) fits⟩

end Checked

def readPointer : Expr :=
  .mk (.unary .deref (.mk (.path ["p"]) .default)) .default

/-- `unsafe fn twice(p: *[u8; 2^63]) -> void { let a = *p; let b = *p; }` -/
def wrappingFrame : List Item :=
  [⟨[], .function ⟨"twice", true, .oCore, [⟨"p", .mk (.pointer false
      (.mk (.array (.mk (.named ["u8"]) .default) 9223372036854775808) .default)) .default, .default⟩],
    .mk (.named ["void"]) .default,
    some (.mk [.mk (.let false "a" none readPointer) .default,
      .mk (.let false "b" none readPointer) .default] .default)⟩, .default⟩]

def twiceLowered : MirFunction where
  source := 0
  localTypes := [16, 15, 15]
  values := [16, 16]
  blocks := [⟨[
    .load 0 ⟨.local 0, [], 16⟩ false,
    .copy ⟨.local 1, [], 15⟩ ⟨.pointer 0, [], 15⟩ 9223372036854775808,
    .load 1 ⟨.local 0, [], 16⟩ false,
    .copy ⟨.local 2, [], 15⟩ ⟨.pointer 1, [], 15⟩ 9223372036854775808], .return none⟩]
  entry := 0

/-- The cursor wraps around: the frame has 32 bytes, and the slot of `b` starts where that of `p`
does; where overflows trap, the compiler panics. -/
theorem wrappingFrame_unsound :
    ∃ program, check .wraps .declared (sampleModule wrappingFrame) = .ok program ∧
      lower program.hir = .ok ⟨[twiceLowered], []⟩ ∧
      (∃ frame, FrameLayout.new .wraps program.hir.types twiceLowered = .ok frame ∧
        frame.locals = [8, 9223372036854775816, 8] ∧ frame.size = 32 ∧
        ¬frame.Sound program.hir.types twiceLowered) ∧
      FrameLayout.new .traps program.hir.types twiceLowered = .error .panic := by
  refine ⟨_, rfl, ?_, ⟨⟨[8, 9223372036854775816, 8], [16, 24], 32, 16⟩, ?_, rfl, rfl,
    fun sound => ?_⟩, ?_⟩
  · decide +kernel
  · decide +kernel
  · have inside := (sound.inside _ (.tail _ (.head _))).2
    exact absurd inside (by decide)
  · decide +kernel

/-- The frame of a function with one local, the pointer, and one value, what is read from it. -/
theorem pointerFrame_sound :
    ∃ program, check .wraps .declared (sampleModule wrappingFrame) = .ok program ∧
      ∀ mode, ∃ frame, FrameLayout.new mode program.hir.types ⟨0, [16], [16], [], 0⟩ = .ok frame ∧
        frame.Sound program.hir.types ⟨0, [16], [16], [], 0⟩ := by
  have accepted : check .wraps .declared (sampleModule wrappingFrame) = .ok _ := rfl
  refine ⟨_, accepted, (frame_sound_iff_fits accepted _).mpr ⟨⟨?_, ?_, ?_⟩, ?_⟩⟩
  · exact forall_mem_cons.mpr ⟨⟨_, rfl⟩, forall_mem_nil _⟩
  · exact ⟨by decide +kernel, trivial⟩
  · decide +kernel
  · refine descend_valueSlots _ (forall_mem_cons.mpr ⟨?_, forall_mem_nil _⟩)
    rintro layout ⟨⟩
    exact Nat.dvd_refl 8

end Ostadix.Ocore
