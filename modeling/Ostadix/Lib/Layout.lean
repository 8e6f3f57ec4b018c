import Mathlib.Data.Nat.Bits
import Mathlib.Tactic.Common

/-! # Layout of aligned parts in sequence

Parts of a given size and alignment are laid out one after the other, each at the next multiple
of its alignment. Everything here is about natural numbers; arithmetic that can overflow is
compared with it where it is used. -/

namespace Ostadix.Lib.Layout

open List Nat

/-- The least multiple of `align` that is not less than `offset`. -/
def roundUp (offset align : Nat) : Nat :=
  (offset + align - 1) / align * align

section RoundUp

variable {al : Nat}

theorem dvd_roundUp (off al : Nat) : al ∣ roundUp off al :=
  Nat.dvd_mul_left al _

theorem le_roundUp (off : Nat) (hpos : 0 < al) : off ≤ roundUp off al := by
  have whole := div_add_mod (off + al - 1) al
  have rest := mod_lt (off + al - 1) hpos
  rw [Nat.mul_comm] at whole
  rw [roundUp]
  omega

theorem roundUp_add_self (off : Nat) (hpos : 0 < al) :
    roundUp (off + al) al = roundUp off al + al := by
  have moved : off + al + al - 1 = off + al - 1 + al := by omega
  rw [roundUp, moved, add_div_right _ hpos, succ_mul, roundUp]

end RoundUp

/-- How much room a part takes and where it may start. -/
structure Shape where
  size : Nat
  align : Nat
deriving DecidableEq

/-- The offsets of the parts, the first at `start` or behind. -/
def place (start : Nat) : List Shape → List Nat
  | [] => []
  | shape :: shapes =>
      roundUp start shape.align :: place (roundUp start shape.align + shape.size) shapes

/-- The end of the last part. -/
def stop (start : Nat) : List Shape → Nat
  | [] => start
  | shape :: shapes => stop (roundUp start shape.align + shape.size) shapes

/-- The largest alignment, at least `least`. -/
def maxAlign (least : Nat) (shapes : List Shape) : Nat :=
  shapes.foldl (fun align shape => max align shape.align) least

/-- The largest size, at least `least`. -/
def maxSize (least : Nat) (shapes : List Shape) : Nat :=
  shapes.foldl (fun size shape => max size shape.size) least

/-- The parts as one part, padded to its own alignment. -/
def enclose (least : Nat) (shapes : List Shape) : Shape :=
  ⟨roundUp (stop 0 shapes) (maxAlign least shapes), maxAlign least shapes⟩

section Maximum

variable {α : Type} (f : α → Nat)

theorem le_foldl_max (least : Nat) (xs : List α) :
    least ≤ xs.foldl (fun most x => max most (f x)) least := by
  induction xs generalizing least with
  | nil => exact Nat.le_refl least
  | cons x xs ih => exact Nat.le_trans (Nat.le_max_left ..) (ih _)

theorem le_foldl_max_of_mem (least : Nat) {x : α} {xs : List α} (hm : x ∈ xs) :
    f x ≤ xs.foldl (fun most x => max most (f x)) least := by
  induction xs generalizing least with
  | nil => cases hm
  | cons first xs ih =>
    rcases mem_cons.mp hm with rfl | later
    · exact Nat.le_trans (Nat.le_max_right ..) (le_foldl_max f _ xs)
    · exact ih _ later

end Maximum

section Place

variable {start : Nat} {shs : List Shape}

theorem length_place (start : Nat) (shs : List Shape) : (place start shs).length = shs.length := by
  induction shs generalizing start with
  | nil => rfl
  | cons shape shs ih => rw [place, length_cons, ih, length_cons]

theorem le_stop (start : Nat) (hpos : ∀ sh ∈ shs, 0 < sh.align) : start ≤ stop start shs := by
  induction shs generalizing start with
  | nil => exact Nat.le_refl start
  | cons sh shs ih =>
    have first : start ≤ roundUp start sh.align := le_roundUp start (hpos sh mem_cons_self)
    have rest : roundUp start sh.align + sh.size ≤ stop _ shs := ih _ (forall_mem_cons.mp hpos).2
    rw [stop]
    omega

/-- A part starts behind `start` at a multiple of its alignment and ends before `stop`. -/
theorem place_bounds (hpos : ∀ shape ∈ shs, 0 < shape.align) {part : Nat × Shape}
    (hm : part ∈ (place start shs).zip shs) :
    start ≤ part.1 ∧ part.1 + part.2.size ≤ stop start shs ∧ part.2.align ∣ part.1 := by
  induction shs generalizing start with
  | nil => cases hm
  | cons shape shs ih =>
    have first : start ≤ roundUp start shape.align := le_roundUp start (hpos shape mem_cons_self)
    have oths : ∀ shape ∈ shs, 0 < shape.align := (forall_mem_cons.mp hpos).2
    rw [place, zip_cons_cons] at hm
    rw [stop]
    rcases mem_cons.mp hm with rfl | hl
    · exact ⟨first, le_stop _ oths, dvd_roundUp start shape.align⟩
    · obtain ⟨_, s, hali⟩ := ih oths hl
      exact ⟨by omega, s, hali⟩

/-- Every part ends before the next one starts. -/
theorem place_disjoint (hpos : ∀ shape ∈ shs, 0 < shape.align) :
    ((place start shs).zip shs).Pairwise fun first x2 =>
      first.1 + first.2.size ≤ x2.1 := by
  induction shs generalizing start with
  | nil => exact .nil
  | cons shape shs ih =>
    have oths : ∀ shape ∈ shs, 0 < shape.align := (forall_mem_cons.mp hpos).2
    rw [place, zip_cons_cons, pairwise_cons]
    exact ⟨fun part hm => (place_bounds oths hm).1, ih oths⟩

theorem least_le_maxAlign (least : Nat) (shs : List Shape) : least ≤ maxAlign least shs :=
  le_foldl_max Shape.align least shs

theorem align_le_maxAlign (least : Nat) {sh : Shape} (hm : sh ∈ shs) :
    sh.align ≤ maxAlign least shs :=
  le_foldl_max_of_mem Shape.align least hm

theorem maxAlign_cases (least : Nat) (shs : List Shape) :
    maxAlign least shs = least ∨ ∃ shape ∈ shs, maxAlign least shs = shape.align := by
  induction shs generalizing least with
  | nil => exact .inl rfl
  | cons shape shs ih =>
    rcases ih (max least shape.align) with he | ⟨o, hm, he⟩
    · rw [maxAlign, foldl_cons]
      rw [maxAlign] at he
      rw [he]
      rcases Nat.le_total least shape.align with larger | hlt
      · exact .inr ⟨shape, mem_cons_self, Nat.max_eq_right larger⟩
      · exact .inl (Nat.max_eq_left hlt)
    · exact .inr ⟨o, mem_cons_of_mem _ hm, he⟩

theorem maxAlign_max (least o : Nat) (shs : List Shape) :
    maxAlign (max least o) shs = max least (maxAlign o shs) := by
  induction shs generalizing o with
  | nil => rfl
  | cons shape shs ih => exact (congrArg (maxAlign · shs) (Nat.max_assoc ..)).trans (ih _)

theorem least_le_maxSize (least : Nat) (shs : List Shape) : least ≤ maxSize least shs :=
  le_foldl_max Shape.size least shs

theorem size_le_maxSize (least : Nat) {sh : Shape} (hm : sh ∈ shs) :
    sh.size ≤ maxSize least shs :=
  le_foldl_max_of_mem Shape.size least hm

theorem stop_le_enclose {least : Nat} (hpos : 0 < least) (shs : List Shape) :
    stop 0 shs ≤ (enclose least shs).size :=
  le_roundUp _ (Nat.lt_of_lt_of_le hpos (least_le_maxAlign least shs))

end Place

/-! ## Below a base -/

/-- How far below the base each part starts, when every part lies below the one before it. -/
def descend (depth : Nat) : List Shape → List Nat
  | [] => []
  | shape :: shapes =>
      roundUp (depth + shape.size) shape.align ::
        descend (roundUp (depth + shape.size) shape.align) shapes

/-- The depth of the last part. -/
def bottom (depth : Nat) : List Shape → Nat
  | [] => depth
  | shape :: shapes => bottom (roundUp (depth + shape.size) shape.align) shapes

/-- Every sum on the way down stays below `limit`. -/
def Descends (limit depth : Nat) : List Shape → Prop
  | [] => True
  | shape :: shapes => depth + shape.size + shape.align < limit ∧
      Descends limit (roundUp (depth + shape.size) shape.align) shapes

section Descend

variable {shs : List Shape}

theorem descend_append (depth : Nat) (shs more : List Shape) :
    descend depth (shs ++ more) = descend depth shs ++ descend (bottom depth shs) more := by
  induction shs generalizing depth with
  | nil => rfl
  | cons sh shs ih => rw [cons_append, descend, ih, descend, bottom, cons_append]

theorem bottom_append (depth : Nat) (shs more : List Shape) :
    bottom depth (shs ++ more) = bottom (bottom depth shs) more := by
  induction shs generalizing depth with
  | nil => rfl
  | cons sh shs ih => exact ih _

theorem le_bottom (depth : Nat) (hpos : ∀ sh ∈ shs, 0 < sh.align) : depth ≤ bottom depth shs := by
  induction shs generalizing depth with
  | nil => exact Nat.le_refl depth
  | cons sh shs ih =>
    have first := le_roundUp (depth + sh.size) (hpos sh mem_cons_self)
    have rest := ih (roundUp (depth + sh.size) sh.align) (forall_mem_cons.mp hpos).2
    rw [bottom]
    omega

/-- A part lies between `depth` and the bottom. -/
theorem descend_bounds {depth : Nat} (hpos : ∀ sh ∈ shs, 0 < sh.align) {part : Nat × Shape}
    (hm : part ∈ (descend depth shs).zip shs) :
    depth + part.2.size ≤ part.1 ∧ part.1 ≤ bottom depth shs := by
  induction shs generalizing depth with
  | nil => cases hm
  | cons sh shs ih =>
    have first := le_roundUp (depth + sh.size) (hpos sh mem_cons_self)
    have others : ∀ sh ∈ shs, 0 < sh.align := (forall_mem_cons.mp hpos).2
    rw [descend, zip_cons_cons] at hm
    rw [bottom]
    rcases mem_cons.mp hm with rfl | later
    · exact ⟨first, le_bottom _ others⟩
    · obtain ⟨_, above⟩ := ih others later
      exact ⟨by omega, above⟩

/-- Every part ends below the one before it. -/
theorem descend_disjoint {depth : Nat} (hpos : ∀ sh ∈ shs, 0 < sh.align) :
    ((descend depth shs).zip shs).Pairwise fun upper lower =>
      upper.1 + lower.2.size ≤ lower.1 := by
  induction shs generalizing depth with
  | nil => exact .nil
  | cons sh shs ih =>
    have others : ∀ sh ∈ shs, 0 < sh.align := (forall_mem_cons.mp hpos).2
    rw [descend, zip_cons_cons, pairwise_cons]
    exact ⟨fun part hm => (descend_bounds others hm).1, ih others⟩

end Descend

end Ostadix.Lib.Layout
