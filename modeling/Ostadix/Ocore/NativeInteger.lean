import Mathlib.Data.Nat.Bitwise
import Ostadix.Lib.Except

/-! # Integers of the reference interpreter

Values of a width are natural numbers below `2 ^ width`, and a signed operation decodes its operands
to integers and encodes the result. -/

namespace Ostadix.Ocore.Native

open Lib Nat

/-! ## Operations -/

def mask (width : Nat) : Nat :=
  1 <<< width - 1

def signed (bits width : Nat) : Int :=
  if bits.testBit (width - 1) then (bits : Int) - (1 <<< width : Nat) else bits

def encodeSigned (value : Int) (width : Nat) : Nat :=
  let modulus := 1 <<< width
  let magnitude := value.natAbs % modulus
  if value < 0 ∧ magnitude ≠ 0 then modulus - magnitude else magnitude

inductive BinaryOp where
  | add | sub | mul | udiv | sdiv | urem | srem | shl | lshr | ashr | and | or | xor
deriving DecidableEq

def BinaryOp.debug : BinaryOp → String
  | .add => "Add"
  | .sub => "Sub"
  | .mul => "Mul"
  | .udiv => "UDiv"
  | .sdiv => "SDiv"
  | .urem => "URem"
  | .srem => "SRem"
  | .shl => "Shl"
  | .lshr => "LShr"
  | .ashr => "AShr"
  | .and => "And"
  | .or => "Or"
  | .xor => "Xor"

def minimum (width : Nat) : Int :=
  -(1 <<< (width - 1) : Nat)

/-- A count that is not below the width is masked. -/
def shiftCount (width rhs : Nat) : Nat :=
  if rhs < width then rhs else rhs &&& (width - 1)

def signedDivision (width lhs rhs : Nat) (divide : Int → Int → Int) (overflowed : Nat) : Option Nat :=
  let lhs := signed lhs width
  let rhs := signed rhs width
  if rhs = 0 then none
  else if lhs = minimum width ∧ rhs = -1 then some overflowed
  else some (encodeSigned (divide lhs rhs) width)

/-- One operation before its result is masked, or `none` when it traps. -/
def unmasked (width lhs rhs : Nat) : BinaryOp → Option Nat
  | .add => some (lhs + rhs)
  | .sub => some (lhs + 1 <<< width - rhs)
  | .mul => some (lhs * rhs)
  | .and => some (lhs &&& rhs)
  | .or => some (lhs ||| rhs)
  | .xor => some (lhs ^^^ rhs)
  | .udiv => if rhs = 0 then none else some (lhs / rhs)
  | .urem => if rhs = 0 then none else some (lhs % rhs)
  | .sdiv => signedDivision width lhs rhs .tdiv (encodeSigned (minimum width) width)
  | .srem => signedDivision width lhs rhs .tmod 0
  | .shl => some (lhs <<< shiftCount width rhs)
  | .lshr => some (lhs >>> shiftCount width rhs)
  | .ashr => some (encodeSigned (signed lhs width >>> shiftCount width rhs) width)

def binary (kind : BinaryOp) (width lhs rhs : Nat) : Option Nat :=
  (unmasked width lhs rhs kind).map (· &&& mask width)

inductive IntPredicate where
  | eq | ne | ugt | uge | ult | ule | sgt | sge | slt | sle
deriving DecidableEq

def compare (predicate : IntPredicate) (width lhs rhs : Nat) : Bool :=
  let unsigned := Ord.compare lhs rhs
  let signed := match lhs.testBit (width - 1), rhs.testBit (width - 1) with
    | true, false => Ordering.lt
    | false, true => Ordering.gt
    | _, _ => unsigned
  match predicate with
  | .eq => unsigned.isEq
  | .ne => !unsigned.isEq
  | .ugt => unsigned.isGT
  | .uge => !unsigned.isLT
  | .ult => unsigned.isLT
  | .ule => !unsigned.isGT
  | .sgt => signed.isGT
  | .sge => !signed.isLT
  | .slt => signed.isLT
  | .sle => !signed.isGT

/-- The order that a predicate asks for. -/
def IntPredicate.Holds (width lhs rhs : Nat) : IntPredicate → Prop
  | .eq => lhs = rhs
  | .ne => lhs ≠ rhs
  | .ugt => rhs < lhs
  | .uge => rhs ≤ lhs
  | .ult => lhs < rhs
  | .ule => lhs ≤ rhs
  | .sgt => signed rhs width < signed lhs width
  | .sge => signed rhs width ≤ signed lhs width
  | .slt => signed lhs width < signed rhs width
  | .sle => signed lhs width ≤ signed rhs width

inductive CastOp where
  | trunc | zext | sext | ptrToInt | intToPtr | bitcast
deriving DecidableEq

inductive IntegerMinMaxKind where
  | smin | smax | umin | umax

def IntegerMinMaxKind.predicate : IntegerMinMaxKind → IntPredicate
  | .smin => .slt
  | .smax => .sgt
  | .umin => .ult
  | .umax => .ugt

/-- The instructions that are evaluated in place. -/
inductive Operation (Operand : Type) where
  | binary (kind : BinaryOp) (lhs rhs : Operand)
  | integerMinMax (kind : IntegerMinMaxKind) (lhs rhs : Operand)
  | icmp (predicate : IntPredicate) (lhs rhs : Operand)
  | cast (kind : CastOp) (value : Operand)
  | select (condition onTrue onFalse : Operand)
  | freeze (value : Operand)

section Instruction

/- `operand` and `scalarOperand` read the value and the width of an operand in the frame. -/
variable {Operand : Type} (operand scalarOperand : Operand → Except String Nat) (width : Nat)

def instructionValue : Operation Operand → Except String Nat
  | .binary kind lhs rhs => do
      okOr (binary kind width (← operand lhs) (← operand rhs))
        s!"native reference interpreter: integer {kind.debug} by zero trapped"
  | .integerMinMax kind lhs rhs => do
      let lhs ← operand lhs
      let rhs ← operand rhs
      return if compare kind.predicate width lhs rhs then lhs else rhs
  | .icmp predicate lhs rhs => do
      let operandWidth ← scalarOperand lhs
      return (compare predicate operandWidth (← operand lhs) (← operand rhs)).toNat
  | .cast kind value => do
      let bits ← operand value
      if kind = .sext then return encodeSigned (signed bits (← scalarOperand value)) width
      else return bits
  | .select condition onTrue onFalse => do
      operand (if (← operand condition) = 0 then onFalse else onTrue)
  | .freeze value => operand value

/-- `width` is the width of the result. -/
def instruction (operation : Operation Operand) : Except String Nat := do
  return (← instructionValue operand scalarOperand width operation) &&& mask width

end Instruction

/-! ## Decoding and encoding -/

theorem mask_eq (w : Nat) : mask w = 2 ^ w - 1 := by
  rw [mask, one_shiftLeft]

theorem and_mask (v w : Nat) : v &&& mask w = v % 2 ^ w := by
  rw [mask_eq, and_two_pow_sub_one_eq_mod]

section Width

variable {w bits lhs rhs : Nat} (hpos : 0 < w)
include hpos

theorem two_pow_pred : 2 ^ w = 2 * 2 ^ (w - 1) := by
  rw [← Nat.pow_succ', Nat.succ_eq_add_one, Nat.sub_add_cancel hpos]

theorem testBit_iff (fits : bits < 2 ^ w) : bits.testBit (w - 1) = true ↔ 2 ^ (w - 1) ≤ bits := by
  rw [two_pow_pred hpos] at fits
  rw [testBit_eq_decide_div_mod_eq, decide_eq_true_iff]
  have half := Nat.div_lt_of_lt_mul (by omega : bits < 2 ^ (w - 1) * 2)
  rw [mod_eq_of_lt half]
  constructor
  · intro one
    by_contra small
    rw [div_eq_of_lt (by omega)] at one
    cases one
  · intro large
    have := div_pos large (Nat.two_pow_pos _)
    omega

theorem signed_eq (fits : bits < 2 ^ w) : signed bits w =
      if 2 ^ (w - 1) ≤ bits then (bits : Int) - (2 ^ w : Nat) else bits := by
  simp only [signed, testBit_iff hpos fits, one_shiftLeft]

theorem signed_bounds (fits : bits < 2 ^ w) :
    -(2 ^ (w - 1) : Nat) ≤ signed bits w ∧ signed bits w < (2 ^ (w - 1) : Nat) := by
  rw [signed_eq hpos fits]
  rw [two_pow_pred hpos] at fits ⊢
  split <;> omega

end Width

theorem minimum_eq (w : Nat) : minimum w = -(2 ^ (w - 1) : Nat) := by
  rw [minimum, one_shiftLeft]

theorem encodeSigned_eq (v : Int) (w : Nat) : (encodeSigned v w : Int) = v % (2 ^ w : Nat) := by
  have hnz : ((2 ^ w : Nat) : Int) ≠ 0 := Int.natCast_ne_zero.mpr (Nat.two_pow_pos _).ne'
  have divides : ((2 ^ w : Nat) : Int) ∣ v ↔ v.natAbs % 2 ^ w = 0 := by
    rw [Int.ofNat_dvd_left, dvd_iff_mod_eq_zero]
  rw [← Int.natAbs_of_nonneg (Int.emod_nonneg v hnz), Int.natAbs_emod v hnz]
  simp only [encodeSigned, one_shiftLeft, divides, Int.natAbs_natCast, ne_eq]
  by_cases negative : v < 0
  · by_cases zero : v.natAbs % 2 ^ w = 0 <;>
      simp [negative, zero, Int.not_le.mpr negative]
  · simp [negative, Int.not_lt.mp negative]

theorem encodeSigned_lt (v : Int) (w : Nat) : encodeSigned v w < 2 ^ w := by
  have hb := Int.emod_lt_of_pos v (Int.natCast_pos.mpr (Nat.two_pow_pos w))
  rw [← encodeSigned_eq] at hb
  exact Int.ofNat_lt.mp hb

theorem mod_encodeSigned (v : Int) (w : Nat) : encodeSigned v w &&& mask w = encodeSigned v w := by
  rw [and_mask, mod_eq_of_lt (encodeSigned_lt v w)]

theorem signed_encodeSigned {w : Nat} (hpos : 0 < w) {v : Int}
    (low : -(2 ^ (w - 1) : Nat) ≤ v) (high : v < (2 ^ (w - 1) : Nat)) :
    signed (encodeSigned v w) w = v := by
  have enc := encodeSigned_eq v w
  have double := two_pow_pred hpos
  rw [signed_eq hpos (encodeSigned_lt v w)]
  by_cases negative : v < 0
  · rw [← Int.add_emod_right, Int.emod_eq_of_lt (by omega) (by omega)] at enc
    rw [if_pos (by omega)]
    omega
  · rw [Int.emod_eq_of_lt (by omega) (by omega)] at enc
    rw [if_neg (by omega)]
    exact enc

/-! ## Results -/

section Results

variable {w lhs rhs : Nat} (hpos : 0 < w) (left : lhs < 2 ^ w)
  (right : rhs < 2 ^ w)

include hpos in
theorem shiftCount_lt : shiftCount w rhs < w := by
  rw [shiftCount]
  split
  · assumption
  · have := and_le_right (n := rhs) (m := w - 1)
    omega

include hpos right in
theorem signed_eq_zero_iff : signed rhs w = 0 ↔ rhs = 0 := by
  rw [signed_eq hpos right]
  have := Nat.two_pow_pos (w - 1)
  split <;> omega

include hpos left in
theorem tdiv_bounds (hnz : signed rhs w ≠ 0)
    (fits : ¬(signed lhs w = minimum w ∧ signed rhs w = -1)) :
    -(2 ^ (w - 1) : Nat) ≤ (signed lhs w).tdiv (signed rhs w) ∧
      (signed lhs w).tdiv (signed rhs w) < (2 ^ (w - 1) : Nat) := by
  have bounds := signed_bounds hpos left
  rw [minimum_eq] at fits
  generalize signed lhs w = dividend at *
  generalize signed rhs w = divisor at *
  generalize 2 ^ (w - 1) = half at *
  have size := Int.natAbs_tdiv dividend divisor
  by_cases unit : divisor.natAbs = 1
  · obtain rfl | rfl : divisor = 1 ∨ divisor = -1 := by omega
    · simpa using bounds
    · rw [Int.tdiv_neg, Int.tdiv_one]
      omega
  · have small : dividend.natAbs / divisor.natAbs ≤ dividend.natAbs / 2 :=
      div_le_div_left (by omega) (by omega)
    change _ = dividend.natAbs / divisor.natAbs at size
    omega

include hpos right in
theorem tmod_bounds (dividend : Int) (hnz : signed rhs w ≠ 0) :
    -(2 ^ (w - 1) : Nat) ≤ dividend.tmod (signed rhs w) ∧
      dividend.tmod (signed rhs w) < (2 ^ (w - 1) : Nat) := by
  have bounds := signed_bounds hpos right
  have size := Int.natAbs_tmod dividend (signed rhs w)
  have small := Nat.mod_lt dividend.natAbs (Int.natAbs_pos.mpr hnz)
  omega

include hpos left right

theorem binary_sdiv : (binary .sdiv w lhs rhs).map (signed · w) = if rhs = 0 then none else
    some (if signed lhs w = minimum w ∧ signed rhs w = -1 then minimum w
      else (signed lhs w).tdiv (signed rhs w)) := by
  simp only [binary, unmasked, signedDivision, signed_eq_zero_iff hpos right]
  split
  · rfl
  · rename_i hnz
    rw [← signed_eq_zero_iff hpos right] at hnz
    split
    · have half := Nat.two_pow_pos (w - 1)
      have hex : signed (encodeSigned (minimum w) w) w = minimum w := by
        apply signed_encodeSigned hpos <;> rw [minimum_eq] <;> omega
      simp only [Option.map_some, mod_encodeSigned, hex]
    · rename_i fits
      obtain ⟨low, high⟩ := tdiv_bounds hpos left hnz fits
      simp only [Option.map_some, mod_encodeSigned, signed_encodeSigned hpos low high]

omit left in
theorem binary_srem : (binary .srem w lhs rhs).map (signed · w) = if rhs = 0 then none else
    some ((signed lhs w).tmod (signed rhs w)) := by
  simp only [binary, unmasked, signedDivision, signed_eq_zero_iff hpos right]
  split
  · rfl
  · rename_i hnz
    split
    · rename_i ho
      rw [ho.2, Int.tmod_neg, Int.tmod_one]
      simp [(signed_eq_zero_iff hpos (Nat.two_pow_pos w)).mpr rfl]
    · rw [← signed_eq_zero_iff hpos right] at hnz
      obtain ⟨low, high⟩ := tmod_bounds hpos right (signed lhs w) hnz
      simp only [Option.map_some, mod_encodeSigned, signed_encodeSigned hpos low high]

omit right in
/-- Rounding down repeats the sign bit. -/
theorem binary_ashr : (binary .ashr w lhs rhs).map (signed · w) =
    some (signed lhs w / (2 ^ shiftCount w rhs : Nat)) := by
  obtain ⟨_, _⟩ := signed_bounds hpos left
  have scale := Nat.two_pow_pos (shiftCount w rhs)
  have hgn := Int.ofNat_le.mpr (Nat.le_mul_of_pos_right (2 ^ (w - 1)) scale)
  rw [Int.natCast_mul] at hgn
  simp only [binary, unmasked, Option.map_some, mod_encodeSigned, Int.shiftRight_eq_div_pow]
  rw [signed_encodeSigned hpos]
  · rw [Int.le_ediv_iff_mul_le (by omega), Int.neg_mul]
    omega
  · rw [Int.ediv_lt_iff_lt_mul (by omega)]
    omega

theorem signedOrder : (match lhs.testBit (w - 1), rhs.testBit (w - 1) with
    | true, false => Ordering.lt
    | false, true => Ordering.gt
    | _, _ => Ord.compare lhs rhs) = Ord.compare (signed lhs w) (signed rhs w) := by
  have double := two_pow_pred hpos
  have leftBit := testBit_iff hpos left
  have rightBit := testBit_iff hpos right
  rw [signed_eq hpos left, signed_eq hpos right, Int.compare_eq_ite_lt, compare_eq_ite_lt]
  cases leftSet : lhs.testBit (w - 1) <;> cases rightSet : rhs.testBit (w - 1) <;>
    simp only [leftSet, rightSet, true_iff, false_iff, Bool.false_eq_true] at leftBit rightBit <;>
    simp only [leftBit, rightBit, if_true, if_false]
  all_goals grind

theorem compare_iff (predicate : IntPredicate) :
    compare predicate w lhs rhs = true ↔ predicate.Holds w lhs rhs := by
  have order := signedOrder hpos left right
  cases predicate <;> simp [compare, order, IntPredicate.Holds, Std.compare_eq_lt,
    Std.compare_eq_gt, Std.isLE_compare, Std.isGE_compare]

omit hpos left right in
theorem binary_lt {kind : BinaryOp} {r : Nat} (ran : binary kind w lhs rhs = some r) :
    r < 2 ^ w := by
  obtain ⟨_, -, rfl⟩ := Option.map_eq_some_iff.mp ran
  rw [and_mask]
  exact Nat.mod_lt _ (Nat.two_pow_pos w)

omit left in
theorem binary_eq_none_iff (kind : BinaryOp) : binary kind w lhs rhs = none ↔
    (kind = .udiv ∨ kind = .urem ∨ kind = .sdiv ∨ kind = .srem) ∧ rhs = 0 := by
  cases kind <;> simp [binary, unmasked, signedDivision, signed_eq_zero_iff hpos right] <;>
    split <;> simp

end Results

variable {Operand : Type} {operand scalarOperand : Operand → Except String Nat} {width : Nat}

theorem instruction_lt {op : Operation Operand} {r : Nat}
    (ran : instruction operand scalarOperand width op = .ok r) : r < 2 ^ width := by
  obtain ⟨_, -, hret⟩ := bind_eq_ok.mp ran
  cases hret
  rw [and_mask]
  exact Nat.mod_lt _ (Nat.two_pow_pos width)

theorem instruction_sext {v : Operand} {narrow bits : Nat} (hpos : 0 < narrow)
    (wider : narrow ≤ width) (fits : bits < 2 ^ narrow) (read : operand v = .ok bits)
    (sized : scalarOperand v = .ok narrow) :
    ∃ hext, instruction operand scalarOperand width (.cast .sext v) = .ok hext ∧
      signed hext width = signed bits narrow := by
  obtain ⟨_, _⟩ := signed_bounds hpos fits
  have room := Nat.pow_le_pow_right (n := 2) (by decide) (Nat.sub_le_sub_right wider 1)
  refine ⟨encodeSigned (signed bits narrow) width, ?_, ?_⟩
  · simp [instruction, instructionValue, read, sized, pure, Except.pure, mod_encodeSigned]
  · exact signed_encodeSigned (hpos.trans_le wider) (by omega) (by omega)

/-- The operations of the interpreter are those of two's-complement integers of the width, whatever
it is. -/
theorem integer_operations_exact (width : Nat) (positive : 0 < width) (lhs rhs : Nat)
    (left : lhs < 2 ^ width) (right : rhs < 2 ^ width) :
    binary .add width lhs rhs = some ((lhs + rhs) % 2 ^ width) ∧
    binary .sub width lhs rhs = some (((lhs : Int) - rhs) % (2 ^ width : Nat)).toNat ∧
    binary .mul width lhs rhs = some (lhs * rhs % 2 ^ width) ∧
    binary .and width lhs rhs = some (lhs &&& rhs) ∧
    binary .or width lhs rhs = some (lhs ||| rhs) ∧
    binary .xor width lhs rhs = some (lhs ^^^ rhs) ∧
    binary .udiv width lhs rhs = (if rhs = 0 then none else some (lhs / rhs)) ∧
    binary .urem width lhs rhs = (if rhs = 0 then none else some (lhs % rhs)) ∧
    (binary .sdiv width lhs rhs).map (signed · width) = (if rhs = 0 then none else
      some (if signed lhs width = minimum width ∧ signed rhs width = -1 then minimum width
        else (signed lhs width).tdiv (signed rhs width))) ∧
    (binary .srem width lhs rhs).map (signed · width) = (if rhs = 0 then none else
      some ((signed lhs width).tmod (signed rhs width))) ∧
    (∀ kind, binary kind width lhs rhs = none ↔
      (kind = .udiv ∨ kind = .urem ∨ kind = .sdiv ∨ kind = .srem) ∧ rhs = 0) ∧
    (∃ count < width, count = (if rhs < width then rhs else rhs &&& (width - 1)) ∧
      binary .shl width lhs rhs = some (lhs * 2 ^ count % 2 ^ width) ∧
      binary .lshr width lhs rhs = some (lhs / 2 ^ count) ∧
      (binary .ashr width lhs rhs).map (signed · width) =
        some (signed lhs width / (2 ^ count : Nat))) ∧
    (∀ predicate, compare predicate width lhs rhs = true ↔ predicate.Holds width lhs rhs) ∧
    (∀ kind result, binary kind width lhs rhs = some result → result < 2 ^ width) ∧
    ∀ (Operand : Type) (operand scalarOperand : Operand → Except String Nat) (wide : Nat),
      (∀ operation result, instruction operand scalarOperand wide operation = .ok result →
        result < 2 ^ wide) ∧
      ∀ value, operand value = .ok lhs → scalarOperand value = .ok width → width ≤ wide →
        ∃ extended, instruction operand scalarOperand wide (.cast .sext value) = .ok extended ∧
          signed extended wide = signed lhs width := by
  have quotient : lhs / rhs < 2 ^ width := (div_le_self lhs rhs).trans_lt left
  have remainder : lhs % rhs < 2 ^ width := (mod_le lhs rhs).trans_lt left
  refine ⟨?_, ?_, ?_, ?_, ?_, ?_, ?_, ?_, binary_sdiv positive left right,
    binary_srem positive right, binary_eq_none_iff positive right,
    ⟨_, shiftCount_lt positive, rfl, ?_, ?_, binary_ashr positive left⟩,
    compare_iff positive left right, fun _ _ => binary_lt, fun _ _ _ _ => ⟨fun _ _ => instruction_lt,
      fun _ read sized wider => instruction_sext positive wider left read sized⟩⟩
  all_goals simp only [binary, unmasked, Option.map_some, and_mask]
  · have borrow : ((lhs + 2 ^ width - rhs : Nat) : Int) = lhs - rhs + (2 ^ width : Nat) := by omega
    rw [one_shiftLeft, ← Int.add_emod_right, ← borrow, ← Int.natCast_mod, Int.toNat_natCast]
  · rw [mod_eq_of_lt (and_lt_two_pow lhs right)]
  · rw [mod_eq_of_lt (or_lt_two_pow left right)]
  · rw [mod_eq_of_lt (xor_lt_two_pow left right)]
  · split <;> simp [mod_eq_of_lt quotient]
  · split <;> simp [mod_eq_of_lt remainder]
  · rw [shiftLeft_eq]
  · rw [shiftRight_eq_div_pow, mod_eq_of_lt ((div_le_self lhs _).trans_lt left)]

theorem integer_operations_byte :
    binary .ashr 8 0xf0 9 = some 0xf8 ∧
    (binary .ashr 8 0xf0 9).map (signed · 8) = some (signed 0xf0 8 / 2) := by
  obtain ⟨-, -, -, -, -, -, -, -, -, -, -, ⟨count, -, counted, -, -, shifted⟩, -⟩ :=
    integer_operations_exact 8 (by decide) 0xf0 9 (by decide) (by decide)
  subst counted
  exact ⟨by decide, shifted⟩

end Ostadix.Ocore.Native
