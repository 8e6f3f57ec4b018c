import Ostadix.Hgraph.Crossing

/-! # Abstract judgments against concrete ones

A node without a value is judged by its flags alone. The judgment is compared with the judgments of
the values that the flags allow. -/

namespace Ostadix.Hgraph

open Value

variable {Data : Type}

/-! ## The values that flags allow -/

/-- A scalar value and its kind. -/
inductive Scalar (Data : Type) where
  | integer (v : Int)
  | float (data : Data)
  | string (data : Data)
  | bool (data : Data)

namespace Scalar

def value : Scalar Data → OValue Data
  | integer v => .bigInt v
  | float data => .number (.rich data)
  | string data | bool data => .other data

/-- The integer representations of a fixed width, with the bits of their magnitude. -/
def integerWidths : List (RepFlags × Nat) :=
  [(.i8, 7), (.i16, 15), (.i32, 31), (.i64, 63), (.i128, 127)]

/-- Kind and range of the value are allowed by the flags. -/
def Allowed (domain : DomainFlags) (rep : RepFlags) : Scalar Data → Prop
  | integer v => containsFlags domain DomainFlags.integer ∧
      (containsFlags rep RepFlags.big ∨ ∃ width ∈ integerWidths,
        containsFlags rep width.1 ∧ -2 ^ width.2 ≤ v ∧ v < 2 ^ width.2)
  | float _ => containsFlags domain DomainFlags.float ∧
      (containsFlags rep RepFlags.f32 ∨ containsFlags rep RepFlags.f64)
  | string _ => containsFlags domain DomainFlags.string ∧ containsFlags rep RepFlags.str
  | bool _ => containsFlags domain DomainFlags.bool ∧ containsFlags rep RepFlags.bool

end Scalar

/-- The concrete judgment of every allowed value is one of the assessment. -/
def Covers (Data : Type) (domain : DomainFlags) (rep : RepFlags)
    (capabilities : BackendValueCapabilities) (assessment : FidelityAssessmentV2) : Prop :=
  ∀ scalar : Scalar Data, scalar.Allowed domain rep →
    assessment.concretizationContains
      (fidelityForValueWithCapabilities capabilities scalar.value) = true

/-! ## Flags -/

section Flags

variable {flags mask part : BitVec 16}

end Flags

/-! ## Integers -/

section Integers

variable {exactness : IntegerExactness}

/-- The integer representations. -/
def integerReps : RepFlags :=
  .i8 ||| .i16 ||| .i32 ||| .i64 ||| .i128 ||| .big

end Integers

/-! ## Numbers -/

/-- The assessment that the abstract rule makes of its judgment. -/
def assessed : Fidelity → Option FidelityAssessmentV2
  | .structural lost =>
      (FidelityAssessmentV2.ofBounds (lost.losses.filter (· ≠ .numericPrecision)) lost.losses).toOption
  | other => some (.fromConcrete other)

section Node

variable {domain : DomainFlags} {rep : RepFlags} {capabilities : BackendValueCapabilities}

end Node

end Ostadix.Hgraph
