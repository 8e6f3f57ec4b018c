import Ostadix.Value.Fidelity
import Mathlib.Algebra.Group.Int.Defs

/-! # Fidelity of a backend crossing

What a value loses when it crosses to a backend: by the value if it is known, by domain and
representation otherwise. Data of values that no rule looks at is of an arbitrary type `Data`. -/

namespace Ostadix.Hgraph

open Value

/-! ## Values -/

inductive ONumber (Data : Type) where
  | int (v : Int)
  | rich (data : Data)
deriving DecidableEq

mutual

/-- `Map` and `Object` are given by their entries in the order of keys. -/
inductive OValue (Data : Type) where
  | number (v : ONumber Data)
  | list (v : OValues Data)
  | seq (kind : Data) (items : OValues Data)
  | set (kind : Data) (items : OValues Data)
  | group (mode : Data) (members : OValues Data)
  | map (v : OFields Data)
  | object (fields : OFields Data)
  | entriesMap (entries : OEntries Data)
  | graph (data : Data)
  | capability (data : Data)
  | native (data : Data)
  | other (data : Data)
deriving DecidableEq

inductive OValues (Data : Type) where
  | nil
  | cons (item : OValue Data) (rest : OValues Data)
deriving DecidableEq

inductive OFields (Data : Type) where
  | nil
  | cons (name : String) (item : OValue Data) (rest : OFields Data)
deriving DecidableEq

inductive OEntries (Data : Type) where
  | nil
  | cons (key value : OValue Data) (rest : OEntries Data)
deriving DecidableEq

end

variable {Data : Type}

def OValue.bigInt (value : Int) : OValue Data :=
  .number (.int value)

def OValue.isNative : OValue Data → Bool
  | native _ => true
  | _ => false

/-! ## Backends -/

inductive IntegerExactness where
  | unknown
  | exactMagnitudeBits (bits : UInt16)
  | twosComplementBits (bits : UInt16)
  | exactRange (min max : Int)
  | arbitrary
deriving DecidableEq

inductive RichNumberPreservation where
  | unknown
  | preserved
  | collapsed
deriving DecidableEq

structure BackendValueCapabilities where
  integerExactness : IntegerExactness
  richNumbers : RichNumberPreservation
deriving DecidableEq

structure BackendSpec where
  name : String
  aliases : List String
  valueCapabilities : BackendValueCapabilities
deriving DecidableEq

def BackendSpec.names (spec : BackendSpec) (lang : String) : Bool :=
  spec.name = lang || spec.aliases.contains lang

/-- The catalog of backends, in its order. -/
abbrev BackendRegistry := List BackendSpec

def BackendRegistry.get (registry : BackendRegistry) (lang : String) : Option BackendSpec :=
  registry.find? (·.names lang)

/-! ## Domains and representations -/

abbrev DomainFlags := BitVec 16

namespace DomainFlags

def integer : DomainFlags := 0x0001
def float : DomainFlags := 0x0002
def numeric : DomainFlags := integer ||| float
def pointer : DomainFlags := 0x0004
def bool : DomainFlags := 0x0008
def bitfield : DomainFlags := 0x0010
def string : DomainFlags := 0x0020
def struct : DomainFlags := 0x0040
def any : DomainFlags := 0x00ff

end DomainFlags

abbrev RepFlags := BitVec 16

namespace RepFlags

def i8 : RepFlags := 0x0001
def i16 : RepFlags := 0x0002
def i32 : RepFlags := 0x0004
def i64 : RepFlags := 0x0008
def i128 : RepFlags := 0x0010
def big : RepFlags := 0x0020
def f32 : RepFlags := 0x0040
def f64 : RepFlags := 0x0080
def ptr : RepFlags := 0x0100
def bool : RepFlags := 0x0200
def str : RepFlags := 0x0400
def any : RepFlags := 0x07ff

end RepFlags

/-- All flags of `part` are set. -/
def containsFlags (flags part : BitVec 16) : Bool :=
  flags &&& part = part

def flagDifference (flags other : BitVec 16) : BitVec 16 :=
  flags &&& ~~~other

/-! ## Synthesized losses -/

/-- The closed vocabulary of losses that the rules below synthesize. -/
def generatedLosses : List AnnotationKind :=
  [.identity, .capability, .numericPrecision, .numericExactness, .typeTag]

def integerRangeExceedsCapability (minimum maximum : Int) : IntegerExactness → Option Bool
  | .unknown => none
  | .arbitrary => some false
  | .exactMagnitudeBits bits =>
      let upper : Int := 2 ^ bits.toNat
      some (decide (minimum < -upper ∨ maximum > upper))
  | .twosComplementBits bits =>
      let magnitude : Int := 2 ^ bits.toNat
      some (decide (minimum < -magnitude ∨ maximum > magnitude - 1))
  | .exactRange min max =>
      if min > max then none else some (decide (minimum < min ∨ maximum > max))

def integerExceedsCapability (value : Int) (exactness : IntegerExactness) : Option Bool :=
  integerRangeExceedsCapability value value exactness

/-- The losses of a number: `exceeds` is what the integer rule says of its magnitude. -/
def numericFidelity (exceeds : Option Bool) (richNumbers : RichNumberPreservation) : Fidelity :=
  match exceeds with
  | none => .unsupported
  | some exceeds =>
      let lost : Losses := if exceeds then {.numericPrecision} else ∅
      match richNumbers with
      | .preserved => .ofLosses lost
      | .collapsed => .ofLosses (insert .typeTag (insert .numericExactness lost))
      | .unknown => .unsupported

def fidelityForNumber (number : ONumber Data) (capabilities : BackendValueCapabilities) : Fidelity :=
  match number with
  | .int v => numericFidelity (integerExceedsCapability v capabilities.integerExactness)
      capabilities.richNumbers
  | .rich _ => numericFidelity (some false) capabilities.richNumbers

section Value

variable (capabilities : BackendValueCapabilities)

mutual

def fidelityForValueWithCapabilities : OValue Data → Fidelity
  | .native _ => .nativeCapsule
  | .number v => fidelityForNumber v capabilities
  | .list v | .seq _ v | .set _ v | .group _ v => foldItems .lossless v
  | .map v | .object v => foldFields .lossless v
  | .entriesMap entries => foldEntries .lossless entries
  | .graph _ => .ofLosses {.identity}
  | .capability _ => .ofLosses {.capability}
  | .other _ => .lossless

def foldItems (acc : Fidelity) : OValues Data → Fidelity
  | .nil => acc
  | .cons item rest => foldItems (acc.compose (fidelityForValueWithCapabilities item)) rest

def foldFields (acc : Fidelity) : OFields Data → Fidelity
  | .nil => acc
  | .cons _ item rest => foldFields (acc.compose (fidelityForValueWithCapabilities item)) rest

def foldEntries (acc : Fidelity) : OEntries Data → Fidelity
  | .nil => acc
  | .cons key value rest =>
      foldEntries ((acc.compose (fidelityForValueWithCapabilities key)).compose
        (fidelityForValueWithCapabilities value)) rest

end

end Value

def abstractIntegerExceedsCapability (reps : RepFlags) (exactness : IntegerExactness) : Option Bool :=
  let integerReps := reps &&& (.i8 ||| .i16 ||| .i32 ||| .i64 ||| .i128 ||| .big)
  if integerReps = 0 then some false
  else if containsFlags integerReps RepFlags.big then
    match exactness with
    | .unknown => none
    | .arbitrary => some false
    | .exactMagnitudeBits _ | .twosComplementBits _ | .exactRange .. => some true
  else
    let magnitudeBits :=
      if containsFlags integerReps RepFlags.i128 then 127
      else if containsFlags integerReps RepFlags.i64 then 63
      else if containsFlags integerReps RepFlags.i32 then 31
      else if containsFlags integerReps RepFlags.i16 then 15
      else 7
    let magnitude : Int := 2 ^ magnitudeBits
    integerRangeExceedsCapability (-magnitude) (magnitude - 1) exactness

def fidelityForAbstract (domain : DomainFlags) (rep : RepFlags)
    (capabilities : BackendValueCapabilities) : Fidelity :=
  let numericReps : RepFlags :=
    .i8 ||| .i16 ||| .i32 ||| .i64 ||| .i128 ||| .big ||| .f32 ||| .f64
  let numericDomain := domain &&& .numeric
  let numericRep := rep &&& numericReps
  if domain = 0 ∨ rep = 0 then .unsupported
  else if numericDomain ≠ 0 ∨ numericRep ≠ 0 then
    if numericDomain = 0 ∨ numericRep = 0 ∨ flagDifference domain DomainFlags.numeric ≠ 0 ∨
        flagDifference rep numericReps ≠ 0 then .unsupported
    else
      numericFidelity (abstractIntegerExceedsCapability numericRep capabilities.integerExactness)
        capabilities.richNumbers
  else if flagDifference domain (DomainFlags.string ||| DomainFlags.bool) = 0 ∧
      flagDifference rep (RepFlags.str ||| RepFlags.bool) = 0 then .lossless
  else .unsupported

/-- A loss of precision is only possible: an abstract representation has values within range.
`none` is a panic. -/
def fidelityAssessmentForAbstract (domain : DomainFlags) (rep : RepFlags)
    (capabilities : BackendValueCapabilities) : Option FidelityAssessmentV2 :=
  match fidelityForAbstract domain rep capabilities with
  | .structural lost =>
      (FidelityAssessmentV2.ofBounds (lost.losses.filter (· ≠ .numericPrecision)) lost.losses).toOption
  | other => some (.fromConcrete other)

end Ostadix.Hgraph
