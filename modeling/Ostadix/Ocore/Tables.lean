import Ostadix.Ocore.Ast

/-! # Tables of the type checker

The type table with the names, attributes and layouts of its structs and enums, the signatures of
functions, statics and constants, and the symbols. `TypeTable.context` is the part of the type
table that the lowering reads. -/

namespace Ostadix.Ocore

abbrev ConstId := Nat

/-! ## Failures -/

/-- `panic` stands for every way in which the source stops without a diagnostic: an index out of
bounds, a failed `unwrap` or `expect`, an arithmetic overflow in a build that checks for it, or an
endless recursion over the type table. -/
inductive CheckError where
  | diagnostic (diagnostic : Diagnostic)
  | panic
deriving DecidableEq

abbrev CheckResult := Except CheckError

def Span.default : Span :=
  ⟨0, 0, 0, 0⟩

def diag {α : Type} (file : String) (span : Span) (message : String) : CheckResult α :=
  throw (.diagnostic ⟨file, span, message⟩)

def unwrap {α : Type} : Option α → CheckResult α
  | some value => .ok value
  | none => .error .panic

theorem unwrap_eq_ok {α : Type} {opt : Option α} {v : α} : unwrap opt = .ok v ↔ opt = some v := by
  cases opt <;> simp [unwrap]

/-! ## Types -/

namespace HirType

def isInteger : HirType → Bool
  | int .. | usize | isize => true
  | _ => false

def isFloat : HirType → Bool
  | float _ => true
  | _ => false

def isScalar : HirType → Bool
  | bool | int .. | usize | isize | float _ | pointer .. | function .. => true
  | _ => false

end HirType

/-- The `Debug` name. -/
def Abi.debug : Abi → String
  | oCore => "OCore"
  | c => "C"
  | sysV64 => "SysV64"
  | interrupt => "Interrupt"

structure NamedField extends StructField where
  name : String
deriving DecidableEq

structure StructEntry where
  name : String
  fields : List NamedField
  packed : Bool
  requestedAlign : Option UInt64
  layout : Layout
deriving DecidableEq

structure VariantEntry extends EnumVariant where
  name : String
  payloadLayout : Layout
deriving DecidableEq

structure EnumEntry where
  name : String
  variants : List VariantEntry
  tagSize : UInt64
  payloadOffset : UInt64
  layout : Layout
deriving DecidableEq

/-- The primitive types, in the order in which a new table interns them. -/
def primitives : List (String × HirType) :=
  [("bool", .bool),
    ("u8", .int false 8), ("i8", .int true 8), ("u16", .int false 16), ("i16", .int true 16),
    ("u32", .int false 32), ("i32", .int true 32), ("u64", .int false 64), ("i64", .int true 64),
    ("usize", .usize), ("isize", .isize), ("f32", .float 32), ("f64", .float 64),
    ("void", .void), ("never", .never)]

def primitiveNames : List (String × TypeId) :=
  primitives.zipIdx.map fun ((name, _), id) => (name, id)

/-- A type is interned at its first position in `types`. -/
structure TypeTable where
  types : List HirType
  structs : List StructEntry
  enums : List EnumEntry
deriving DecidableEq

namespace TypeTable

def new : TypeTable :=
  ⟨primitives.map Prod.snd, [], []⟩

def primitive (name : String) : Option TypeId :=
  primitiveNames.lookup name

def intern (ty : HirType) (table : TypeTable) : TypeId × TypeTable :=
  match table.types.idxOf? ty with
  | some id => (id, table)
  | none => (table.types.length, { table with types := table.types ++ [ty] })

def addStructPlaceholder (name : String) (table : TypeTable) : (StructId × TypeId) × TypeTable :=
  let id := table.structs.length
  let (ty, interned) := table.intern (.struct id)
  ((id, ty), { interned with structs := interned.structs ++ [⟨name, [], false, none, ⟨0, 1⟩⟩] })

def addEnumPlaceholder (name : String) (table : TypeTable) : (EnumId × TypeId) × TypeTable :=
  let id := table.enums.length
  let (ty, interned) := table.intern (.enum id)
  ((id, ty), { interned with enums := interned.enums ++ [⟨name, [], 1, 1, ⟨1, 1⟩⟩] })

/-- What the lowering reads of the table. -/
def context (table : TypeTable) : TypeContext where
  types := table.types
  structs := table.structs.map fun entry =>
    ⟨entry.fields.map NamedField.toStructField, entry.layout⟩
  enums := table.enums.map fun entry =>
    ⟨entry.variants.map VariantEntry.toEnumVariant, entry.tagSize, entry.payloadOffset,
      entry.layout⟩
  primitiveNames := primitiveNames

/-- `name`, following at most `fuel` component types. -/
def nameWithin (table : TypeTable) : Nat → TypeId → CheckResult String
  | 0, _ => throw .panic
  | fuel + 1, ty => do
      match ← unwrap table.types[ty]? with
      | .bool => return "bool"
      | .int signed bits => return (if signed then "i" else "u") ++ toString bits
      | .usize => return "usize"
      | .isize => return "isize"
      | .float bits => return s!"f{bits}"
      | .void => return "void"
      | .never => return "never"
      | .pointer mutable pointee =>
          let pointee ← table.nameWithin fuel pointee
          return (if mutable then "*mut " else "*const ") ++ pointee
      | .array element len =>
          let element ← table.nameWithin fuel element
          return s!"[{element}; {len}]"
      | .struct id => return (← unwrap table.structs[id]?).name
      | .enum id => return (← unwrap table.enums[id]?).name
      | .function params result abi =>
          let params ← params.mapM fun param => table.nameWithin fuel param
          let result ← table.nameWithin fuel result
          return s!"extern {abi.debug} fn(" ++ ", ".intercalate params ++ s!") -> {result}"

/-- A chain of component types without a repetition is no longer than the table. -/
def name (table : TypeTable) (ty : TypeId) : CheckResult String :=
  table.nameWithin table.types.length ty

end TypeTable

/-! ## Values -/

structure LocalEntry extends HirLocal where
  name : String
  mutable : Bool
deriving DecidableEq

structure FunctionEntry where
  qualifiedName : String
  unsafe_ : Bool
  abi : Abi
  params : List LocalId
  result : TypeId
  locals : List LocalEntry
  body : Option HirBlock

structure StaticEntry where
  qualifiedName : String
  mutable : Bool
  ty : TypeId
  init : HirConstValue

structure ConstEntry where
  qualifiedName : String
  ty : TypeId
  value : HirConstValue

inductive Symbol where
  | function (id : FunctionId)
  | static (id : StaticId)
  | const (id : ConstId)
  | type (id : TypeId)
deriving DecidableEq

/-- The program under construction. A name is added to `symbols` once. -/
structure ProgramTables where
  types : TypeTable
  functions : List FunctionEntry
  statics : List StaticEntry
  consts : List ConstEntry
  symbols : List (String × Symbol)

def ProgramTables.new : ProgramTables :=
  ⟨.new, [], [], [], []⟩

def FunctionEntry.hir (entry : FunctionEntry) : HirFunction where
  qualifiedName := entry.qualifiedName
  result := entry.result
  locals := entry.locals.map LocalEntry.toHirLocal
  body := entry.body

/-- What the lowering reads of the program. -/
def ProgramTables.hir (program : ProgramTables) : HirProgram where
  types := program.types.context
  functions := program.functions.map FunctionEntry.hir
  statics := program.statics.length

end Ostadix.Ocore
