import Ostadix.Ocore.Layouts
import Ostadix.Ocore.Resolve

/-! # The type checker's passes over declarations

Names of types, their definitions, layouts, the signatures of functions, statics and constants, and
the values of constants and statics. Bodies of functions come afterwards, in a module of their
own. -/

namespace Ostadix.Ocore

open Ast

/-! ## State -/

/-- A definition with the item and the scope of the module it stands in. -/
structure Definition (α : Type) where
  scope : ModuleScope
  item : Item
  definition : α

/-- The source keeps the indices of module and item; here stands what they lead to. -/
structure Checker where
  program : ProgramTables
  structDefs : List (StructId × Definition StructDef)
  enumDefs : List (EnumId × Definition EnumDef)
  functionDefs : List (Definition Function)
  staticDefs : List (Definition StaticDef)
  constDefs : List (Definition ConstDef)

def Checker.new : Checker :=
  ⟨.new, [], [], [], [], []⟩

abbrev CheckM := StateT Checker CheckResult

/-- The order in which the hash maps of the source list the definitions of types. -/
structure HashOrder where
  structs : List (StructId × Definition StructDef) → List (StructId × Definition StructDef)
  enums : List (EnumId × Definition EnumDef) → List (EnumId × Definition EnumDef)
  structs_perm : ∀ defs, (structs defs).Perm defs
  enums_perm : ∀ defs, (enums defs).Perm defs

def onTable {α : Type} (action : TableM α) : CheckM α := fun checker => do
  let (value, types) ← action checker.program.types
  return (value, { checker with program.types := types })

def declareSymbol (name : String) (symbol : Symbol) : CheckM Unit :=
  modify fun checker =>
    { checker with program.symbols := checker.program.symbols ++ [(name, symbol)] }

def ensureNameFree (name : String) (scope : ModuleScope) (span : Span) : CheckM Unit := do
  if ((← get).program.symbols.lookup name).isSome then
    diag scope.file span s!"duplicate item `{name}`"

/-! ## Names of types -/

def collectTypeName (scope : ModuleScope) (item : Item) : CheckM Unit :=
  match item.kind with
  | .struct definition => do
      let name := qualify scope.name definition.name
      ensureNameFree name scope item.span
      let (id, ty) ← onTable (modifyGet (·.addStructPlaceholder name))
      declareSymbol name (.type ty)
      modify fun checker =>
        { checker with structDefs := checker.structDefs ++ [(id, ⟨scope, item, definition⟩)] }
  | .enum definition => do
      let name := qualify scope.name definition.name
      ensureNameFree name scope item.span
      let (id, ty) ← onTable (modifyGet (·.addEnumPlaceholder name))
      declareSymbol name (.type ty)
      modify fun checker =>
        { checker with enumDefs := checker.enumDefs ++ [(id, ⟨scope, item, definition⟩)] }
  | _ => return ()

def collectTypeNames (modules : List (ModuleScope × SourceModule)) : CheckM Unit :=
  modules.forM fun (scope, module) => module.items.forM (collectTypeName scope)

/-! ## Definitions of types -/

section Definitions

variable (scope : ModuleScope)

def resolveIn (ty : TypeExpr) : CheckM TypeId := do
  onTable (resolveType scope (← get).program.symbols ty)

def defineFields : List FieldDef → List String → CheckM (List NamedField)
  | [], _ => return []
  | field :: fields, names => do
      if field.name ∈ names then
        diag scope.file field.span s!"duplicate field `{field.name}`"
      let ty ← resolveIn scope field.ty
      let rest ← defineFields fields (field.name :: names)
      return ⟨⟨ty, 0⟩, field.name⟩ :: rest

def resolvePayload : List TypeExpr → CheckM (List TypeId)
  | [] => return []
  | ty :: tys => do
      let ty ← resolveIn scope ty
      let tys ← resolvePayload tys
      return ty :: tys

def defineVariants : List VariantDef → List String → CheckM (List VariantEntry)
  | [], _ => return []
  | variant :: variants, names => do
      if variant.name ∈ names then
        diag scope.file variant.span s!"duplicate enum variant `{variant.name}`"
      let payload ← resolvePayload scope variant.payload
      let rest ← defineVariants variants (variant.name :: names)
      return ⟨⟨payload⟩, variant.name, ⟨0, 1⟩⟩ :: rest

end Definitions

def setStruct (id : StructId) (fields : List NamedField) (attrs : ItemAttrs) : CheckM Unit :=
  modify fun checker => { checker with
    program.types.structs := checker.program.types.structs.modify id fun entry =>
      { entry with fields, packed := attrs.packed, requestedAlign := attrs.align } }

def setVariants (id : EnumId) (variants : List VariantEntry) : CheckM Unit :=
  modify fun checker => { checker with
    program.types.enums := checker.program.types.enums.modify id fun entry =>
      { entry with variants } }

def defineStruct : StructId × Definition StructDef → CheckM Unit
  | (id, ⟨scope, item, definition⟩) => do
      let attrs ← parseAttrs scope.file item
      let fields ← defineFields scope definition.fields []
      setStruct id fields attrs

def defineEnum : EnumId × Definition EnumDef → CheckM Unit
  | (id, ⟨scope, _, definition⟩) => do
      let variants ← defineVariants scope definition.variants []
      setVariants id variants

def defineTypes (order : HashOrder) : CheckM Unit := do
  (order.structs (← get).structDefs).forM defineStruct
  (order.enums (← get).enumDefs).forM defineEnum

def layOutTypes (overflow : Overflow) : CheckM Unit :=
  onTable fun table => do return ((), ← computeLayouts overflow table)

/-! ## Signatures -/

/-- The parameters of a function, as its first locals. -/
def resolveParams (scope : ModuleScope) : List Param → CheckM (List LocalEntry)
  | [] => return []
  | param :: params => do
      let ty ← resolveIn scope param.ty
      let rest ← resolveParams scope params
      return ⟨⟨ty⟩, param.name, false⟩ :: rest

def validateFunctionAttrs (file : String) (span : Span) (attrs : ItemAttrs) (abi : Abi)
    (params : List TypeId) (result : TypeId) (unsafe_ : Bool) (types : TypeTable) :
    CheckResult Unit := do
  if attrs.packed || attrs.used || attrs.unsafeLinkage then
    diag file span "struct/static-only attribute applied to function"
  let resultTy ← types.typeAt result
  if attrs.interrupt then
    if !unsafe_ then
      diag file span "@interrupt function must be declared unsafe"
    if !params.isEmpty || resultTy ≠ .void then
      diag file span "@interrupt function must be `fn() -> void`"
    if abi ≠ .interrupt then
      diag file span "internal interrupt ABI mismatch"
  if attrs.naked then
    if !unsafe_ then
      diag file span "@naked function must be declared unsafe"
    if !attrs.noMangle then
      diag file span "@naked requires @no_mangle for explicit entry linkage"
  let paramTys ← params.mapM types.typeAt
  if abi = .sysV64 && (paramTys.any HirType.isFloat || resultTy.isFloat) then
    diag file span "floating-point values are forbidden across the v0.1 sysv64 ABI"
  if abi = .c && (paramTys.any HirType.isFloat || resultTy.isFloat) then
    diag file span "floating-point values are forbidden across the current scalar C ABI"
  if abi ≠ .interrupt && (paramTys.any (!·.isScalar) ||
      (resultTy ≠ .void && resultTy ≠ .never && !resultTy.isScalar)) then
    diag file span "aggregate values are forbidden across the current call ABI; pass pointers"

def addFunction (entry : FunctionEntry) (definition : Definition Function) : CheckM Unit := do
  let id := (← get).program.functions.length
  modify fun checker => { checker with
    program.functions := checker.program.functions ++ [entry]
    functionDefs := checker.functionDefs ++ [definition] }
  declareSymbol entry.qualifiedName (.function id)

def addStatic (entry : StaticEntry) (definition : Definition StaticDef) : CheckM Unit := do
  let id := (← get).program.statics.length
  modify fun checker => { checker with
    program.statics := checker.program.statics ++ [entry]
    staticDefs := checker.staticDefs ++ [definition] }
  declareSymbol entry.qualifiedName (.static id)

def addConst (entry : ConstEntry) (definition : Definition ConstDef) : CheckM Unit := do
  let id := (← get).program.consts.length
  modify fun checker => { checker with
    program.consts := checker.program.consts ++ [entry]
    constDefs := checker.constDefs ++ [definition] }
  declareSymbol entry.qualifiedName (.const id)

def collectValueSignature (scope : ModuleScope) (item : Item) : CheckM Unit :=
  match item.kind with
  | .function definition => do
      let name := qualify scope.name definition.name
      ensureNameFree name scope item.span
      let attrs ← parseAttrs scope.file item
      let abi := if attrs.interrupt then .interrupt else definition.abi
      let locals ← resolveParams scope definition.params
      let result ← resolveIn scope definition.returnType
      validateFunctionAttrs scope.file item.span attrs abi (locals.map (·.ty)) result
        definition.unsafe_ (← get).program.types
      addFunction ⟨name, definition.unsafe_, abi, List.range locals.length, result, locals, none⟩
        ⟨scope, item, definition⟩
  | .static definition => do
      let name := qualify scope.name definition.name
      ensureNameFree name scope item.span
      let attrs ← parseAttrs scope.file item
      if definition.mutable && attrs.linkSection.any (·.startsWith ".text") &&
          !attrs.unsafeLinkage then
        diag scope.file item.span "writable static in executable section requires @unsafe_linkage"
      let ty ← resolveIn scope definition.ty
      addStatic ⟨name, definition.mutable, ty, .zero⟩ ⟨scope, item, definition⟩
  | .const definition => do
      let name := qualify scope.name definition.name
      ensureNameFree name scope item.span
      let ty ← resolveIn scope definition.ty
      addConst ⟨name, ty, .zero⟩ ⟨scope, item, definition⟩
  | .struct _ | .enum _ => return ()

def collectValueSignatures (modules : List (ModuleScope × SourceModule)) : CheckM Unit :=
  modules.forM fun (scope, module) => module.items.forM (collectValueSignature scope)

/-! ## Linker symbols -/

/-- `replace("::", "__")`. -/
def replaceSeparators : List Char → List Char
  | ':' :: ':' :: rest => '_' :: '_' :: replaceSeparators rest
  | char :: rest => char :: replaceSeparators rest
  | [] => []

def itemSymbol (module name : String) (attrs : ItemAttrs) (extern_ : Bool) : String :=
  if attrs.noMangle || extern_ then name
  else .ofList ("_O_".toList ++ replaceSeparators module.toList ++ "__".toList ++ name.toList)

/-- The arguments with which the pass over signatures asks for the symbol of an item. -/
structure Linked where
  module : String
  name : String
  attrs : ItemAttrs
  extern_ : Bool

def Linked.symbol (linked : Linked) : String :=
  itemSymbol linked.module linked.name linked.attrs linked.extern_

/-- Constants and types have no symbol. -/
def Item.linked (scope : ModuleScope) (item : Item) : Option Linked := do
  let attrs ← (parseAttrs scope.file item).toOption
  match item.kind with
  | .function definition => some ⟨scope.name, definition.name, attrs, definition.body.isNone⟩
  | .static definition => some ⟨scope.name, definition.name, attrs, false⟩
  | _ => none

def Linked.qualifiedName (linked : Linked) : String :=
  qualify linked.module linked.name

/-! ## Values of constants and statics -/

def positiveIntegerLimit : HirType → Option UInt64
  | .int _ 64 | .usize | .isize => some (0 - 1)
  | .int false bits => some ((1 <<< bits.toUInt64) - 1)
  | .int true bits => some ((1 <<< (bits.toUInt64 - 1)) - 1)
  | _ => none

def negativeIntegerLimit : HirType → Option UInt64
  | .int true bits => some (1 <<< (bits.toUInt64 - 1))
  | .isize => some ((1 : UInt64) <<< 63)
  | ty => positiveIntegerLimit ty

section Constants

/- `valueOf` gives the value of a constant that an initializer names. -/
variable (program : ProgramTables) (valueOf : ConstId → CheckResult HirConstValue)
  (scope : ModuleScope)

def notConstant (span : Span) (expected : TypeId) : CheckResult HirConstValue := do
  let name ← program.types.name expected
  diag scope.file span s!"initializer is not a `{name}` compile-time constant"

def FunctionEntry.paramTypes (function : FunctionEntry) : CheckResult (List TypeId) :=
  function.params.mapM fun param => do return (← unwrap function.locals[param]?).ty

def functionConstant (id : FunctionId) (span : Span) (expected : TypeId) :
    CheckResult HirConstValue := do
  let function ← unwrap program.functions[id]?
  let .function params result abi ← program.types.typeAt expected
    | diag scope.file span "function address requires a function-pointer constant type"
  if abi ≠ function.abi || result ≠ function.result || params ≠ (← function.paramTypes) then
    diag scope.file span "function-pointer constant signature or ABI mismatch"
  return .function id

def enumConstant (qualified : String) (span : Span) (expected : TypeId) :
    CheckResult HirConstValue := do
  match ← resolveEnumVariant program.symbols program.types qualified with
  | some (id, variant) =>
      let entry ← unwrap program.types.enums[id]?
      let payload := (← unwrap entry.variants[variant]?).payload
      if expected ≠ (← typeForEnum program.types id) || !payload.isEmpty then
        diag scope.file span "enum constant does not match expected type"
      return .enum id variant []
  | none => diag scope.file span "initializer is not a compile-time constant"

def namedConstant (id : ConstId) (span : Span) (expected : TypeId) : CheckResult HirConstValue := do
  let ty := (← unwrap program.consts[id]?).ty
  if ty = expected then valueOf id
  else diag scope.file span "constant type mismatch"

def pathConstant (path : Path) (span : Span) (expected : TypeId) : CheckResult HirConstValue := do
  let qualified ← resolvePath scope program.symbols path
  match program.symbols.lookup qualified with
  | some (.function id) => functionConstant program scope id span expected
  | some (.const id) => namedConstant program valueOf scope id span expected
  | _ => enumConstant program scope qualified span expected

def integerConstant (value : UInt64) (span : Span) (expected : TypeId) :
    CheckResult HirConstValue := do
  let limit ← unwrap (positiveIntegerLimit (← program.types.typeAt expected))
  if value > limit then
    let name ← program.types.name expected
    diag scope.file span s!"literal `{value}` does not fit `{name}`"
  return .integer value

def negativeConstant (operand : Expr) (span : Span) (expected : TypeId) :
    CheckResult HirConstValue := do
  let .integer magnitude := operand.kind
    | diag scope.file span "constant unary `-` requires an integer literal"
  let limit ← unwrap (negativeIntegerLimit (← program.types.typeAt expected))
  if magnitude > limit then
    let name ← program.types.name expected
    diag scope.file span s!"negative integer literal does not fit `{name}`"
  return .integer (0 - magnitude)

/-- The values of a struct constant in the order of its fields. -/
def orderConstStructFields (structId : StructId) (span : Span)
    (fields : List (String × (TypeId → CheckResult HirConstValue))) :
    CheckResult (List HirConstValue) := do
  let entry ← unwrap program.types.structs[structId]?
  if fields.length ≠ entry.fields.length then
    diag scope.file span s!"initializer for `{entry.name}` must specify every field"
  entry.fields.mapM fun field =>
    match fields.lookup field.name with
    | some value => value field.ty
    | none => diag scope.file span s!"missing field `{field.name}`"

namespace Checker

mutual

def constValue : Expr → TypeId → CheckResult HirConstValue
  | .mk kind span => constValueKind span kind

def constValueKind (span : Span) : ExprKind → TypeId → CheckResult HirConstValue
  | .integer value, expected => do
      if (← program.types.isInteger expected) then integerConstant program scope value span expected
      else notConstant program scope span expected
  | .unary .neg operand, expected => do
      if (← program.types.isInteger expected) then
        negativeConstant program scope operand span expected
      else notConstant program scope span expected
  | .byte value, expected => do
      match ← program.types.typeAt expected with
      | .int false 8 => return .integer value.toUInt64
      | _ => notConstant program scope span expected
  | .bool value, expected => do
      match ← program.types.typeAt expected with
      | .bool => return .bool value
      | _ => notConstant program scope span expected
  | .byteString bytes, expected => do
      match ← program.types.typeAt expected with
      | .array element len =>
          if (← program.types.typeAt element) = .int false 8 ∧ len = bytes.length.toUInt64 then
            return .bytes bytes
          else notConstant program scope span expected
      | _ => notConstant program scope span expected
  | .array values, expected => do
      match ← program.types.typeAt expected with
      | .array element len =>
          if len = values.length.toUInt64 then return .array (← constValues values element)
          else notConstant program scope span expected
      | _ => notConstant program scope span expected
  | .arrayRepeat value len, expected => do
      match ← program.types.typeAt expected with
      | .array element expectedLen =>
          if len = expectedLen then return .repeat (← constValue value element) len
          else notConstant program scope span expected
      | _ => notConstant program scope span expected
  | .struct path fields, expected => do
      match ← program.types.typeAt expected with
      | .struct id =>
          let qualified ← resolvePath scope program.symbols path
          let expectedName := (← unwrap program.types.structs[id]?).name
          if qualified ≠ expectedName then
            diag scope.file span s!"expected `{expectedName}`, found `{qualified}`"
          return .struct id (← orderConstStructFields program scope id span (constFields fields))
      | _ => notConstant program scope span expected
  | .path path, expected => pathConstant program valueOf scope path span expected
  | _, expected => notConstant program scope span expected

def constValues : List Expr → TypeId → CheckResult (List HirConstValue)
  | [], _ => return []
  | value :: values, element => do
      let value ← constValue value element
      let values ← constValues values element
      return value :: values

def constFields :
    List (String × Expr) → List (String × (TypeId → CheckResult HirConstValue))
  | [] => []
  | (name, value) :: fields => (name, constValue value) :: constFields fields

end

end Checker

end Constants

/-- The value a constant has so far. -/
def ProgramTables.valueOf (program : ProgramTables) (id : ConstId) : CheckResult HirConstValue := do
  return (← unwrap program.consts[id]?).value

def checkConst (id : ConstId) (const : Definition ConstDef) : CheckM Unit := do
  let program := (← get).program
  let expected := (← unwrap program.consts[id]?).ty
  let value ← Checker.constValue program program.valueOf const.scope const.definition.init expected
  modify fun checker => { checker with
    program.consts := checker.program.consts.modify id fun entry => { entry with value } }

def checkStatic (id : StaticId) (static : Definition StaticDef) : CheckM Unit := do
  let program := (← get).program
  let expected := (← unwrap program.statics[id]?).ty
  let init ← Checker.constValue program program.valueOf static.scope static.definition.init expected
  modify fun checker => { checker with
    program.statics := checker.program.statics.modify id fun entry => { entry with init } }

def checkConstantsAndStatics : CheckM Unit := do
  (← get).constDefs.zipIdx.forM fun (definition, id) => checkConst id definition
  (← get).staticDefs.zipIdx.forM fun (definition, id) => checkStatic id definition

end Ostadix.Ocore
