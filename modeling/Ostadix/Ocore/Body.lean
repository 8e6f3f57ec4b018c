import Ostadix.Ocore.Typeck

/-! # The type checker's pass over function bodies

`checkExpr` and the functions it calls take the recursive calls as computations `Check`, which
wait for the expected type. The depths of `unsafe` blocks and loops, which the source counts up and
down, are part of the context here. -/

namespace Ostadix.Ocore

open Ast

def HirExpr.kind : HirExpr → HirExprKind
  | mk kind _ _ => kind

def HirExpr.span : HirExpr → Span
  | mk _ _ span => span

/-! ## State -/

structure BodyContext where
  scope : ModuleScope
  program : ProgramTables
  returnType : TypeId
  unsafeDepth : Nat
  loopDepth : Nat

/-- The innermost of the `scopes` stands first. The type table here takes the place of the one in
the program. -/
structure BodyState where
  types : TypeTable
  locals : List LocalEntry
  scopes : List (List (String × LocalId))

abbrev BodyM := StateT BodyState CheckResult

abbrev Check := Option TypeId → BodyM HirExpr

namespace BodyContext

def enterLoop (cx : BodyContext) : BodyContext :=
  { cx with loopDepth := cx.loopDepth + 1 }

def enterUnsafe (cx : BodyContext) : BodyContext :=
  { cx with unsafeDepth := cx.unsafeDepth + 1 }

end BodyContext

def bodyType (ty : TypeId) : BodyM HirType := do
  (← get).types.typeAt ty

def internBody (ty : HirType) : BodyM TypeId :=
  modifyGet fun state =>
    let (id, types) := state.types.intern ty
    (id, { state with types })

def lookupLocal (name : String) : BodyM (Option LocalId) := do
  return (← get).scopes.findSome? (·.lookup name)

section Body

variable (cx : BodyContext)

def bodyError {α : Type} (span : Span) (message : String) : BodyM α :=
  diag cx.scope.file span message

def resolveBodyPath (path : Path) : BodyM String :=
  resolvePath cx.scope cx.program.symbols path

def resolveBodyType (ty : TypeExpr) : BodyM TypeId := fun state => do
  let (id, types) ← resolveType cx.scope cx.program.symbols ty state.types
  return (id, { state with types })

def expectAssignable (actual expected : TypeId) (span : Span) : BodyM Unit := do
  if actual ≠ expected then
    if (← bodyType actual) ≠ .never then
      let expectedName ← (← get).types.name expected
      let actualName ← (← get).types.name actual
      bodyError cx span s!"expected `{expectedName}`, found `{actualName}`"

def ensureIntegerFits (value : UInt64) (ty : TypeId) (span : Span) : BodyM Unit := do
  match positiveIntegerLimit (← bodyType ty) with
  | none => bodyError cx span "integer literal used with non-integer type"
  | some limit =>
      if value > limit then
        let name ← (← get).types.name ty
        bodyError cx span s!"literal `{value}` does not fit `{name}`"

def requireUnsafe (span : Span) (operation : String) : BodyM Unit := do
  if cx.unsafeDepth = 0 then
    bodyError cx span s!"{operation} requires an explicit unsafe block"

/-! ## Places -/

/-- Whether a place may be written, as far as the check of it goes: behind a field or an index
only the base is looked at. -/
def isMutablePlace (statics : List StaticEntry) (locals : List LocalEntry) (types : TypeTable) :
    HirExpr → CheckResult Bool
  | .mk (.local id) _ _ => do return (← unwrap locals[id]?).mutable
  | .mk (.static id) _ _ => do return (← unwrap statics[id]?).mutable
  | .mk (.unary .deref operand) _ _ => do
      match ← types.typeAt operand.ty with
      | .pointer true _ => return true
      | _ => return false
  | .mk (.field base _ _) _ _ => isMutablePlace statics locals types base
  | .mk (.index base _) _ _ => isMutablePlace statics locals types base
  | _ => return false

def isPlace : HirExprKind → Bool
  | .local _ | .static _ | .unary .deref _ | .field .. | .index .. => true
  | _ => false

def ensurePlace (expr : HirExpr) (mutable : Bool) : BodyM Unit := do
  if mutable then
    let state ← get
    if !(← isMutablePlace cx.program.statics state.locals state.types expr) then
      bodyError cx expr.span "target is not a mutable place"
  else if !isPlace expr.kind then
    bodyError cx expr.span "expression is not addressable"

/-! ## Literals and aggregates -/

def checkInteger (value : UInt64) (span : Span) (expected : Option TypeId) :
    BodyM (HirExprKind × TypeId) := do
  let types := (← get).types
  let ty ← match expected with
    | some ty => do if (← types.isInteger ty) then pure ty else primitiveId "u64"
    | none => primitiveId "u64"
  ensureIntegerFits cx value ty span
  return (.constant (.integer value), ty)

def checkByteString (bytes : List UInt8) : BodyM (HirExprKind × TypeId) := do
  let byte ← primitiveId "u8"
  let ty ← internBody (.array byte bytes.length.toUInt64)
  return (.constant (.bytes bytes), ty)

/-- The element type that an expected array type of the given length asks for. -/
def expectedElement (expected : Option TypeId) (len : UInt64) : BodyM (Option TypeId) := do
  match expected with
  | none => return none
  | some ty =>
      match ← bodyType ty with
      | .array element expectedLen => return if expectedLen = len then some element else none
      | _ => return none

def checkElements : List Check → Option TypeId → BodyM (List HirExpr × Option TypeId)
  | [], element => return ([], element)
  | check :: checks, element => do
      let value ← check element
      if let some ty := element then
        expectAssignable cx value.ty ty value.span
      let (values, last) ← checkElements checks (some (element.getD value.ty))
      return (value :: values, last)

def checkArray (values : List Check) (span : Span) (expected : Option TypeId) :
    BodyM (HirExprKind × TypeId) := do
  let (checked, element) ←
    checkElements cx values (← expectedElement expected values.length.toUInt64)
  match element with
  | none => bodyError cx span "cannot infer type of empty array"
  | some element =>
      let ty ← internBody (.array element checked.length.toUInt64)
      return (.array checked, ty)

def checkArrayRepeat (value : Check) (len : UInt64) (expected : Option TypeId) :
    BodyM (HirExprKind × TypeId) := do
  let element ← expectedElement expected len
  let value ← value element
  if let some element := element then
    expectAssignable cx value.ty element value.span
  let ty ← internBody (.array (element.getD value.ty) len)
  return (.arrayRepeat value len, ty)

def checkStructFields (entry : StructEntry) (span : Span) :
    List (String × Check) → List Nat → BodyM (List (Nat × HirExpr))
  | [], _ => return []
  | (name, check) :: fields, seen => do
      match entry.fields.findIdx? (·.name == name) with
      | none => bodyError cx span s!"unknown field `{name}`"
      | some index =>
          if index ∈ seen then
            bodyError cx span s!"duplicate field `{name}`"
          let field ← unwrap entry.fields[index]?
          let value ← check (some field.ty)
          expectAssignable cx value.ty field.ty value.span
          let rest ← checkStructFields entry span fields (index :: seen)
          return (index, value) :: rest

def checkStruct (path : Path) (fields : List (String × Check)) (span : Span) :
    BodyM (HirExprKind × TypeId) := do
  let qualified ← resolveBodyPath cx path
  match cx.program.symbols.lookup qualified with
  | some (.type ty) =>
      match ← bodyType ty with
      | .struct id =>
          let entry ← unwrap (← get).types.structs[id]?
          if fields.length ≠ entry.fields.length then
            bodyError cx span "struct initializer must specify every field"
          let ordered ← checkStructFields cx entry span fields []
          return (.struct id ordered, ty)
      | _ => bodyError cx span s!"`{qualified}` is not a struct"
  | _ => bodyError cx span s!"unknown struct `{qualified}`"

/-! ## Operators -/

/-- A negated literal of an expected signed type, which may reach one further than the positive
ones. -/
def signedLiteral (op : UnaryOp) (operand : Expr) (expected : Option TypeId) (span : Span) :
    BodyM (Option HirExpr) := do
  match op, operand, expected with
  | .neg, .mk (.integer value) operandSpan, some ty =>
      let bits : Option UInt16 ← match ← bodyType ty with
        | .int true bits => pure (some bits)
        | .isize => pure (some 64)
        | _ => pure none
      match bits with
      | none => return none
      | some bits =>
          if value > (1 : UInt64) <<< (bits.toUInt64 - 1) then
            bodyError cx span "negative integer literal does not fit its expected signed type"
          return some (.mk (.constant (.integer value)) ty operandSpan)
  | _, _, _ => return none

def unaryType (op : UnaryOp) (operand : HirExpr) (span : Span) : BodyM TypeId := do
  match op with
  | .neg =>
      if !(← (← get).types.isInteger operand.ty) then
        bodyError cx span "unary `-` requires an integer"
      return operand.ty
  | .not =>
      let bool ← primitiveId "bool"
      expectAssignable cx operand.ty bool operand.span
      return bool
  | .bitNot =>
      if !(← (← get).types.isInteger operand.ty) then
        bodyError cx span "unary `~` requires an integer"
      return operand.ty
  | .deref =>
      requireUnsafe cx span "raw pointer dereference"
      match ← bodyType operand.ty with
      | .pointer _ pointee => return pointee
      | _ => bodyError cx span "cannot dereference non-pointer"
  | .addressOf mutable =>
      ensurePlace cx operand mutable
      internBody (.pointer mutable operand.ty)

def checkUnary (op : UnaryOp) (operandAst : Expr) (operand : Check) (span : Span)
    (expected : Option TypeId) : BodyM (HirExprKind × TypeId) := do
  let types := (← get).types
  let operandExpected ← match op, expected with
    | .neg, some ty | .bitNot, some ty =>
        do if (← types.isInteger ty) then pure (some ty) else pure none
    | _, _ => pure none
  let operand ← match ← signedLiteral cx op operandAst operandExpected span with
    | some literal => pure literal
    | none => operand operandExpected
  let ty ← unaryType cx op operand span
  return (.unary op operand, ty)

def BinaryOp.isLogical : BinaryOp → Bool
  | .logicalAnd | .logicalOr => true
  | _ => false

def BinaryOp.isComparison : BinaryOp → Bool
  | .eq | .notEq | .less | .lessEq | .greater | .greaterEq => true
  | _ => false

def BinaryOp.isShift : BinaryOp → Bool
  | .shiftLeft | .shiftRight => true
  | _ => false

def BinaryOp.isAdditive : BinaryOp → Bool
  | .add | .sub => true
  | _ => false

def HirType.isPointer : HirType → Bool
  | .pointer .. => true
  | _ => false

def HirType.isFunction : HirType → Bool
  | .function .. => true
  | _ => false

def binaryType (op : BinaryOp) (lhs rhs : HirExpr) (span : Span) : BodyM TypeId := do
  let bool ← primitiveId "bool"
  let types := (← get).types
  if op.isLogical then
    expectAssignable cx lhs.ty bool lhs.span
    expectAssignable cx rhs.ty bool rhs.span
    return bool
  else if op.isComparison then
    expectAssignable cx rhs.ty lhs.ty rhs.span
    if (← types.isFloat lhs.ty) || (← types.isFloat rhs.ty) then
      bodyError cx span "floating-point comparison code generation is not implemented"
    if !(← types.isScalar lhs.ty) then
      bodyError cx span "comparison requires scalar operands"
    return bool
  else if op.isShift then
    if !(← types.isInteger lhs.ty) then
      bodyError cx lhs.span "shifted value must be an integer"
    if !(← types.isInteger rhs.ty) then
      bodyError cx rhs.span "shift count must be an integer"
    return lhs.ty
  else if (← types.typeAt lhs.ty).isPointer && op.isAdditive && (← types.isInteger rhs.ty) then
    requireUnsafe cx span "raw pointer arithmetic"
    return lhs.ty
  else
    expectAssignable cx rhs.ty lhs.ty rhs.span
    if !(← types.isInteger lhs.ty) then
      bodyError cx span "operator requires integer operands"
    return lhs.ty

def checkBinary (op : BinaryOp) (lhs rhs : Check) (span : Span) (expected : Option TypeId) :
    BodyM (HirExprKind × TypeId) := do
  let lhs ← lhs (if op.isLogical || op.isComparison then none else expected)
  let rhsExpected ←
    if ((← bodyType lhs.ty).isPointer && op.isAdditive) || op.isShift then primitiveId "usize"
    else pure lhs.ty
  let rhs ← rhs (some rhsExpected)
  let ty ← binaryType cx op lhs rhs span
  return (.binary op lhs rhs, ty)

/-- The `Debug` name. -/
def BinaryOp.debug : BinaryOp → String
  | .add => "Add" | .sub => "Sub" | .mul => "Mul" | .div => "Div" | .rem => "Rem"
  | .bitAnd => "BitAnd" | .bitOr => "BitOr" | .bitXor => "BitXor"
  | .shiftLeft => "ShiftLeft" | .shiftRight => "ShiftRight"
  | .eq => "Eq" | .notEq => "NotEq" | .less => "Less" | .lessEq => "LessEq"
  | .greater => "Greater" | .greaterEq => "GreaterEq"
  | .logicalAnd => "LogicalAnd" | .logicalOr => "LogicalOr"

def checkAssign (op : Option BinaryOp) (target value : Check) (span : Span) :
    BodyM (HirExprKind × TypeId) := do
  let target ← target none
  ensurePlace cx target true
  let shiftAssignment := op.any BinaryOp.isShift
  let valueExpected ← if shiftAssignment then primitiveId "usize" else pure target.ty
  let value ← value (some valueExpected)
  if shiftAssignment then
    if !(← (← get).types.isInteger value.ty) then
      bodyError cx value.span "shift count must be an integer"
  else
    expectAssignable cx value.ty target.ty value.span
  if let some op := op then
    if !(← (← get).types.isInteger target.ty) then
      bodyError cx span s!"compound operator `{op.debug}` requires integer target"
  let void ← primitiveId "void"
  return (.assign op target value, void)

def checkField (base : Check) (name : String) (span : Span) : BodyM (HirExprKind × TypeId) := do
  let base ← base none
  match ← bodyType base.ty with
  | .struct id =>
      let entry ← unwrap (← get).types.structs[id]?
      match entry.fields.findIdx? (·.name == name) with
      | none => bodyError cx span s!"unknown field `{name}`"
      | some index =>
          let field ← unwrap entry.fields[index]?
          return (.field base index field.offset, field.ty)
  | _ => bodyError cx span "field access requires a struct value"

def checkIndex (base index : Check) (span : Span) : BodyM (HirExprKind × TypeId) := do
  let base ← base none
  let usize ← primitiveId "usize"
  let index ← index (some usize)
  if !(← (← get).types.isInteger index.ty) then
    bodyError cx index.span "array index must be an integer"
  match ← bodyType base.ty with
  | .array element _ => return (.index base index, element)
  | .pointer _ pointee =>
      requireUnsafe cx span "raw pointer indexing"
      return (.index base index, pointee)
  | _ => bodyError cx base.span "indexing requires an array or pointer"

def checkCast (value : Check) (ty : TypeExpr) (span : Span) : BodyM (HirExprKind × TypeId) := do
  let value ← value none
  let target ← resolveBodyType cx ty
  let fromTy ← bodyType value.ty
  let toTy ← bodyType target
  if fromTy.isFloat || toTy.isFloat then
    bodyError cx span "floating-point cast code generation is not implemented"
  if !fromTy.isScalar || !toTy.isScalar then
    bodyError cx span "casts are limited to scalar types"
  let pointerCrossing :=
    if fromTy.isFunction && toTy.isInteger then false
    else (fromTy.isPointer || fromTy.isFunction) != (toTy.isPointer || toTy.isFunction) ||
      (fromTy.isFunction && toTy.isPointer) || (fromTy.isPointer && toTy.isFunction)
  if pointerCrossing then
    requireUnsafe cx span "pointer/integer cast"
  if value.ty ≠ target && fromTy.isFunction && toTy.isFunction then
    requireUnsafe cx span "function-pointer signature or ABI cast"
  return (.cast value target, target)

/-! ## Inline assembly -/

def requireAsmOperandType (ty : TypeId) (span : Span) : BodyM Unit := do
  let ty ← bodyType ty
  if !ty.isScalar || ty.isFloat then
    bodyError cx span "inline assembly operands require non-floating scalar types"

def checkAsmIn (register : String) (value : Check) : BodyM HirAsmOperand := do
  let value ← value none
  requireAsmOperandType cx value.ty value.span
  return .in register value

def checkAsmOut (register : String) (target : Check) : BodyM HirAsmOperand := do
  let target ← target none
  ensurePlace cx target true
  requireAsmOperandType cx target.ty target.span
  return .out register target

def checkAsmInOut (register : String) (input output : Check) : BodyM HirAsmOperand := do
  let input ← input none
  let output ← output (some input.ty)
  ensurePlace cx output true
  expectAssignable cx output.ty input.ty output.span
  requireAsmOperandType cx input.ty input.span
  requireAsmOperandType cx output.ty output.span
  return .inOut register input output

def runAll {α : Type} : List (BodyM α) → BodyM (List α)
  | [] => return []
  | action :: actions => do
      let first ← action
      let rest ← runAll actions
      return first :: rest

def validateAsmOptions : List String → List String → Except String Unit
  | [], seen =>
      if "nomem" ∈ seen ∧ "readonly" ∈ seen then
        throw "asm options `nomem` and `readonly` are redundant"
      else return ()
  | option :: options, seen => do
      if option ∉ ["nomem", "readonly", "nostack", "preserves_flags"] then
        throw s!"unknown assembly option `{option}`"
      if option ∈ seen then
        throw s!"duplicate assembly option `{option}`"
      validateAsmOptions options (option :: seen)

def checkAsm (template : String) (operands : List (BodyM HirAsmOperand)) (options : List String)
    (span : Span) : BodyM (HirExprKind × TypeId) := do
  requireUnsafe cx span "inline assembly"
  let operands ← runAll operands
  if let .error message := validateAsmOptions options [] then
    bodyError cx span message
  let void ← primitiveId "void"
  return (.asm template operands options, void)

/-! ## Names -/

def memoryOrder : String → Option UInt64
  | "relaxed" => some 0
  | "acquire" => some 1
  | "release" => some 2
  | "acq_rel" => some 3
  | "seq_cst" => some 4
  | _ => none

def checkStaticPath (id : StaticId) (span : Span) : BodyM HirExpr := do
  let entry ← unwrap cx.program.statics[id]?
  if entry.mutable then
    requireUnsafe cx span "access to mutable static"
  return .mk (.static id) entry.ty span

def checkVariantPath (qualified : String) (span : Span) : BodyM HirExpr := do
  match ← resolveEnumVariant cx.program.symbols (← get).types qualified with
  | some (id, variant) =>
      let entry ← unwrap (← get).types.enums[id]?
      if !(← unwrap entry.variants[variant]?).payload.isEmpty then
        bodyError cx span "payload enum variant must be called"
      let ty ← typeForEnum (← get).types id
      return .mk (.enumVariant id variant []) ty span
  | none => bodyError cx span s!"unknown value `{qualified}`"

/-- A path that names neither a local nor a memory order. -/
def checkGlobalPath (path : Path) (span : Span) : BodyM HirExpr := do
  let qualified ← resolveBodyPath cx path
  match cx.program.symbols.lookup qualified with
  | some (.function id) =>
      let function ← unwrap cx.program.functions[id]?
      let params ← function.paramTypes
      let ty ← internBody (.function params function.result function.abi)
      return .mk (.function id) ty span
  | some (.static id) => checkStaticPath cx id span
  | some (.const id) =>
      let entry ← unwrap cx.program.consts[id]?
      return .mk (.constant entry.value) entry.ty span
  | some (.type _) => bodyError cx span s!"type `{qualified}` is not a value"
  | none => checkVariantPath cx qualified span

def checkPath (path : Path) (span : Span) : BodyM HirExpr := do
  match path with
  | [name] =>
      match ← lookupLocal name with
      | some id =>
          let entry ← unwrap (← get).locals[id]?
          return .mk (.local id) entry.ty span
      | none =>
          match memoryOrder name with
          | some order => return .mk (.constant (.integer order)) (← primitiveId "u8") span
          | none => checkGlobalPath cx path span
  | _ => checkGlobalPath cx path span

/-! ## Calls -/

def checkArguments : List (Check × TypeId) → BodyM (List HirExpr)
  | [] => return []
  | (check, expected) :: rest => do
      let arg ← check (some expected)
      expectAssignable cx arg.ty expected arg.span
      let args ← checkArguments rest
      return arg :: args

def checkVariantCall (id : EnumId) (variant : Nat) (args : List Check) (span : Span) :
    BodyM HirExpr := do
  let entry ← unwrap (← get).types.enums[id]?
  let payload := (← unwrap entry.variants[variant]?).payload
  if payload.length ≠ args.length then
    bodyError cx span "wrong number of enum payload arguments"
  let checked ← checkArguments cx (args.zip payload)
  let ty ← typeForEnum (← get).types id
  return .mk (.enumVariant id variant checked) ty span

def HirType.isCallable : HirType → Bool
  | ty => ty.isScalar && !ty.isFloat

def HirType.isResult : HirType → Bool
  | .void | .never => true
  | ty => ty.isCallable

def checkIndirectCall (callee : HirExpr) (args : List Check) (span : Span) : BodyM HirExpr := do
  match ← bodyType callee.ty with
  | .function params result abi =>
      if abi = .interrupt then
        bodyError cx span "interrupt handlers cannot be called indirectly"
      requireUnsafe cx span "indirect function call"
      let paramTys ← params.mapM bodyType
      let resultTy ← bodyType result
      if paramTys.any (!·.isCallable) || !resultTy.isResult then
        bodyError cx span "indirect calls require non-floating scalar arguments and results; pass aggregates through pointers"
      if params.length ≠ args.length then
        bodyError cx span s!"function pointer takes {params.length} arguments, got {args.length}"
      let checked ← checkArguments cx (args.zip params)
      return .mk (.callIndirect callee checked) result span
  | _ => bodyError cx span "call target must have a function-pointer type"

def checkDirectCall (id : FunctionId) (args : List Check) (span : Span) : BodyM HirExpr := do
  let function ← unwrap cx.program.functions[id]?
  if function.abi = .interrupt then
    bodyError cx span "interrupt handlers cannot be called directly"
  if function.unsafe_ then
    requireUnsafe cx span s!"call to unsafe function `{function.qualifiedName}`"
  if function.params.length ≠ args.length then
    bodyError cx span s!"function `{function.qualifiedName}` takes {function.params.length} arguments, got {args.length}"
  let params ← function.paramTypes
  let checked ← checkArguments cx (args.zip params)
  return .mk (.call id checked) function.result span

/-! ## Intrinsics -/

def intrinsicNamed : String → Option Intrinsic
  | "volatile_load" => some .volatileLoad
  | "volatile_store" => some .volatileStore
  | "atomic_load" => some .atomicLoad
  | "atomic_store" => some .atomicStore
  | "atomic_exchange" => some .atomicExchange
  | "atomic_compare_exchange" => some .atomicCompareExchange
  | "atomic_fetch_add" => some .atomicFetchAdd
  | "inb" => some .in8
  | "inw" => some .in16
  | "inl" => some .in32
  | "outb" => some .out8
  | "outw" => some .out16
  | "outl" => some .out32
  | "enable_interrupts" => some .enableInterrupts
  | "disable_interrupts" => some .disableInterrupts
  | "halt" => some .halt
  | "invalidate_page" => some .invalidatePage
  | "syscall0" => some (.syscall 0)
  | "syscall1" => some (.syscall 1)
  | "syscall2" => some (.syscall 2)
  | "syscall3" => some (.syscall 3)
  | "syscall4" => some (.syscall 4)
  | "syscall5" => some (.syscall 5)
  | "syscall6" => some (.syscall 6)
  | _ => none

def checkVolatileLoad (args : List Check) (span : Span) : BodyM HirExpr := do
  match args with
  | [pointer] =>
      let arg ← pointer none
      match ← bodyType arg.ty with
      | .pointer _ pointee =>
          if !(← (← get).types.isScalar pointee) then
            bodyError cx arg.span "volatile_load currently requires a scalar pointee"
          return .mk (.intrinsic .volatileLoad [arg]) pointee span
      | _ => bodyError cx arg.span "volatile_load requires a pointer"
  | _ => bodyError cx span "volatile_load takes one pointer"

def checkVolatileStore (args : List Check) (span : Span) : BodyM HirExpr := do
  match args with
  | [pointer, value] =>
      let pointer ← pointer none
      match ← bodyType pointer.ty with
      | .pointer true pointee =>
          if !(← (← get).types.isScalar pointee) then
            bodyError cx pointer.span "volatile_store currently requires a scalar pointee"
          let value ← value (some pointee)
          expectAssignable cx value.ty pointee value.span
          let void ← primitiveId "void"
          return .mk (.intrinsic .volatileStore [pointer, value]) void span
      | _ => bodyError cx pointer.span "volatile_store requires a mutable pointer"
  | _ => bodyError cx span "volatile_store takes a pointer and value"

def validateMemoryOrder (intrinsic : Intrinsic) (order : UInt64) : Except String Unit :=
  if order > 4 then throw "invalid memory ordering"
  else if intrinsic = .atomicLoad ∧ (order = 2 ∨ order = 3) then
    throw "atomic load cannot use release or acq_rel ordering"
  else if intrinsic = .atomicStore ∧ (order = 1 ∨ order = 3) then
    throw "atomic store cannot use acquire or acq_rel ordering"
  else return ()

def compareExchangeOrders (success failure : UInt64) : Bool :=
  if success = 0 ∨ success = 2 then failure = 0
  else if success = 1 ∨ success = 3 then failure = 0 || failure = 1
  else if success = 4 then failure = 0 || failure = 1 || failure = 4
  else false

def checkOrders (intrinsic : Intrinsic) : List Check → BodyM (List (UInt64 × HirExpr))
  | [] => return []
  | check :: checks => do
      let byte ← primitiveId "u8"
      let order ← check (some byte)
      expectAssignable cx order.ty byte order.span
      match order with
      | .mk (.constant (.integer value)) ty span =>
          if value > 255 then
            bodyError cx span "invalid memory ordering"
          if let .error message := validateMemoryOrder intrinsic value then
            bodyError cx span message
          let rest ← checkOrders intrinsic checks
          return (value, .mk (.constant (.integer value)) ty span) :: rest
      | _ => bodyError cx order.span "memory ordering must be a named ordering constant"

/-- How many values and how many orders an atomic intrinsic takes behind its pointer. -/
def atomicCounts : Intrinsic → Option (Nat × Nat)
  | .atomicLoad => some (0, 1)
  | .atomicStore | .atomicExchange | .atomicFetchAdd => some (1, 1)
  | .atomicCompareExchange => some (2, 2)
  | _ => none

def checkAtomicPointer (intrinsic : Intrinsic) (pointer : HirExpr) : BodyM TypeId := do
  match ← bodyType pointer.ty with
  | .pointer mutable pointee =>
      let types := (← get).types
      if !(← types.isInteger pointee) then
        bodyError cx pointer.span "atomic pointee must be a 1/2/4/8-byte integer"
      let layout ← unwrap (types.context.layout pointee)
      if layout.size ∉ [1, 2, 4, 8] then
        bodyError cx pointer.span "atomic pointee must be a 1/2/4/8-byte integer"
      if !mutable ∧ intrinsic ≠ .atomicLoad then
        bodyError cx pointer.span "mutating atomic operation requires `*mut`"
      return pointee
  | _ => bodyError cx pointer.span "atomic operation requires a pointer"

def checkAtomic (intrinsic : Intrinsic) (args : List Check) (span : Span) : BodyM HirExpr := do
  let (valueCount, orderCount) ← unwrap (atomicCounts intrinsic)
  let expectedCount := 1 + valueCount + orderCount
  match args with
  | pointer :: rest =>
      if args.length ≠ expectedCount then
        bodyError cx span s!"atomic intrinsic takes {expectedCount} arguments"
      let pointer ← pointer none
      let pointee ← checkAtomicPointer cx intrinsic pointer
      let values ← checkArguments cx ((rest.take valueCount).map (·, pointee))
      let orders ← checkOrders cx intrinsic (rest.drop valueCount)
      if let (.atomicCompareExchange, [success, failure]) := (intrinsic, orders.map Prod.fst) then
        if !compareExchangeOrders success failure then
          bodyError cx span "compare-exchange failure ordering must be load-only and no stronger than success ordering"
      let result ← if intrinsic = .atomicStore then primitiveId "void" else pure pointee
      return .mk (.intrinsic intrinsic (pointer :: values ++ orders.map Prod.snd)) result span
  | [] => bodyError cx span s!"atomic intrinsic takes {expectedCount} arguments"

/-- The argument types and the result type of the intrinsics that have fixed ones. -/
def intrinsicSignature : Intrinsic → Option (List String × String)
  | .in8 => some (["u16"], "u8")
  | .in16 => some (["u16"], "u16")
  | .in32 => some (["u16"], "u32")
  | .out8 => some (["u16", "u8"], "void")
  | .out16 => some (["u16", "u16"], "void")
  | .out32 => some (["u16", "u32"], "void")
  | .enableInterrupts | .disableInterrupts | .halt => some ([], "void")
  | .invalidatePage => some (["usize"], "void")
  | .syscall count => some (List.replicate (count.toNat + 1) "u64", "u64")
  | _ => none

def checkIntrinsic (intrinsic : Intrinsic) (args : List Check) (span : Span) : BodyM HirExpr := do
  requireUnsafe cx span "hardware/runtime intrinsic"
  match intrinsicSignature intrinsic with
  | some (params, result) =>
      if params.length ≠ args.length then
        bodyError cx span s!"intrinsic takes {params.length} arguments, got {args.length}"
      let params ← params.mapM fun name => primitiveId name
      let checked ← checkArguments cx (args.zip params)
      return .mk (.intrinsic intrinsic checked) (← primitiveId result) span
  | none =>
      match intrinsic with
      | .volatileLoad => checkVolatileLoad cx args span
      | .volatileStore => checkVolatileStore cx args span
      | _ => checkAtomic cx intrinsic args span

def checkCallee (callee : Check) (args : List Check) (span : Span) : BodyM HirExpr := do
  let callee ← callee none
  match callee.kind with
  | .function id => checkDirectCall cx id args span
  | _ => checkIndirectCall cx callee args span

/-- A call whose callee is written as a path may be an intrinsic or an enum variant. -/
def checkPathCall (path : Path) (callee : Check) (args : List Check) (span : Span) :
    BodyM HirExpr := do
  let qualified ← resolveBodyPath cx path
  let builtin ← match path with
    | [name] => do
        if (← lookupLocal name).isNone && (cx.program.symbols.lookup qualified).isNone then
          pure (intrinsicNamed name)
        else pure none
    | _ => pure none
  match builtin with
  | some intrinsic => checkIntrinsic cx intrinsic args span
  | none =>
      match ← resolveEnumVariant cx.program.symbols (← get).types qualified with
      | some (id, variant) => checkVariantCall cx id variant args span
      | none => checkCallee cx callee args span

/-! ## Expressions -/

/-- Compare the type of an expression with the expected one. -/
def finishExpr (span : Span) (expected : Option TypeId) (checked : BodyM (HirExprKind × TypeId)) :
    BodyM HirExpr := do
  let (kind, ty) ← checked
  if let some expected := expected then
    expectAssignable cx ty expected span
  return .mk kind ty span

mutual

def checkExpr : Expr → Check
  | .mk kind span => checkKind span kind

def checkKind (span : Span) : ExprKind → Check
  | .integer value => fun expected =>
      finishExpr cx span expected (checkInteger cx value span expected)
  | .byte value => fun expected => finishExpr cx span expected do
      return (.constant (.integer value.toUInt64), ← primitiveId "u8")
  | .bool value => fun expected => finishExpr cx span expected do
      return (.constant (.bool value), ← primitiveId "bool")
  | .string _ => fun _ => bodyError cx span
      "runtime strings are not implicit in freestanding O-core; use a byte string"
  | .byteString bytes => fun expected => finishExpr cx span expected (checkByteString bytes)
  | .path path => fun _ => checkPath cx path span
  | .array values => fun expected =>
      finishExpr cx span expected (checkArray cx (checkList values) span expected)
  | .arrayRepeat value len => fun expected =>
      finishExpr cx span expected (checkArrayRepeat cx (checkExpr value) len expected)
  | .struct path fields => fun expected =>
      finishExpr cx span expected (checkStruct cx path (checkFieldList fields) span)
  | .unary op operand => fun expected =>
      finishExpr cx span expected (checkUnary cx op operand (checkExpr operand) span expected)
  | .binary op lhs rhs => fun expected =>
      finishExpr cx span expected (checkBinary cx op (checkExpr lhs) (checkExpr rhs) span expected)
  | .assign op target value => fun expected =>
      finishExpr cx span expected (checkAssign cx op (checkExpr target) (checkExpr value) span)
  | .call callee args => fun _ =>
      match callee with
      | .mk (.path path) _ => checkPathCall cx path (checkExpr callee) (checkList args) span
      | _ => checkCallee cx (checkExpr callee) (checkList args) span
  | .field base name => fun expected =>
      finishExpr cx span expected (checkField cx (checkExpr base) name span)
  | .index base index => fun expected =>
      finishExpr cx span expected (checkIndex cx (checkExpr base) (checkExpr index) span)
  | .cast value ty => fun expected =>
      finishExpr cx span expected (checkCast cx (checkExpr value) ty span)
  | .asm template operands options => fun expected =>
      finishExpr cx span expected (checkAsm cx template (checkOperands operands) options span)

def checkList : List Expr → List Check
  | [] => []
  | expr :: exprs => checkExpr expr :: checkList exprs

def checkFieldList : List (String × Expr) → List (String × Check)
  | [] => []
  | (name, value) :: fields => (name, checkExpr value) :: checkFieldList fields

def checkOperands : List AsmOperand → List (BodyM HirAsmOperand)
  | [] => []
  | .in register value :: operands => checkAsmIn cx register (checkExpr value) :: checkOperands operands
  | .out register target :: operands =>
      checkAsmOut cx register (checkExpr target) :: checkOperands operands
  | .inOut register input output :: operands =>
      checkAsmInOut cx register (checkExpr input) (checkExpr output) :: checkOperands operands

end

end Body

/-! ## Statements -/

def pushScope (state : BodyState) : BodyState :=
  { state with scopes := [] :: state.scopes }

def popScope (state : BodyState) : BodyState :=
  { state with scopes := state.scopes.tail }

def declareLocal (name : String) (ty : TypeId) (mutable : Bool) : BodyM LocalId :=
  modifyGet fun state =>
    let id := state.locals.length
    (id, { state with
      locals := state.locals ++ [⟨⟨ty⟩, name, mutable⟩]
      scopes := state.scopes.modifyHead ((name, id) :: ·) })

def checkLet (cx : BodyContext) (mutable : Bool) (name : String) (ty : Option TypeExpr)
    (init : Check) (span : Span) : BodyM HirStmt := do
  let innermost ← unwrap (← get).scopes.head?
  if (innermost.lookup name).isSome then
    bodyError cx span s!"duplicate local `{name}`"
  let declared ← match ty with
    | none => pure none
    | some ty => some <$> resolveBodyType cx ty
  let init ← init declared
  let localTy := declared.getD init.ty
  expectAssignable cx init.ty localTy init.span
  let id ← declareLocal name localTy mutable
  return .let id init

def checkCondition (cx : BodyContext) (condition : Check) : BodyM HirExpr := do
  let bool ← primitiveId "bool"
  let condition ← condition (some bool)
  expectAssignable cx condition.ty bool condition.span
  return condition

def checkReturn (cx : BodyContext) (value : Option Check) (span : Span) : BodyM HirStmt := do
  match value with
  | some value =>
      let value ← value (some cx.returnType)
      expectAssignable cx value.ty cx.returnType value.span
      return .return (some value)
  | none =>
      if cx.returnType ≠ (← primitiveId "void") then
        let name ← (← get).types.name cx.returnType
        bodyError cx span s!"return value of type `{name}` required"
      return .return none

mutual

def checkBlock (cx : BodyContext) : Block → BodyM HirBlock
  | .mk stmts _ => do
      modify pushScope
      let stmts ← checkStmts cx stmts
      modify popScope
      return .mk stmts

def checkStmts (cx : BodyContext) : List Stmt → BodyM (List HirStmt)
  | [] => return []
  | stmt :: stmts => do
      let stmt ← checkStmt cx stmt
      let stmts ← checkStmts cx stmts
      return stmt :: stmts

def checkStmt (cx : BodyContext) : Stmt → BodyM HirStmt
  | .mk kind span => checkStmtKind cx span kind

def checkStmtKind (cx : BodyContext) (span : Span) : StmtKind → BodyM HirStmt
  | .let mutable name ty init => checkLet cx mutable name ty (checkExpr cx init) span
  | .expr expr => do return .expr (← checkExpr cx expr none)
  | .if condition thenBlock none => do
      let condition ← checkCondition cx (checkExpr cx condition)
      let thenBlock ← checkBlock cx thenBlock
      return .if condition thenBlock none
  | .if condition thenBlock (some elseBlock) => do
      let condition ← checkCondition cx (checkExpr cx condition)
      let thenBlock ← checkBlock cx thenBlock
      let elseBlock ← checkBlock cx elseBlock
      return .if condition thenBlock (some elseBlock)
  | .while condition body => do
      let condition ← checkCondition cx (checkExpr cx condition)
      let body ← checkBlock cx.enterLoop body
      return .while condition body
  | .loop body => do return .loop (← checkBlock cx.enterLoop body)
  | .unsafeBlock body => do return .unsafeBlock (← checkBlock cx.enterUnsafe body)
  | .return value => checkReturn cx (value.map (checkExpr cx)) span
  | .break => do
      if cx.loopDepth = 0 then
        bodyError cx span "`break` outside a loop"
      return .break
  | .continue => do
      if cx.loopDepth = 0 then
        bodyError cx span "`continue` outside a loop"
      return .continue

end

/-! ## Falling through -/

section Terminates

variable (never : TypeId)

mutual

def exprTerminates : HirExpr → Bool
  | .mk kind ty _ => ty == never || kindTerminates kind

def kindTerminates : HirExprKind → Bool
  | .call _ args | .intrinsic _ args | .enumVariant _ _ args | .array args => listTerminates args
  | .callIndirect callee args => exprTerminates callee || listTerminates args
  | .struct _ fields => fieldsTerminate fields
  | .arrayRepeat value _ | .cast value _ | .unary _ value | .field value _ _ => exprTerminates value
  | .binary op lhs rhs => exprTerminates lhs || (!op.isLogical && exprTerminates rhs)
  | .assign _ target value => exprTerminates target || exprTerminates value
  | .index base index => exprTerminates base || exprTerminates index
  | .asm _ operands _ => operandsTerminate operands
  | .constant _ | .local _ | .static _ | .function _ => false

def listTerminates : List HirExpr → Bool
  | [] => false
  | expr :: exprs => exprTerminates expr || listTerminates exprs

def fieldsTerminate : List (Nat × HirExpr) → Bool
  | [] => false
  | (_, value) :: fields => exprTerminates value || fieldsTerminate fields

def operandsTerminate : List HirAsmOperand → Bool
  | [] => false
  | .in _ value :: operands => exprTerminates value || operandsTerminate operands
  | .out _ target :: operands => exprTerminates target || operandsTerminate operands
  | .inOut _ input output :: operands =>
      (exprTerminates input || exprTerminates output) || operandsTerminate operands

end

end Terminates

mutual

def loopHasBreak : HirBlock → Bool
  | .mk stmts => stmtsHaveBreak stmts

def stmtsHaveBreak : List HirStmt → Bool
  | [] => false
  | stmt :: stmts => stmtHasBreak stmt || stmtsHaveBreak stmts

def stmtHasBreak : HirStmt → Bool
  | .break => true
  | .if _ thenBlock none => loopHasBreak thenBlock
  | .if _ thenBlock (some elseBlock) => loopHasBreak thenBlock || loopHasBreak elseBlock
  | .unsafeBlock block => loopHasBreak block
  | _ => false

end

mutual

def blockTerminates (never : TypeId) : HirBlock → Bool
  | .mk stmts => stmtsTerminate never stmts

def stmtsTerminate (never : TypeId) : List HirStmt → Bool
  | [] => false
  | stmt :: stmts => stmtTerminates never stmt || stmtsTerminate never stmts

def stmtTerminates (never : TypeId) : HirStmt → Bool
  | .return _ => true
  | .let _ init => exprTerminates never init
  | .expr expr => exprTerminates never expr
  | .if condition _ none => exprTerminates never condition
  | .if condition thenBlock (some elseBlock) =>
      exprTerminates never condition ||
        (blockTerminates never thenBlock && blockTerminates never elseBlock)
  | .while condition _ => exprTerminates never condition
  | .loop body => !loopHasBreak body
  | .unsafeBlock block => blockTerminates never block
  | .break | .continue => false

end

/-! ## Functions and programs -/

/-- The last parameter of a name is the one the body sees. -/
def paramScope (locals : List LocalEntry) : List (String × LocalId) :=
  (locals.zipIdx.map fun (entry, id) => (entry.name, id)).reverse

def checkFallThrough (file : String) (span : Span) (types : TypeTable) (function : FunctionEntry)
    (body : HirBlock) : CheckResult Unit := do
  let resultTy ← types.typeAt function.result
  let never ← primitiveId "never"
  if !blockTerminates never body then
    if resultTy = .never then
      diag file span "function returning `never` must not fall through"
    if resultTy ≠ .void then
      let name ← types.name function.result
      diag file span s!"function `{function.qualifiedName}` may fall through without returning `{name}`"

def checkFunctionBody (id : FunctionId) (definition : Definition Function) : CheckM Unit := do
  match definition.definition.body with
  | none => return ()
  | some body =>
      let program := (← get).program
      let function ← unwrap program.functions[id]?
      let cx : BodyContext := ⟨definition.scope, program, function.result,
        if function.unsafe_ then 1 else 0, 0⟩
      let (checked, state) ←
        checkBlock cx body ⟨program.types, function.locals, [paramScope function.locals]⟩
      checkFallThrough definition.scope.file body.span state.types function checked
      modify fun checker => { checker with
        program.types := state.types
        program.functions := checker.program.functions.set id
          { function with locals := state.locals, body := some checked } }

def checkFunctionBodies : CheckM Unit := do
  (← get).functionDefs.zipIdx.forM fun (definition, id) => checkFunctionBody id definition

/-- The names and definitions of types. -/
def declareTypes (order : HashOrder) (modules : List (String × SourceModule)) :
    CheckResult (List (ModuleScope × SourceModule) × Checker) := do
  let scopes ← buildModuleScopes modules []
  let modules := scopes.zip (modules.map Prod.snd)
  let (_, checker) ← (do collectTypeNames modules; defineTypes order : CheckM Unit) .new
  return (modules, checker)

/-- Everything before the values of constants: types with their layouts, and signatures. -/
def declare (overflow : Overflow) (order : HashOrder) (modules : List (String × SourceModule)) :
    CheckResult Checker := do
  let (modules, checker) ← declareTypes order modules
  let (_, checker) ← (do layOutTypes overflow; collectValueSignatures modules : CheckM Unit) checker
  return checker

def check (overflow : Overflow) (order : HashOrder) (modules : List (String × SourceModule)) :
    CheckResult ProgramTables := do
  let checker ← declare overflow order modules
  let (_, checker) ← (do checkConstantsAndStatics; checkFunctionBodies : CheckM Unit) checker
  return checker.program

end Ostadix.Ocore
