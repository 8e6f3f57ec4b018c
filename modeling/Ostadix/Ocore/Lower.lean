import Ostadix.Ocore.Mir

/-! # Lowering of HIR to MIR

The three mutually recursive functions `lowerExpr`, `lowerPlace` and `lowerInitializer`, the
lowering of statements and blocks, and of a whole program. What the lowering does with the
results of recursive calls stands in functions of its own that take those calls as
computations. -/

namespace Ostadix.Ocore

/-! ## Places -/

def localPlace (id : LocalId) (ty : TypeId) : Place :=
  ⟨.local id, [], ty⟩

def pointerPlace (pointer : BuilderM ValueId) (ty : TypeId) : BuilderM Place := do
  return ⟨.pointer (← pointer), [], ty⟩

def fieldPlace (base : BuilderM Place) (offset : UInt64) (ty : TypeId) : BuilderM Place :=
  unlessDiverged base pure fun place => pure (place.project (.field offset) ty)

/-- An indexed place: a pointer is evaluated, an array is taken as a place itself. -/
def indexPlace (cx : LowerContext) (baseTy : TypeId) (pointer : BuilderM ValueId)
    (array : BuilderM Place) (index : BuilderM ValueId) (ty : TypeId) (span : Span) :
    BuilderM Place := do
  let elementSize := (← cx.layout ty).size
  let base :=
    match ← cx.typeAt baseTy with
    | .pointer .. => pointerPlace pointer ty
    | .array .. => array
    | _ => cx.error span "invalid indexed place"
  unlessDiverged base pure fun place =>
    unlessDiverged index (fun _ => pure place) fun index =>
      pure (place.project (.index index elementSize) ty)

/-! ## Expressions -/

def loadPlace (place : BuilderM Place) (ty : TypeId) : BuilderM ValueId :=
  unlessDiverged place (fun _ => divergedValue) fun place =>
    defineValue ty (.load · place false)

/-- The short-circuit join after the left operand: the right one is evaluated in a block of its
own, the other way a constant is taken. -/
def joinShortCircuit (op : BinaryOp) (lhs : ValueId) (rhs : BuilderM ValueId) (ty : TypeId) :
    BuilderM ValueId := do
  let rhsBlock ← newBlock
  let constantBlock ← newBlock
  let joinBlock ← newBlock
  terminate (if op = .logicalAnd then .branch lhs rhsBlock constantBlock
    else .branch lhs constantBlock rhsBlock)
  setCurrent rhsBlock
  let rhs ← rhs
  let rhsPredecessor := (← get).current
  let rhsReturns := !(← currentTerminated)
  jumpUnlessTerminated joinBlock
  setCurrent constantBlock
  let constant ← constValue (if op = .logicalAnd then 0 else 1) ty
  terminate (.jump joinBlock)
  setCurrent joinBlock
  let incoming := [(constantBlock, constant)]
  defineValue ty fun dst =>
    .phi dst (if rhsReturns then (rhsPredecessor, rhs) :: incoming else incoming)

def lowerShortCircuit (op : BinaryOp) (lhs rhs : BuilderM ValueId) (ty : TypeId) :
    BuilderM ValueId :=
  unlessDiverged lhs pure fun lhs => joinShortCircuit op lhs rhs ty

/-- Store an assigned scalar; the assignment itself has the value of a void expression. -/
def storeAssigned (place : Place) (assigned : BuilderM ValueId) (ty : TypeId) : BuilderM ValueId :=
  unlessDiverged assigned pure fun value => do
    emit (.store place value false)
    constValue 0 ty

/-- Assignment to an evaluated place; `source` and `value` lower the right side as a place and
as a value. -/
def assignPlace (cx : LowerContext) (op : Option BinaryOp) (targetTy : TypeId) (place : Place)
    (source : BuilderM Place) (value : BuilderM ValueId) (ty : TypeId) : BuilderM ValueId :=
  match op with
  | some op =>
      storeAssigned place (do
        let old ← defineValue targetTy (.load · place false)
        unlessDiverged value pure fun rhs => defineValue targetTy (.binary · op old rhs)) ty
  | none => do
      if ← cx.isScalar targetTy then storeAssigned place value ty
      else
        unlessDiverged source (fun _ => divergedValue) fun source => do
          let layout ← cx.layout targetTy
          emit (.copy place source layout.size)
          constValue 0 ty

def lowerArguments : List (BuilderM ValueId) → BuilderM (List ValueId)
  | [] => pure []
  | arg :: args =>
      unlessDiverged arg (fun value => pure [value]) fun value => do
        return value :: (← lowerArguments args)

/-- A call defines a value unless it returns nothing. A call that never returns gets its
placeholder before the call and ends the block. -/
def emitCall (cx : LowerContext) (ty : TypeId) (call : Option ValueId → Instruction) :
    BuilderM ValueId := do
  let void ← cx.primitive "void"
  let never ← cx.primitive "never"
  if ty = never then
    let value ← constValue 0 ty
    emit (call none)
    terminate .unreachable
    return value
  else if ty = void then
    emit (call none)
    constValue 0 ty
  else
    defineValue ty (call ∘ some)

def lowerIntrinsic (cx : LowerContext) (intrinsic : Intrinsic) (args : List (BuilderM ValueId))
    (argTys : List TypeId) (ty : TypeId) : BuilderM ValueId := do
  if intrinsic = .volatileLoad then
    let pointer ← orPanic args[0]?
    unlessDiverged pointer pure fun pointer =>
      defineValue ty (.load · ⟨.pointer pointer, [], ty⟩ true)
  else if intrinsic = .volatileStore then
    let pointer ← orPanic args[0]?
    unlessDiverged pointer pure fun pointer => do
      let value ← orPanic args[1]?
      let valueTy ← orPanic argTys[1]?
      unlessDiverged value pure fun value => do
        emit (.store ⟨.pointer pointer, [], valueTy⟩ value true)
        constValue 0 ty
  else
    unlessDiverged (lowerArguments args) (fun _ => divergedValue) fun args => do
      let void ← cx.primitive "void"
      if ty = void then
        emit (.intrinsic none intrinsic args)
        constValue 0 ty
      else
        defineValue ty fun dst => .intrinsic (some dst) intrinsic args

/-- Lower asm operands in order, then go on with all of them. -/
def lowerAsmOperands :
    List ((MirAsmOperand → BuilderM ValueId) → BuilderM ValueId) → List MirAsmOperand →
    (List MirAsmOperand → BuilderM ValueId) → BuilderM ValueId
  | [], operands, next => next operands
  | first :: rest, operands, next =>
      first fun operand => lowerAsmOperands rest (operands ++ [operand]) next

/-! ## Initializers -/

/-- The array type of an initialized place. -/
def elementType (cx : LowerContext) (place : Place) (span : Span) (message : String) :
    BuilderM TypeId := do
  match ← cx.typeAt place.ty with
  | .array element _ => return element
  | _ => cx.error span message

def initializeStruct (cx : LowerContext) (place : Place) (structId : StructId)
    (fields : List (Nat × (Place → BuilderM Unit))) : BuilderM Unit := do
  let definition ← orPanic cx.types.structs[structId]?
  untilDiverged (fields.map fun (index, fill) => do
    let field ← orPanic definition.fields[index]?
    fill (place.project (.field field.offset) field.ty))

/-- The payload of an enum value, one argument per payload type, at increasing offsets. -/
def initializePayload (cx : LowerContext) (place : Place) (payloadOffset : UInt64) :
    UInt64 → List (TypeId × (Place → BuilderM Unit)) → BuilderM Unit
  | _, [] => pure ()
  | offset, (ty, fill) :: rest => do
      let layout ← cx.layout ty
      let offset := alignUp offset layout.align
      unlessDiverged (fill (place.project (.field (payloadOffset + offset)) ty))
        (fun _ => pure ())
        fun _ => initializePayload cx place payloadOffset (offset + layout.size) rest

def tagType (cx : LowerContext) (tagSize : UInt64) : BuilderM TypeId :=
  if tagSize = 1 then cx.primitive "u8"
  else if tagSize = 2 then cx.primitive "u16"
  else if tagSize = 4 then cx.primitive "u32"
  else throw .panic

def initializeEnum (cx : LowerContext) (place : Place) (enumId : EnumId) (variant : Nat)
    (args : List (Place → BuilderM Unit)) : BuilderM Unit := do
  let definition ← orPanic cx.types.enums[enumId]?
  let tagTy ← tagType cx definition.tagSize
  let tag ← constValue (UInt64.ofNat variant) tagTy
  emit (.store { place with ty := tagTy } tag false)
  let definitionVariant ← orPanic definition.variants[variant]?
  initializePayload cx place definition.payloadOffset 0 (definitionVariant.payload.zip args)

def initializeElements (cx : LowerContext) (place : Place) (element : TypeId)
    (values : List (Place → BuilderM Unit)) : BuilderM Unit := do
  let elementSize := (← cx.layout element).size
  untilDiverged (values.zipIdx.map fun (fill, index) => do
    let indexValue ← constValue (UInt64.ofNat index) (← cx.primitive "usize")
    fill (place.project (.index indexValue elementSize) element))

/-- The stores of a repeated element, after its operand was evaluated once. -/
def repeatElements (cx : LowerContext) (place : Place) (element : TypeId) (elementSize : UInt64)
    (len : UInt64) (span : Span) (write : Place → Instruction) : BuilderM Unit :=
  (List.range len.toNat).forM fun index => do
    match checkedMul (UInt64.ofNat index) elementSize with
    | some offset => emit (write (place.project (.field offset) element))
    | none => cx.error span "array repeat element offset overflow"

def initializeRepeat (cx : LowerContext) (place : Place) (element : TypeId)
    (value : BuilderM ValueId) (fill : Place → BuilderM Unit) (len : UInt64) (span : Span) :
    BuilderM Unit := do
  let elementSize := (← cx.layout element).size
  if ← cx.isScalar element then
    unlessDiverged value (fun _ => pure ()) fun value =>
      repeatElements cx place element elementSize len span (.store · value false)
  else
    -- an aggregate operand is evaluated into a private local and copied from there
    let temporary ← modifyGet fun builder : FunctionBuilder =>
      (localPlace builder.localTypes.length element,
        { builder with localTypes := builder.localTypes ++ [element] })
    unlessDiverged (fill temporary) (fun _ => pure ()) fun _ =>
      repeatElements cx place element elementSize len span (.copy · temporary elementSize)

def initializeBytes (cx : LowerContext) (place : Place) (element : TypeId) (bytes : List UInt8) :
    BuilderM Unit :=
  bytes.zipIdx.forM fun (byte, index) => do
    let indexValue ← constValue (UInt64.ofNat index) (← cx.primitive "usize")
    let byteValue ← constValue byte.toUInt64 element
    emit (.store (place.project (.index indexValue 1) element) byteValue false)

def initializeFrom (cx : LowerContext) (place : Place) (source : BuilderM Place)
    (value : BuilderM ValueId) (ty : TypeId) : BuilderM Unit := do
  if ← cx.isScalar ty then
    unlessDiverged value (fun _ => pure ()) fun value => emit (.store place value false)
  else
    unlessDiverged source (fun _ => pure ()) fun source => do
      let layout ← cx.layout ty
      emit (.copy place source layout.size)

/-! ## The recursion -/

theorem sizeOf_snd_lt (fd : Nat × HirExpr) : sizeOf fd.2 < sizeOf fd := by
  cases fd
  simp only [Prod.mk.sizeOf_spec]
  omega

mutual

def lowerExpr (cx : LowerContext) : HirExpr → BuilderM ValueId
  | .mk kind ty span =>
    match _shape : kind with
    | .constant (.integer value) => constValue value ty
    | .constant (.bool value) => constValue (if value then 1 else 0) ty
    | .constant (.function function) => defineValue ty (.functionAddress · function)
    | .constant _ => cx.error span "aggregate constant is valid only as an initializer"
    | .local _ | .static _ | .field .. | .index .. => loadPlace (lowerPlace cx (.mk kind ty span)) ty
    | .function function => defineValue ty (.functionAddress · function)
    | .enumVariant .. | .array _ | .arrayRepeat .. | .struct .. =>
        cx.error span "aggregate value must initialize a local or static directly"
    | .unary (.addressOf _) operand =>
        unlessDiverged (lowerPlace cx operand) (fun _ => divergedValue) fun place =>
          defineValue ty (.addressOf · place)
    | .unary .deref _ => loadPlace (lowerPlace cx (.mk kind ty span)) ty
    | .unary op operand =>
        unlessDiverged (lowerExpr cx operand) pure fun operand =>
          defineValue ty (.unary · op operand)
    | .binary op lhs rhs =>
        if op = .logicalAnd ∨ op = .logicalOr then
          lowerShortCircuit op (lowerExpr cx lhs) (lowerExpr cx rhs) ty
        else
          unlessDiverged (lowerExpr cx lhs) pure fun lhs =>
            unlessDiverged (lowerExpr cx rhs) pure fun rhs =>
              defineValue ty (.binary · op lhs rhs)
    | .assign op target value =>
        unlessDiverged (lowerPlace cx target) (fun _ => divergedValue) fun place =>
          assignPlace cx op target.ty place (lowerPlace cx value) (lowerExpr cx value) ty
    | .call function args =>
        unlessDiverged (lowerArguments (args.map fun arg => lowerExpr cx arg))
          (fun _ => divergedValue) fun args => emitCall cx ty (.call · function args)
    | .callIndirect callee args =>
        unlessDiverged (lowerExpr cx callee) pure fun callee =>
          unlessDiverged (lowerArguments (args.map fun arg => lowerExpr cx arg))
            (fun _ => divergedValue) fun args => emitCall cx ty (.callIndirect · callee args)
    | .intrinsic intrinsic args =>
        lowerIntrinsic cx intrinsic (args.map fun arg => lowerExpr cx arg) (args.map HirExpr.ty) ty
    | .cast value target =>
        let source := value.ty
        unlessDiverged (lowerExpr cx value) pure fun value =>
          defineValue target (.cast · value source target)
    | .asm template operands options =>
        lowerAsmOperands (operands.map fun operand => lowerAsmOperand cx operand) []
          fun operands => do
            emit (.asm template operands options)
            constValue 0 ty
termination_by expr => 4 * sizeOf expr + 2
decreasing_by
  all_goals
    try subst _shape
    try have _smaller := List.sizeOf_lt_of_mem ‹_ ∈ _›
    simp
    try omega

/-- Lower one asm operand and go on with it. -/
def lowerAsmOperand (cx : LowerContext) :
    HirAsmOperand → (MirAsmOperand → BuilderM ValueId) → BuilderM ValueId
  | .in register value => fun next =>
      unlessDiverged (lowerExpr cx value) pure fun value => next (.in register value)
  | .out register target => fun next =>
      unlessDiverged (lowerPlace cx target) (fun _ => divergedValue) fun target =>
        next (.out register target)
  | .inOut register input output => fun next =>
      unlessDiverged (lowerExpr cx input) pure fun input =>
        unlessDiverged (lowerPlace cx output) (fun _ => divergedValue) fun output =>
          next (.inOut register input output)
termination_by operand => 4 * sizeOf operand
decreasing_by all_goals simp; try omega

def lowerPlace (cx : LowerContext) : HirExpr → BuilderM Place
  | .mk kind ty span =>
    match _shape : kind with
    | .local id => pure (localPlace id ty)
    | .static id => pure ⟨.static id, [], ty⟩
    | .unary .deref operand => pointerPlace (lowerExpr cx operand) ty
    | .field base _ offset => fieldPlace (lowerPlace cx base) offset ty
    | .index base index =>
        indexPlace cx base.ty (lowerExpr cx base) (lowerPlace cx base) (lowerExpr cx index) ty span
    | _ => cx.error span "expression is not a MIR place"
termination_by expr => 4 * sizeOf expr + 1
decreasing_by all_goals subst _shape; simp; try omega

def lowerInitializer (cx : LowerContext) : HirExpr → Place → BuilderM Unit
  | .mk kind ty span => fun place => do
    if (← cx.typeAt ty) = .never then
      let _ ← lowerExpr cx (.mk kind ty span)
    else
      match _shape : kind with
      | .struct structId fields =>
          initializeStruct cx place structId
            (fields.map fun field => (field.1, lowerInitializer cx field.2))
      | .enumVariant enumId variant args =>
          initializeEnum cx place enumId variant (args.map fun arg => lowerInitializer cx arg)
      | .array values => do
          let element ← elementType cx place span "array initializer reached non-array place"
          initializeElements cx place element (values.map fun value => lowerInitializer cx value)
      | .arrayRepeat value len => do
          let element ← elementType cx place span "array repeat reached non-array place"
          initializeRepeat cx place element (lowerExpr cx value) (lowerInitializer cx value) len span
      | .constant (.bytes bytes) => do
          let element ← elementType cx place span "byte string reached non-array place"
          initializeBytes cx place element bytes
      | _ => initializeFrom cx place (lowerPlace cx (.mk kind ty span)) (lowerExpr cx (.mk kind ty span)) ty
termination_by expr => 4 * sizeOf expr + 3
decreasing_by
  all_goals
    try subst _shape
    try have _smaller := List.sizeOf_lt_of_mem ‹_ ∈ _›
    try have _inner := sizeOf_snd_lt field
    simp
    try omega

end

/-! ## Statements -/

/-- A branch into a new block, taken if it is there, and on to `join`. -/
def lowerBranch (block join : BlockId) (body : BuilderM Unit) : BuilderM Unit := do
  setCurrent block
  body
  jumpUnlessTerminated join

def lowerIf (condition : BuilderM ValueId) (thenBody elseBody : BuilderM Unit) : BuilderM Unit :=
  unlessDiverged condition (fun _ => pure ()) fun condition => do
    let thenBlock ← newBlock
    let elseBlock ← newBlock
    let joinBlock ← newBlock
    terminate (.branch condition thenBlock elseBlock)
    lowerBranch thenBlock joinBlock thenBody
    lowerBranch elseBlock joinBlock elseBody
    setCurrent joinBlock

/-- The body of a loop, entered at `block` and left to `again`. -/
def lowerLoopBody (block exit again : BlockId) (body : BuilderM Unit) : BuilderM Unit := do
  pushLoop exit again
  setCurrent block
  body
  popLoop
  jumpUnlessTerminated again
  setCurrent exit

def lowerWhile (condition : BuilderM ValueId) (body : BuilderM Unit) : BuilderM Unit := do
  let conditionBlock ← newBlock
  terminate (.jump conditionBlock)
  setCurrent conditionBlock
  unlessDiverged condition (fun _ => pure ()) fun condition => do
    let bodyBlock ← newBlock
    let exitBlock ← newBlock
    terminate (.branch condition bodyBlock exitBlock)
    lowerLoopBody bodyBlock exitBlock conditionBlock body

def lowerLoop (body : BuilderM Unit) : BuilderM Unit := do
  let bodyBlock ← newBlock
  let exitBlock ← newBlock
  terminate (.jump bodyBlock)
  lowerLoopBody bodyBlock exitBlock bodyBlock body

def lowerReturn (value : Option (BuilderM ValueId)) : BuilderM Unit :=
  match value with
  | none => do if !(← currentTerminated) then terminate (.return none)
  | some value => unlessDiverged value (fun _ => pure ()) fun value => terminate (.return value)

mutual

def lowerBlock (cx : LowerContext) : HirBlock → BuilderM Unit
  | .mk stmts => lowerStmts cx stmts

def lowerStmts (cx : LowerContext) : List HirStmt → BuilderM Unit
  | [] => pure ()
  | stmt :: stmts => do
      if !(← currentTerminated) then
        lowerStmt cx stmt
        lowerStmts cx stmts

def lowerStmt (cx : LowerContext) : HirStmt → BuilderM Unit
  | .let id init => do
      let declared ← orPanic cx.function.locals[id]?
      lowerInitializer cx init (localPlace id declared.ty)
  | .expr expr => do
      let _ ← lowerExpr cx expr
  | .unsafeBlock block => lowerBlock cx block
  | .return none => lowerReturn none
  | .return (some value) => lowerReturn (some (lowerExpr cx value))
  | .if condition thenBlock none =>
      lowerIf (lowerExpr cx condition) (lowerBlock cx thenBlock) (pure ())
  | .if condition thenBlock (some elseBlock) =>
      lowerIf (lowerExpr cx condition) (lowerBlock cx thenBlock) (lowerBlock cx elseBlock)
  | .while condition body => lowerWhile (lowerExpr cx condition) (lowerBlock cx body)
  | .loop body => lowerLoop (lowerBlock cx body)
  | .break => do terminate (.jump (← innermostLoop).1)
  | .continue => do terminate (.jump (← innermostLoop).2)

end

/-! ## Functions and programs -/

def FunctionBuilder.new (function : HirFunction) : FunctionBuilder where
  localTypes := function.locals.map (·.ty)
  values := []
  blocks := [.empty]
  current := 0
  loops := []

/-- Lower the body and close the last block. -/
def lowerBody (cx : LowerContext) (body : HirBlock) : BuilderM Unit := do
  lowerBlock cx body
  if !(← currentTerminated) then
    let void ← cx.primitive "void"
    if cx.function.result = void then terminate (.return none) else terminate .unreachable

def lowerFunction (cx : LowerContext) (body : HirBlock) : Except LowerError MirFunction := do
  let (_, builder) ← lowerBody cx body (.new cx.function)
  return ⟨cx.source, builder.localTypes, builder.values, builder.blocks, 0⟩

/-- The functions that have a body, in order. -/
def lowerFunctions (program : HirProgram) :
    List (HirFunction × FunctionId) → Except LowerError (List MirFunction)
  | [] => .ok []
  | (function, source) :: rest =>
      match function.body with
      | none => lowerFunctions program rest
      | some body => do
          let lowered ← lowerFunction ⟨program, source, function⟩ body
          return lowered :: (← lowerFunctions program rest)

def lower (program : HirProgram) : Except LowerError MirProgram := do
  let functions ← lowerFunctions program program.functions.zipIdx
  return ⟨functions, (List.range program.statics).map MirStatic.mk⟩

end Ostadix.Ocore
