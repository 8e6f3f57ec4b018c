import Ostadix.Ocore.ShortCircuit

/-! # The lowering keeps the builder certified

One lemma per function of the lowering, from the primitives up to whole programs. -/

namespace Ostadix.Ocore

open FunctionBuilder List

/-- A computation whose result is available afterwards. -/
def LowersValue (computation : BuilderM ValueId) : Prop :=
  Lowers [] computation fun value => [value]

/-- A computation all values of whose place are available afterwards. -/
def LowersPlace (computation : BuilderM Place) : Prop :=
  Lowers [] computation Place.uses

/-- The initialization of a place whose values are available. -/
def LowersInto (fill : Place → BuilderM Unit) : Prop :=
  ∀ place, Lowers place.uses (fill place) fun _ => []

section Given

variable {α : Type} {given : List ValueId} {computation : BuilderM α} {provides : α → List ValueId}

theorem Lowers.any (lowers : Lowers [] computation provides) : Lowers given computation provides :=
  lowers.weaken (nil_subset _) fun _ _ => .inl

end Given

/-! ## Places -/

theorem uses_project (plc : Place) (projection : Projection) (ty : TypeId) :
    (plc.project projection ty).uses = plc.uses ++ projection.uses := by
  simp [Place.project, Place.uses]

theorem LowersValue.pointerPlace {ptr : BuilderM ValueId} (hlow : LowersValue ptr)
    (ty : TypeId) : LowersPlace (pointerPlace ptr ty) := by
  refine .map hlow ?_
  intro r v hm
  simpa [Place.uses, PlaceBase.uses] using hm

theorem LowersPlace.fieldPlace {base : BuilderM Place} (hlow : LowersPlace base)
    (off : UInt64) (ty : TypeId) : LowersPlace (fieldPlace base off ty) := by
  refine .unlessDiverged hlow (fun plc => .pure plc) ?_
  intro plc
  refine .pure ?_
  intro v hm
  rw [uses_project] at hm
  simpa [Projection.uses] using hm

theorem lowersPlace_indexPlace (cx : LowerContext) (baseTy : TypeId) {pointer : BuilderM ValueId}
    {array : BuilderM Place} {i : BuilderM ValueId} (pointerLowers : LowersValue pointer)
    (arrayLowers : LowersPlace array) (indexLowers : LowersValue i) (ty : TypeId)
    (sp : Span) : LowersPlace (indexPlace cx baseTy pointer array i ty sp) := by
  refine .orPanic_bind fun lay => .orPanic_bind fun baseType => ?_
  refine .unlessDiverged (?base : LowersPlace _) (fun place => .pure place) ?_
  case base =>
    cases baseType with
    | pointer => exact pointerLowers.pointerPlace ty
    | array => exact arrayLowers
    | _ => exact .throw _
  intro place
  refine indexLowers.any.unlessDiverged (fun _ => .pure place) ?_
  intro i
  refine .pure ?_
  intro v hm
  rw [uses_project] at hm
  simpa [Projection.uses] using hm

/-! ## Values -/

theorem lowersValue_constValue (v : UInt64) (ty : TypeId) : LowersValue (constValue v ty) :=
  .defineValue (fun _ => rfl) (fun _ _ _ => nofun) fun _ _ bad => nomatch bad

theorem StaysOpen.constValue (v : UInt64) (ty : TypeId) : StaysOpen (constValue v ty) :=
  .defineValue ty _

theorem LowersPlace.loadPlace {plc : BuilderM Place} (hlow : LowersPlace plc) (ty : TypeId) :
    LowersValue (loadPlace plc ty) := by
  refine .unlessDiverged hlow (fun _ => .divergedValue) ?_
  intro plc
  exact .defineValue (fun _ => rfl) (fun _ _ _ => nofun) fun _ _ hm => hm

variable {given : List ValueId}

/-- An instruction without a result, followed by the value of a void expression. -/
theorem lowers_emit_constValue {ins : Instruction} (noDst : ins.dst = none)
    (plain : Plain ins) (uses : ∀ v ∈ ins.uses, v ∈ given) (cst : UInt64) (ty : TypeId) :
    Lowers given (do emit ins; constValue cst ty) fun v => [v] :=
  (Lowers.emit noDst plain uses).bind (.emit ins) fun _ =>
    (lowersValue_constValue cst ty).any

theorem lowers_storeAssigned (plc : Place) {act : BuilderM ValueId}
    (lowers : Lowers plc.uses act fun v => [v]) (ty : TypeId) :
    Lowers plc.uses (storeAssigned plc act ty) fun v => [v] := by
  refine lowers.unlessDiverged Passive.pure ?_
  intro v
  refine lowers_emit_constValue rfl (by intro _ _ phi; cases phi) ?_ 0 ty
  intro used hm
  simp only [Instruction.uses, mem_cons] at hm
  simp only [mem_append, mem_singleton]
  exact hm.symm

variable {v : BuilderM ValueId}

theorem lowers_assignPlace (cx : LowerContext) (op : Option BinaryOp) (targetTy : TypeId)
    (plc : Place) {src : BuilderM Place} (sourceLowers : LowersPlace src)
    (valueLowers : LowersValue v) (ty : TypeId) :
    Lowers plc.uses (assignPlace cx op targetTy plc src v ty) fun v => [v] := by
  cases op with
  | some =>
    refine lowers_storeAssigned plc ?_ ty
    have load : Lowers plc.uses (defineValue targetTy (.load · plc false)) fun old => [old] :=
      .defineValue (fun _ => rfl) (fun _ _ _ => nofun) fun _ _ hm => hm
    refine load.bind (.defineValue targetTy _) fun old => ?_
    refine valueLowers.any.unlessDiverged Passive.pure fun rhs => ?_
    refine .defineValue (fun _ => rfl) (fun _ _ _ => nofun) ?_
    intro _ used hm
    simp only [Instruction.uses, mem_cons, not_mem_nil, or_false] at hm
    simp only [mem_append, mem_singleton]
    exact hm.imp_left .inr
  | none =>
    refine .orPanic_bind fun sca => ?_
    cases sca with
    | true => exact lowers_storeAssigned plc valueLowers.any ty
    | false =>
      refine sourceLowers.any.unlessDiverged (fun _ => .divergedValue) fun src => ?_
      refine .orPanic_bind fun lay => ?_
      refine lowers_emit_constValue rfl (by intro _ _ phi; cases phi) ?_ 0 ty
      exact fun used hm => hm

/-! ## Calls -/

theorem lowers_lowerArguments {args : List (BuilderM ValueId)}
    (hlow : ∀ arg ∈ args, LowersValue arg) : Lowers [] (lowerArguments args) id := by
  induction args with
  | nil => exact .pure (nil_subset _)
  | cons arg args ih =>
    refine .unlessDiverged (hlow arg mem_cons_self) (fun _ => .pure _) fun v => ?_
    refine (ih (forall_mem_cons.mp hlow).2).any.map ?_
    intro vs used hm
    simpa [eq_comm] using hm

/-- Any call whose operands are available, whether or not it returns and has a result. -/
theorem lowers_emitCall (cx : LowerContext) (ty : TypeId) {call : Option ValueId → Instruction}
    (dst : ∀ r, (call r).dst = r) (plain : ∀ r, Plain (call r))
    (uses : ∀ r, ∀ v ∈ (call r).uses, v ∈ given) :
    Lowers given (emitCall cx ty call) fun v => [v] := by
  refine .orPanic_bind fun void => .orPanic_bind fun never => ?_
  split
  · refine (lowersValue_constValue 0 ty).any.bind (.constValue 0 ty) fun v => ?_
    have called : Lowers (given ++ [v]) (emit (call none)) fun _ => [] :=
      .emit (dst none) (plain none) fun used hm => mem_append_left _ (uses none used hm)
    refine called.bind (.emit _) fun _ => ?_
    have left : Lowers (given ++ [v] ++ []) (terminate .unreachable) fun _ => [v] :=
      .terminate (by simp) rfl fun _ bad => by cases bad
    refine left.map fun _ used hm => mem_append_right _ hm
  · split
    · exact lowers_emit_constValue (dst none) (plain none) (uses none) 0 ty
    · exact .defineValue (fun v => dst (some v)) (fun v => plain (some v)) fun v => uses (some v)

theorem lowersValue_lowerIntrinsic (cx : LowerContext) (intr : Intrinsic)
    {args : List (BuilderM ValueId)} (hlow : ∀ arg ∈ args, LowersValue arg)
    (argTys : List TypeId) (ty : TypeId) :
    LowersValue (lowerIntrinsic cx intr args argTys ty) := by
  have argLowers {i : Nat} {arg : BuilderM ValueId} (hf : args[i]? = some arg) :
      LowersValue arg := hlow arg (mem_of_getElem? hf)
  rw [lowerIntrinsic]
  split
  · refine .lookup_bind fun ptr pointerAt => ?_
    refine .unlessDiverged (argLowers pointerAt) Passive.pure fun ptr => ?_
    refine .defineValue (fun _ => rfl) (fun _ _ _ => nofun) ?_
    intro _ used hm
    simpa [Instruction.uses, Place.uses, PlaceBase.uses] using hm
  · split
    · refine .lookup_bind fun ptr pointerAt => ?_
      refine .unlessDiverged (argLowers pointerAt) Passive.pure fun ptr => ?_
      refine .lookup_bind fun v valueAt => .orPanic_bind fun valueTy => ?_
      refine (argLowers valueAt).any.unlessDiverged Passive.pure fun v => ?_
      refine lowers_emit_constValue rfl (by intro _ _ phi; cases phi) ?_ 0 ty
      intro used hm
      simp only [Instruction.uses, Place.uses, PlaceBase.uses, flatMap_nil,
        append_nil, mem_cons, not_mem_nil, or_false] at hm
      simp only [nil_append, mem_append, mem_singleton]
      exact hm.symm
    · refine (lowers_lowerArguments hlow).unlessDiverged (fun _ => .divergedValue) fun args => ?_
      refine .orPanic_bind fun void => ?_
      split
      · refine lowers_emit_constValue rfl (by intro _ _ phi; cases phi) ?_ 0 ty
        exact fun _ hm => hm
      · exact .defineValue (fun _ => rfl) (fun _ _ _ => nofun) fun _ _ hm => hm

/-! ## Assembly -/

/-- An asm operand hands on an operand whose values are available. -/
def LowersOperand (operand : (MirAsmOperand → BuilderM ValueId) → BuilderM ValueId) : Prop :=
  ∀ given next, (∀ operand : MirAsmOperand,
      Lowers (given ++ operand.uses) (next operand) fun value => [value]) →
    Lowers given (operand next) fun value => [value]

theorem lowers_lowerAsmOperands {lw : List ((MirAsmOperand → BuilderM ValueId) → BuilderM ValueId)}
    (hlow : ∀ op ∈ lw, LowersOperand op) (ops : List MirAsmOperand)
    {next : List MirAsmOperand → BuilderM ValueId} (hcont : ∀ ops : List MirAsmOperand,
      Lowers (ops.flatMap MirAsmOperand.uses) (next ops) fun v => [v]) :
    Lowers (ops.flatMap MirAsmOperand.uses) (lowerAsmOperands lw ops next) fun v => [v] := by
  induction lw generalizing ops with
  | nil => exact hcont ops
  | cons first rest ih =>
    refine hlow first mem_cons_self _ _ fun op => ?_
    have hl := ih (forall_mem_cons.mp hlow).2 (ops ++ [op])
    simpa using hl

/-! ## Initializers -/

theorem lowers_untilDiverged {steps : List (BuilderM Unit)}
    (hlow : ∀ step ∈ steps, Lowers given step fun _ => []) :
    Lowers given (untilDiverged steps) fun _ => [] := by
  induction steps with
  | nil => exact .pure (nil_subset _)
  | cons step steps ih =>
    refine (hlow step mem_cons_self).unlessDiverged (fun _ => .pure _) fun _ => ?_
    exact (ih (forall_mem_cons.mp hlow).2).weaken (fun _ hm => mem_append_left _ hm) fun _ _ => .inl

theorem lowers_forM {α : Type} {xs : List α} {step : α → BuilderM Unit}
    (hlow : ∀ x ∈ xs, Lowers given (step x) fun _ => []) (stays : ∀ x ∈ xs, StaysOpen (step x)) :
    Lowers given (xs.forM step) fun _ => [] := by
  induction xs with
  | nil => exact .pure (nil_subset _)
  | cons x xs ih =>
    refine (hlow x mem_cons_self).bind (stays x mem_cons_self) fun _ => ?_
    refine (ih (forall_mem_cons.mp hlow).2 (forall_mem_cons.mp stays).2).weaken ?_ fun _ _ => .inl
    exact fun _ hm => mem_append_left _ hm

/-- A part of a place that adds no value of its own. -/
theorem LowersInto.project_field {fill : Place → BuilderM Unit} (hlow : LowersInto fill)
    (plc : Place) (off : UInt64) (ty : TypeId) :
    Lowers plc.uses (fill (plc.project (.field off) ty)) fun _ => [] := by
  have filled := hlow (plc.project (.field off) ty)
  rwa [uses_project, Projection.uses, append_nil] at filled

section

variable (cx : LowerContext)

include cx

theorem lowers_initializeStruct (plc : Place) (structId : StructId)
    {fs : List (Nat × (Place → BuilderM Unit))} (lowers : ∀ fd ∈ fs, LowersInto fd.2) :
    Lowers plc.uses (initializeStruct cx plc structId fs) fun _ => [] := by
  refine .orPanic_bind fun dfn => lowers_untilDiverged ?_
  intro step hm
  obtain ⟨⟨_, _⟩, fd, rfl⟩ := mem_map.mp hm
  exact .orPanic_bind fun hd => (lowers _ fd).project_field plc _ _

theorem lowers_initializePayload (plc : Place) (po : UInt64)
    {pts : List (TypeId × (Place → BuilderM Unit))} (hlow : ∀ part ∈ pts, LowersInto part.2)
    (off : UInt64) :
    Lowers plc.uses (initializePayload cx plc po off pts) fun _ => [] := by
  induction pts generalizing off with
  | nil => exact .pure (nil_subset _)
  | cons part pts ih =>
    obtain ⟨ty, fill⟩ := part
    refine .orPanic_bind fun lay => ?_
    have first : LowersInto fill := hlow (ty, fill) mem_cons_self
    refine (first.project_field plc _ ty).unlessDiverged (fun _ => .pure _) fun _ => ?_
    rw [append_nil]
    exact ih (forall_mem_cons.mp hlow).2 _

theorem passive_tagType (tagSize : UInt64) : Passive (tagType cx tagSize) := by
  rw [tagType]
  split
  · exact .orPanic _
  · split
    · exact .orPanic _
    · split
      · exact .orPanic _
      · exact .throw _

theorem lowers_initializeEnum (place : Place) (enumId : EnumId) (vr : Nat)
    {args : List (Place → BuilderM Unit)} (hlow : ∀ fill ∈ args, LowersInto fill) :
    Lowers place.uses (initializeEnum cx place enumId vr args) fun _ => [] := by
  refine .orPanic_bind fun dfn => .passive_bind (passive_tagType cx _) fun tagTy => ?_
  refine (lowersValue_constValue _ tagTy).any.bind (.constValue _ tagTy) fun tag => ?_
  have hst : Lowers (place.uses ++ [tag])
      (emit (.store { place with ty := tagTy } tag false)) fun _ => [] := by
    refine .emit rfl (by intro _ _ phi; cases phi) ?_
    intro used hm
    simp only [Instruction.uses, mem_cons] at hm
    simp only [mem_append, mem_singleton]
    exact hm.symm
  refine hst.bind (.emit _) fun _ => .orPanic_bind fun hd => ?_
  refine (lowers_initializePayload cx place dfn.payloadOffset ?_ 0).weaken ?_ fun _ _ => .inl
  · intro part hm
    exact hlow part.2 (of_mem_zip hm).2
  · intro v hm
    simp [hm]

theorem lowers_initializeElements (plc : Place) (elt : TypeId)
    {vs : List (Place → BuilderM Unit)} (lowers : ∀ fill ∈ vs, LowersInto fill) :
    Lowers plc.uses (initializeElements cx plc elt vs) fun _ => [] := by
  refine .orPanic_bind fun lay => lowers_untilDiverged ?_
  intro step hm
  obtain ⟨⟨fill, _⟩, hloc, rfl⟩ := mem_map.mp hm
  refine .orPanic_bind fun usize => ?_
  refine (lowersValue_constValue _ usize).any.bind (.constValue _ usize) fun indexValue => ?_
  have filled := lowers fill (fst_mem_of_mem_zipIdx hloc)
    (plc.project (.index indexValue lay.size) elt)
  rwa [uses_project, Projection.uses] at filled

theorem lowers_repeatElements (plc : Place) (elt : TypeId)
    (elementSize len : UInt64) (sp : Span) {write : Place → Instruction}
    (noDst : ∀ plc, (write plc).dst = none) (plain : ∀ plc, Plain (write plc))
    (uses : ∀ off, ∀ v ∈ (write (plc.project (.field off) elt)).uses, v ∈ given) :
    Lowers given (repeatElements cx plc elt elementSize len sp write) fun _ => [] := by
  refine lowers_forM ?_ ?_
  · intro i _
    cases offsetAt : checkedMul (.ofNat i) elementSize with
    | none => exact .throw _
    | some off => exact .emit (noDst _) (plain _) (uses off)
  · intro i _
    cases offsetAt : checkedMul (.ofNat i) elementSize with
    | none => exact (Passive.throw _).staysOpen
    | some => exact .emit _

end

/-- A new local changes no block. -/
theorem lowers_addLocal (elt : TypeId) :
    Lowers [] (modifyGet fun builder : FunctionBuilder =>
      (localPlace builder.localTypes.length elt,
        { builder with localTypes := builder.localTypes ++ [elt] }))
      Place.uses := by
  intro s cert hwt certified pend givens r t ran
  cases ran
  exact ⟨cert,
    { certified := { certified with }
      frame := .of_blocks _ _ rfl rfl
      moved := .inl rfl
      loops := rfl
      keeps := fun _ _ hav => hav
      provides := fun _ _ bad => nomatch bad }⟩

theorem lowers_initializeRepeat (cx : LowerContext) (plc : Place) (elt : TypeId)
    {fill : Place → BuilderM Unit} (valueLowers : LowersValue v)
    (fillLowers : LowersInto fill) (len : UInt64) (sp : Span) :
    Lowers plc.uses (initializeRepeat cx plc elt v fill len sp) fun _ => [] := by
  refine .orPanic_bind fun lay => .orPanic_bind fun sca => ?_
  cases sca with
  | true =>
    refine valueLowers.any.unlessDiverged (fun _ => .pure _) fun v => ?_
    refine lowers_repeatElements cx plc elt _ len sp (fun _ => rfl) (fun _ _ _ => nofun) ?_
    intro off used hm
    rw [Instruction.uses, uses_project, Projection.uses, append_nil, mem_cons] at hm
    rw [mem_append, mem_singleton]
    exact hm.symm
  | false =>
    refine (lowers_addLocal elt).any.bind ?_ fun temporary => ?_
    · intro b r t hcur ran pend
      cases ran
      exact ⟨hcur, pend⟩
    · have filled : Lowers (plc.uses ++ temporary.uses) (fill temporary) fun _ => [] :=
        (fillLowers temporary).weaken (fun _ hm => mem_append_right _ hm) fun _ _ => .inl
      refine filled.unlessDiverged (fun _ => .pure _) fun _ => ?_
      refine lowers_repeatElements cx plc elt _ len sp (fun _ => rfl) (fun _ _ _ => nofun) ?_
      intro off used hm
      rw [Instruction.uses, uses_project, Projection.uses, append_nil] at hm
      rw [append_nil]
      exact hm

theorem lowers_initializeBytes (cx : LowerContext) (plc : Place) (elt : TypeId) (bs : List UInt8) :
    Lowers plc.uses (initializeBytes cx plc elt bs) fun _ => [] := by
  refine lowers_forM ?_ ?_
  · intro ⟨byte, i⟩ _
    refine .orPanic_bind fun usize => ?_
    refine (lowersValue_constValue _ usize).any.bind (.constValue _ usize) fun indexValue => ?_
    refine (lowersValue_constValue _ elt).any.bind (.constValue _ elt) fun byteValue => ?_
    refine .emit rfl (by intro _ _ phi; cases phi) ?_
    intro used hm
    rw [Instruction.uses, uses_project, Projection.uses, mem_cons] at hm
    rw [mem_append, mem_singleton]
    exact hm.symm
  · intro ⟨byte, i⟩ _
    refine (Passive.orPanic _).staysOpen.bind fun usize => ?_
    refine (StaysOpen.constValue _ usize).bind fun _ => ?_
    exact (StaysOpen.constValue _ elt).bind fun _ => .emit _

theorem lowers_initializeFrom (cx : LowerContext) (plc : Place) {src : BuilderM Place}
    (sourceLowers : LowersPlace src) (valueLowers : LowersValue v) (ty : TypeId) :
    Lowers plc.uses (initializeFrom cx plc src v ty) fun _ => [] := by
  refine .orPanic_bind fun sca => ?_
  cases sca with
  | true =>
    refine valueLowers.any.unlessDiverged (fun _ => .pure _) fun v => ?_
    refine .emit rfl (by intro _ _ phi; cases phi) ?_
    intro used hm
    rw [Instruction.uses, mem_cons] at hm
    rw [mem_append, mem_singleton]
    exact hm.symm
  | false =>
    refine sourceLowers.any.unlessDiverged (fun _ => .pure _) fun src => ?_
    refine .orPanic_bind fun lay => .emit rfl (by intro _ _ phi; cases phi) ?_
    exact fun _ hm => hm

theorem passive_elementType (cx : LowerContext) (plc : Place) (sp : Span) (msg : String) :
    Passive (elementType cx plc sp msg) := by
  refine .bind (.orPanic _) fun ty => ?_
  cases ty with
  | array elt => exact .pure elt
  | _ => exact .throw _

/-! ## The recursion over expressions -/

theorem lowersValue_lowerShortCircuit (op : BinaryOp) {lhs rhs : BuilderM ValueId}
    (lhsLowers : LowersValue lhs) (rhsLowers : LowersValue rhs) (ty : TypeId) :
    LowersValue (lowerShortCircuit op lhs rhs ty) :=
  Lowers.unlessDiverged lhsLowers Passive.pure fun lhs => lowers_joinShortCircuit op lhs rhsLowers ty

mutual

theorem lowersValue_lowerExpr (cx : LowerContext) :
    ∀ expr : HirExpr, LowersValue (lowerExpr cx expr)
  | .mk (.constant v) ty _ => by
    cases v with
    | integer v =>
      rw [lowerExpr]
      exact lowersValue_constValue v ty
    | bool =>
      rw [lowerExpr]
      exact lowersValue_constValue _ ty
    | function =>
      rw [lowerExpr]
      exact .defineValue (fun _ => rfl) (fun _ _ _ => nofun) fun _ _ bad => nomatch bad
    | _ =>
      simp only [lowerExpr]
      exact .throw _
  | .mk (.enumVariant ..) _ _ | .mk (.array _) _ _ | .mk (.arrayRepeat ..) _ _
  | .mk (.struct ..) _ _ => by
    rw [lowerExpr]
    exact .throw _
  | .mk (.local id) ty sp => by
    rw [lowerExpr]
    exact (lowersPlace_lowerPlace cx (.mk (.local id) ty sp)).loadPlace ty
  | .mk (.static id) ty sp => by
    rw [lowerExpr]
    exact (lowersPlace_lowerPlace cx (.mk (.static id) ty sp)).loadPlace ty
  | .mk (.field base fd off) ty sp => by
    rw [lowerExpr]
    exact (lowersPlace_lowerPlace cx (.mk (.field base fd off) ty sp)).loadPlace ty
  | .mk (.index base i) ty sp => by
    rw [lowerExpr]
    exact (lowersPlace_lowerPlace cx (.mk (.index base i) ty sp)).loadPlace ty
  | .mk (.function function) ty _ => by
    rw [lowerExpr]
    exact .defineValue (fun _ => rfl) (fun _ _ _ => nofun) fun _ _ bad => nomatch bad
  | .mk (.unary (.addressOf _) opd) ty _ => by
    rw [lowerExpr]
    refine .unlessDiverged (lowersPlace_lowerPlace cx opd) (fun _ => .divergedValue) fun plc => ?_
    exact .defineValue (fun _ => rfl) (fun _ _ _ => nofun) fun _ _ hm => hm
  | .mk (.unary .deref opd) ty sp => by
    rw [lowerExpr]
    exact (lowersPlace_lowerPlace cx (.mk (.unary .deref opd) ty sp)).loadPlace ty
  | .mk (.unary .neg opd) ty _ | .mk (.unary .not opd) ty _
  | .mk (.unary .bitNot opd) ty _ => by
    simp only [lowerExpr]
    refine .unlessDiverged (lowersValue_lowerExpr cx opd) Passive.pure fun opd => ?_
    exact .defineValue (fun _ => rfl) (fun _ _ _ => nofun) fun _ _ hm => hm
  | .mk (.binary op lhs rhs) ty _ => by
    rw [lowerExpr]
    split
    · exact lowersValue_lowerShortCircuit op (lowersValue_lowerExpr cx lhs)
        (lowersValue_lowerExpr cx rhs) ty
    · refine .unlessDiverged (lowersValue_lowerExpr cx lhs) Passive.pure fun lhs => ?_
      refine (lowersValue_lowerExpr cx rhs).any.unlessDiverged Passive.pure fun rhs => ?_
      exact .defineValue (fun _ => rfl) (fun _ _ _ => nofun) fun _ _ hm => hm
  | .mk (.assign op tgt v) ty _ => by
    rw [lowerExpr]
    refine .unlessDiverged (lowersPlace_lowerPlace cx tgt) (fun _ => .divergedValue) fun plc => ?_
    exact lowers_assignPlace cx op tgt.ty plc (lowersPlace_lowerPlace cx v)
      (lowersValue_lowerExpr cx v) ty
  | .mk (.call function args) ty _ => by
    rw [lowerExpr]
    have arguments := lowers_lowerArguments (lowersValue_args cx args)
    refine arguments.unlessDiverged (fun _ => .divergedValue) fun vs => ?_
    exact lowers_emitCall cx ty (fun _ => rfl) (fun _ _ _ => nofun) fun _ _ hm => hm
  | .mk (.callIndirect callee args) ty _ => by
    rw [lowerExpr]
    have arguments := lowers_lowerArguments (lowersValue_args cx args)
    refine .unlessDiverged (lowersValue_lowerExpr cx callee) Passive.pure fun callee => ?_
    refine arguments.any.unlessDiverged (fun _ => .divergedValue) fun vs => ?_
    exact lowers_emitCall cx ty (fun _ => rfl) (fun _ _ _ => nofun) fun _ _ hm => hm
  | .mk (.intrinsic intr args) ty _ => by
    rw [lowerExpr]
    exact lowersValue_lowerIntrinsic cx intr (lowersValue_args cx args) _ ty
  | .mk (.cast v tgt) _ _ => by
    rw [lowerExpr]
    refine .unlessDiverged (lowersValue_lowerExpr cx v) Passive.pure fun v => ?_
    exact .defineValue (fun _ => rfl) (fun _ _ _ => nofun) fun _ _ hm => hm
  | .mk (.asm template ops options) ty _ => by
    rw [lowerExpr]
    refine lowers_lowerAsmOperands (lowersOperand_operands cx ops) [] fun ops => ?_
    refine lowers_emit_constValue rfl (by intro _ _ phi; cases phi) ?_ 0 ty
    exact fun _ hm => hm
termination_by expr => 4 * sizeOf expr + 2

theorem lowersValue_args (cx : LowerContext) :
    ∀ args : List HirExpr, ∀ arg ∈ args.map fun arg => lowerExpr cx arg, LowersValue arg
  | [], _, hm => nomatch hm
  | first :: tl, arg, hm => by
    obtain rfl | hl := mem_cons.mp hm
    · exact lowersValue_lowerExpr cx first
    · exact lowersValue_args cx tl arg hl
termination_by args => 4 * sizeOf args

theorem lowersOperand_lowerAsmOperand (cx : LowerContext) :
    ∀ op : HirAsmOperand, LowersOperand (lowerAsmOperand cx op)
  | .in reg v => by
    intro hgv next hcont
    rw [lowerAsmOperand]
    exact (lowersValue_lowerExpr cx v).any.unlessDiverged Passive.pure fun v =>
      hcont (.in reg v)
  | .out reg tgt => by
    intro hgv next hcont
    rw [lowerAsmOperand]
    exact (lowersPlace_lowerPlace cx tgt).any.unlessDiverged (fun _ => .divergedValue)
      fun tgt => hcont (.out reg tgt)
  | .inOut reg inp out => by
    intro hgv next hcont
    rw [lowerAsmOperand]
    refine (lowersValue_lowerExpr cx inp).any.unlessDiverged Passive.pure fun inp => ?_
    refine (lowersPlace_lowerPlace cx out).any.unlessDiverged (fun _ => .divergedValue)
      fun out => ?_
    rw [append_assoc]
    exact hcont (.inOut reg inp out)
termination_by operand => 4 * sizeOf operand

theorem lowersOperand_operands (cx : LowerContext) : ∀ ops : List HirAsmOperand,
      ∀ op ∈ ops.map fun op => lowerAsmOperand cx op, LowersOperand op
  | [], _, hm => nomatch hm
  | first :: tl, op, hm => by
    obtain rfl | hl := mem_cons.mp hm
    · exact lowersOperand_lowerAsmOperand cx first
    · exact lowersOperand_operands cx tl op hl
termination_by operands => 4 * sizeOf operands

theorem lowersPlace_lowerPlace (cx : LowerContext) :
    ∀ expr : HirExpr, LowersPlace (lowerPlace cx expr)
  | .mk (.local _) _ _ | .mk (.static _) _ _ => by
    rw [lowerPlace]
    exact .pure (nil_subset _)
  | .mk (.unary .deref op) ty _ => by
    rw [lowerPlace]
    exact (lowersValue_lowerExpr cx op).pointerPlace ty
  | .mk (.field base _ off) ty _ => by
    rw [lowerPlace]
    exact (lowersPlace_lowerPlace cx base).fieldPlace off ty
  | .mk (.index base i) ty sp => by
    rw [lowerPlace]
    exact lowersPlace_indexPlace cx base.ty (lowersValue_lowerExpr cx base)
      (lowersPlace_lowerPlace cx base) (lowersValue_lowerExpr cx i) ty sp
  | .mk (.unary .neg _) _ _ | .mk (.unary .not _) _ _ | .mk (.unary .bitNot _) _ _
  | .mk (.unary (.addressOf _) _) _ _ | .mk (.constant _) _ _ | .mk (.function _) _ _
  | .mk (.enumVariant ..) _ _ | .mk (.array _) _ _ | .mk (.arrayRepeat ..) _ _
  | .mk (.struct ..) _ _ | .mk (.binary ..) _ _ | .mk (.assign ..) _ _ | .mk (.call ..) _ _
  | .mk (.callIndirect ..) _ _ | .mk (.intrinsic ..) _ _ | .mk (.cast ..) _ _
  | .mk (.asm ..) _ _ => by
    simp only [lowerPlace]
    exact .throw _
termination_by expr => 4 * sizeOf expr + 1

end

theorem lowers_discard {cmp : BuilderM ValueId} (lowers : LowersValue cmp) :
    Lowers given (do let _ ← cmp) fun _ => [] :=
  lowers.any.map fun _ _ bad => nomatch bad

mutual

theorem lowersInto_lowerInitializer (cx : LowerContext) :
    ∀ expr : HirExpr, LowersInto (lowerInitializer cx expr)
  | .mk kind ty sp => by
    intro plc
    rw [lowerInitializer]
    refine .orPanic_bind fun type => ?_
    split
    · exact lowers_discard (lowersValue_lowerExpr cx _)
    · cases kind with
      | struct structId fs =>
        exact lowers_initializeStruct cx plc structId (lowersInto_fields cx fs)
      | enumVariant enumId vr args =>
        exact lowers_initializeEnum cx plc enumId vr (lowersInto_values cx args)
      | array vs =>
        exact .passive_bind (passive_elementType cx plc sp _) fun elt =>
          lowers_initializeElements cx plc elt (lowersInto_values cx vs)
      | arrayRepeat v len =>
        exact .passive_bind (passive_elementType cx plc sp _) fun elt =>
          lowers_initializeRepeat cx plc elt (lowersValue_lowerExpr cx v)
            (lowersInto_lowerInitializer cx v) len sp
      | constant v =>
        cases v with
        | bytes bytes =>
          exact .passive_bind (passive_elementType cx plc sp _) fun elt =>
            lowers_initializeBytes cx plc elt bytes
        | _ =>
          exact lowers_initializeFrom cx plc (lowersPlace_lowerPlace cx _)
            (lowersValue_lowerExpr cx _) ty
      | _ =>
        exact lowers_initializeFrom cx plc (lowersPlace_lowerPlace cx _)
          (lowersValue_lowerExpr cx _) ty
termination_by expr => sizeOf expr

theorem lowersInto_values (cx : LowerContext) : ∀ vs : List HirExpr,
      ∀ fill ∈ vs.map fun v => lowerInitializer cx v, LowersInto fill
  | [], _, hm => nomatch hm
  | first :: tl, fill, hm => by
    obtain rfl | hl := mem_cons.mp hm
    · exact lowersInto_lowerInitializer cx first
    · exact lowersInto_values cx tl fill hl
termination_by values => sizeOf values

theorem lowersInto_fields (cx : LowerContext) : ∀ fs : List (Nat × HirExpr),
      ∀ fd ∈ fs.map fun fd => (fd.1, lowerInitializer cx fd.2), LowersInto fd.2
  | [], _, hm => nomatch hm
  | (i, v) :: tl, fd, hm => by
    obtain rfl | hl := mem_cons.mp hm
    · exact lowersInto_lowerInitializer cx v
    · exact lowersInto_fields cx tl fd hl
termination_by fields => sizeOf fields

end

end Ostadix.Ocore
