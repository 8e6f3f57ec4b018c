import Ostadix.Ocore.Elaborated

/-! # What the pass over bodies establishes

Every type in a checked body is in the type table, which only grows, and `Node` holds of every
expression. One lemma per function of the pass; those that take the recursive calls as computations
have the facts about these as hypotheses. -/

namespace Ostadix.Ocore

open Ast Lib List

/-! ## States of a body -/

structure BodyState.Valid (cx : BodyContext) (state : BodyState) : Prop where
  program : ProgramTables.Valid { cx.program with types := state.types }
  locals : ∀ entry ∈ state.locals, entry.ty < state.types.types.length

structure BodyState.Grows (cx : BodyContext) (before after : BodyState) : Prop where
  types : before.types.Extends after.types
  locals : before.locals <+: after.locals
  valid : after.Valid cx

def BodyContext.surroundings (cx : BodyContext) (state : BodyState) : Surroundings :=
  ⟨cx.program.statics, cx.program.functions.map (·.result), state.locals, state.types⟩

/-- The facts about a checked expression. -/
def Elaborated (surroundings : Surroundings) (expr : HirExpr) : Prop :=
  ExprForall (Node surroundings) expr ∧ expr.ty < surroundings.types.types.length

/-- The same before the span is known. -/
def KindElaborated (surroundings : Surroundings) (result : HirExprKind × TypeId) : Prop :=
  ∀ span, Elaborated surroundings (.mk result.1 result.2 span)

/-- The state grew and the value is good where it ended. -/
abbrev BodyState.Leads {α : Type} (state : BodyState) (cx : BodyContext)
    (good : Surroundings → α → Prop) (value : α) (after : BodyState) : Prop :=
  state.Grows cx after ∧ good (cx.surroundings after) value

section Facts

variable {cx : BodyContext} {s mid after : BodyState}

theorem BodyState.Valid.types (hv : s.Valid cx) : s.types.WellFormed :=
  hv.program.types

theorem BodyState.Valid.refl (hv : s.Valid cx) : s.Grows cx s :=
  ⟨.refl _, prefix_rfl, hv⟩

theorem BodyState.Grows.trans (first : s.Grows cx mid) (x2 : mid.Grows cx after) :
    s.Grows cx after :=
  ⟨first.types.trans x2.types, first.locals.trans x2.locals, x2.valid⟩

theorem BodyState.Grows.surroundings (hg : s.Grows cx after) :
    (cx.surroundings s).Grows (cx.surroundings after) :=
  ⟨rfl, rfl, hg.locals, hg.types⟩

theorem BodyState.Grows.lt (hg : s.Grows cx after) {ty : Nat}
    (hi : ty < s.types.types.length) : ty < after.types.types.length :=
  hg.types.lt hi

/-- A larger type table in the state. -/
theorem BodyState.Valid.grow (valid : s.Valid cx) {types : TypeTable}
    (hg : s.types.Grows types) : s.Grows cx { s with types }  where
  types := hg.1
  locals := prefix_rfl
  valid := ⟨valid.program.grow hg, fun e hm => hg.1.lt (valid.locals e hm)⟩

theorem BodyState.Grows.node (hg : s.Grows cx after) (expr : HirExpr)
    (hh : Node (cx.surroundings s) expr) : Node (cx.surroundings after) expr :=
  Node.grow hg.surroundings expr hh

theorem Elaborated.grow {expr : HirExpr} (hel : Elaborated (cx.surroundings s) expr)
    (hg : s.Grows cx after) : Elaborated (cx.surroundings after) expr :=
  ⟨.mono hg.node expr hel.1, hg.lt hel.2⟩

theorem ListForall.grow {exprs : List HirExpr}
    (all : ListForall (Node (cx.surroundings s)) exprs) (hg : s.Grows cx after) :
    ListForall (Node (cx.surroundings after)) exprs :=
  ListForall.mono hg.node exprs all

end Facts

/-! ## Computations that only read -/

/-- The computation leaves the state as it is. -/
def Reads {α : Type} (action : BodyM α) : Prop :=
  ∀ state, Ends True (action state) fun _ after => after = state

section Reads

variable {α β : Type} {cx : BodyContext}

theorem Reads.pure (v : α) : Reads (pure v : BodyM α) :=
  fun _ => rfl

variable {next : α → BodyM β}

theorem Reads.bind {action : BodyM α} (first : Reads action) (tl : ∀ v, Reads (next v)) :
    Reads (action >>= next) := by
  intro s
  refine .then (first s) fun v mid he => ?_
  subst he
  exact tl v mid

theorem Reads.lift_bind {act : CheckResult α} (tl : ∀ v, Reads (next v)) :
    Reads (do next (← act) : BodyM β) :=
  fun s => .run_bind fun v _ => tl v s

theorem Reads.get_bind {next : BodyState → BodyM β} (tl : ∀ s, Reads (next s)) :
    Reads (get >>= next) :=
  fun s => tl s s

theorem Reads.lift (act : CheckResult α) : Reads (liftM act : BodyM α) := by
  rw [← bind_pure (liftM act : BodyM α)]
  exact .lift_bind .pure

theorem Reads.then {action : BodyM α} (reads : Reads action) {s : BodyState}
    {post : β → BodyState → Prop} (tl : ∀ v, action s = .ok (v, s) → Ends True (next v s) post) :
    Ends True ((action >>= next) s) post := by
  refine .bind ?_
  cases ran : action s with
  | ok r =>
    obtain ⟨v, t⟩ := r
    have he : t = s := (reads s).ok ran
    exact he ▸ tl v (he ▸ ran)
  | error error =>
    cases error with
    | diagnostic | panic => trivial

theorem reads_bodyError (sp : Span) (msg : String) : Reads (bodyError cx sp msg : BodyM α) :=
  fun _ => trivial

theorem reads_bodyType (ty : TypeId) : Reads (bodyType ty) :=
  .get_bind fun _ => .lift _

theorem reads_lookupLocal (name : String) : Reads (lookupLocal name) :=
  .get_bind fun _ => .pure _

theorem reads_expectAssignable (actual want : TypeId) (sp : Span) :
    Reads (expectAssignable cx actual want sp) := by
  rw [expectAssignable]
  split
  · refine .bind (reads_bodyType _) fun kind => ?_
    split
    · exact .get_bind fun _ => .lift_bind fun _ => .get_bind fun _ => .lift_bind fun _ =>
        reads_bodyError _ _
    · exact .pure ()
  · exact .pure ()

theorem Ends.assignable {actual want : TypeId} {sp : Span} {next : Unit → BodyM β} {s : BodyState}
    {post : β → BodyState → Prop} (ends : Ends True (next () s) post) :
    Ends True ((expectAssignable cx actual want sp >>= next) s) post :=
  (reads_expectAssignable actual want sp).then fun _ _ => ends

theorem reads_ensureIntegerFits (v : UInt64) (ty : TypeId) (sp : Span) :
    Reads (ensureIntegerFits cx v ty sp) := by
  rw [ensureIntegerFits]
  refine .bind (reads_bodyType _) fun kind => ?_
  split
  · exact reads_bodyError _ _
  · split
    · exact .get_bind fun _ => .lift_bind fun _ => reads_bodyError _ _
    · exact .pure ()

theorem reads_requireUnsafe (sp : Span) (op : String) : Reads (requireUnsafe cx sp op) := by
  rw [requireUnsafe]
  split
  · exact reads_bodyError _ _
  · exact .pure ()

theorem reads_ensurePlace (expr : HirExpr) (mutable : Bool) :
    Reads (ensurePlace cx expr mutable) := by
  rw [ensurePlace]
  split
  · refine .get_bind fun s => .lift_bind fun isMutable => ?_
    split
    · exact reads_bodyError _ _
    · exact .pure ()
  · split
    · exact reads_bodyError _ _
    · exact .pure ()

theorem reads_requireAsmOperandType (ty : TypeId) (sp : Span) :
    Reads (requireAsmOperandType cx ty sp) := by
  rw [requireAsmOperandType]
  refine .bind (reads_bodyType _) fun kind => ?_
  split
  · exact reads_bodyError _ _
  · exact .pure ()

end Reads

/-! ## Types of a state -/

variable {ty : TypeId} {tb : TypeTable}

section Types

variable {cx : BodyContext} {s : BodyState}

variable {kind : HirType}

theorem bodyType_eq_ok : bodyType ty s = .ok (kind, s) ↔ s.types.types[ty]? = some kind := by
  show (liftM (s.types.typeAt ty) : BodyM HirType) s = _ ↔ _
  rw [← TypeTable.typeAt_eq_ok]
  cases s.types.typeAt ty with
  | ok => exact ⟨fun he => by cases he; rfl, fun he => by cases he; rfl⟩
  | error => exact ⟨nofun, nofun⟩

theorem lt_of_found (hf : tb.types[ty]? = some kind) : ty < tb.types.length :=
  (List.getElem?_eq_some_iff.mp hf).1

theorem lt_of_isInteger {ans : Bool} (hans : tb.isInteger ty = .ok ans) : ty < tb.types.length := by
  rw [TypeTable.isInteger] at hans
  cases hf : tb.typeAt ty with
  | ok => exact TypeTable.lt_of_typeAt hf
  | error =>
    rw [hf] at hans
    cases hans

section

variable (hv : s.Valid cx)

include hv

theorem BodyState.Valid.primitive_lt {name : String} (hf : primitiveId name = .ok ty) :
    ty < s.types.types.length :=
  hv.types.primitive_lt (unwrap_eq_ok.mp hf)

/-- The component types of a type in the table. -/
theorem BodyState.Valid.component_lt {ty o : Nat} (hf : s.types.types[ty]? = some kind)
    (component : s.types.Admits ty kind → o < ty) : o < s.types.types.length :=
  Nat.lt_trans (component (hv.types.admits hf)) (lt_of_found hf)

theorem ends_internBody (hadm : s.types.Admits s.types.types.length kind) :
    Ends True (internBody kind s) fun ty t =>
      s.Grows cx t ∧ ty < t.types.types.length := by
  obtain ⟨hg, hf⟩ := TypeTable.intern_grows hv.types hadm
  exact ⟨hv.grow hg, lt_of_found hf⟩

theorem internBody_then {β : Type} {next : TypeId → BodyM β} {post : β → BodyState → Prop}
    (hadm : s.types.Admits s.types.types.length kind)
    (tl : ∀ ty t, s.Grows cx t → ty < t.types.types.length →
      Ends True (next ty t) post) : Ends True ((internBody kind >>= next) s) post :=
  Ends.then (ends_internBody hv hadm) fun ty t interned =>
    tl ty t interned.1 interned.2

theorem ends_resolveBodyType (ty : TypeExpr) : Ends True (resolveBodyType cx ty s) fun id t =>
      s.Grows cx t ∧ id < t.types.types.length := by
  have resolves : Resolves s.types (resolveType cx.scope cx.program.symbols ty s.types) :=
    resolves_type hv.types hv.program.symbols ty
  rw [resolveBodyType]
  cases ran : resolveType cx.scope cx.program.symbols ty s.types with
  | error error => cases error <;> trivial
  | ok =>
    obtain ⟨hg, hi⟩ := resolves.ok ran
    exact ⟨hv.grow hg, hi⟩

end

end Types

/-! ## Literals and aggregates -/

def Elaborates (cx : BodyContext) (check : Check) : Prop :=
  ∀ expected state, state.Valid cx → Ends True (check expected state) (state.Leads cx Elaborated)

/-- The same of a computation that does not wait for an expected type. -/
def ElaboratesExpr (cx : BodyContext) (checked : BodyM HirExpr) : Prop :=
  ∀ state, state.Valid cx → Ends True (checked state) (state.Leads cx Elaborated)

def ElaboratesKind (cx : BodyContext) (checked : BodyM (HirExprKind × TypeId)) : Prop :=
  ∀ state, state.Valid cx → Ends True (checked state) (state.Leads cx KindElaborated)

variable {state after : BodyState}

section Checks

variable {cx : BodyContext} {s : BodyState}

theorem Elaborates.then {check : Check} (hela : Elaborates cx check) {β : Type}
    {want : Option TypeId} {next : HirExpr → BodyM β}
    {post : β → BodyState → Prop} (hv : s.Valid cx)
    (tl : ∀ expr mid, s.Grows cx mid → Elaborated (cx.surroundings mid) expr →
      Ends True (next expr mid) post) : Ends True ((check want >>= next) s) post :=
  Ends.then (hela want s hv) fun expr mid hk =>
    tl expr mid hk.1 hk.2

/-- An expression about whose kind there is nothing to say but where its type is. -/
theorem elaborated_mk {surroundings : Surroundings} {kind : HirExprKind} {ty : Nat} {sp : Span}
    (n : Node surroundings (.mk kind ty sp)) (pts : KindForall (Node surroundings) kind)
    (hi : ty < surroundings.types.types.length) : Elaborated surroundings (.mk kind ty sp) :=
  ⟨by rw [ExprForall]; exact ⟨n, pts⟩, hi⟩

theorem elaborates_checkInteger (v : UInt64) (sp : Span) (want : Option TypeId) :
    ElaboratesKind cx (checkInteger cx v sp want) := by
  intro s hv
  have fin {ty : Nat} (hi : ty < s.types.types.length) :
      Ends True ((do ensureIntegerFits cx v ty sp; pure (.constant (.integer v), ty) :
        BodyM (HirExprKind × TypeId)) s) (s.Leads cx KindElaborated) :=
    (reads_ensureIntegerFits v ty sp).then fun _ _ =>
      ⟨hv.refl, fun _ => elaborated_mk trivial trivial hi⟩
  rw [checkInteger]
  refine .get_bind ?_
  cases want with
  | none => exact .run_bind fun ty hf => fin (hv.primitive_lt hf)
  | some ty =>
    refine .run_bind fun ans hans => ?_
    split
    · exact fin (lt_of_isInteger hans)
    · exact .run_bind fun ty hf => fin (hv.primitive_lt hf)

theorem elaborates_checkByteString (bs : List UInt8) : ElaboratesKind cx (checkByteString bs) := by
  intro s hv
  rw [checkByteString]
  refine .run_bind fun byte hf => ?_
  refine internBody_then hv (hv.primitive_lt hf) fun ty t hg hi => ?_
  exact ⟨hg, fun _ => elaborated_mk trivial trivial hi⟩

/-- An expected element type is in the table. -/
theorem ends_expectedElement (hv : s.Valid cx) (hexp : Option TypeId) (len : UInt64) :
    Ends True (expectedElement hexp len s) fun elt t =>
      t = s ∧ ∀ ty ∈ elt, ty < s.types.types.length := by
  cases hexp with
  | none => exact ⟨rfl, nofun⟩
  | some ty =>
    rw [expectedElement]
    refine (reads_bodyType ty).then fun kind hf => ?_
    split
    · split
      · refine ⟨rfl, ?_⟩
        rintro _ ⟨⟩
        exact hv.component_lt (bodyType_eq_ok.mp hf) id
      · exact ⟨rfl, nofun⟩
    · exact ⟨rfl, nofun⟩

theorem ends_checkElements {checks : List Check} (hela : ∀ check ∈ checks, Elaborates cx check)
    (hv : s.Valid cx) (elt : Option TypeId) (hi : ∀ ty ∈ elt, ty < s.types.types.length) :
    Ends True (checkElements cx checks elt s) fun r t => s.Grows cx t ∧
      ListForall (Node (cx.surroundings t)) r.1 ∧
      ∀ ty ∈ r.2, ty < t.types.types.length := by
  induction checks generalizing s elt with
  | nil => exact ⟨hv.refl, trivial, hi⟩
  | cons check checks ih =>
    obtain ⟨first, tl⟩ := forall_mem_cons.mp hela
    rw [checkElements]
    refine first.then hv fun v mid hg hel => ?_
    have next {ty : Nat} (hk : ty < mid.types.types.length) : Ends True ((do
          let r ← checkElements cx checks (some ty)
          return (v :: r.1, r.2) : BodyM (List HirExpr × Option TypeId)) mid)
          fun r t => s.Grows cx t ∧ ListForall (Node (cx.surroundings t)) r.1 ∧
            ∀ ty ∈ r.2, ty < t.types.types.length := by
      have hk : ∀ o ∈ some ty, o < mid.types.types.length := by
        rintro _ ⟨⟩
        exact hk
      refine .then (ih tl hg.valid (some ty) hk) fun r t checked => ?_
      obtain ⟨hg', all, last⟩ := checked
      exact ⟨hg.trans hg', ⟨(hel.grow hg').1, all⟩, last⟩
    cases elt with
    | none => exact next hel.2
    | some ty => exact .assignable (next (hg.lt (hi ty rfl)))

theorem elaborates_checkArray {vs : List Check}
    (hela : ∀ check ∈ vs, Elaborates cx check) (sp : Span) (want : Option TypeId) :
    ElaboratesKind cx (checkArray cx vs sp want) := by
  intro s hv
  rw [checkArray]
  refine .then (ends_expectedElement hv want _) fun elt same hi => ?_
  obtain ⟨rfl, hi⟩ := hi
  refine .then (ends_checkElements hela hv elt hi) fun r mid ⟨hg, all, last⟩ => ?_
  obtain ⟨_, elt⟩ := r
  cases elt with
  | none => trivial
  | some elt =>
    refine internBody_then hg.valid (last elt rfl) fun ty t hg' hi => ?_
    exact ⟨hg.trans hg', fun _ => elaborated_mk trivial (all.grow hg') hi⟩

theorem elaborates_checkArrayRepeat {v : Check} (hela : Elaborates cx v)
    (len : UInt64) (want : Option TypeId) :
    ElaboratesKind cx (checkArrayRepeat cx v len want) := by
  intro s hv
  rw [checkArrayRepeat]
  refine .then (ends_expectedElement hv want _) fun elt he hi => ?_
  obtain ⟨rfl, hi⟩ := hi
  refine hela.then hv fun v mid hg hel => ?_
  have fin {ty : Nat} (hk : ty < mid.types.types.length) :
      Ends True ((do return (.arrayRepeat v len, ← internBody (.array ty len)) :
        BodyM (HirExprKind × TypeId)) mid) (he.Leads cx KindElaborated) := by
    refine internBody_then hg.valid hk fun ty t hg' hi => ?_
    exact ⟨hg.trans hg', fun _ => elaborated_mk trivial (hel.grow hg').1 hi⟩
  cases elt with
  | none => exact fin hel.2
  | some ty => exact .assignable (fin (hg.lt (hi ty rfl)))

theorem ends_checkStructFields (e : StructEntry) (sp : Span)
    {fs : List (String × Check)} (hela : ∀ fd ∈ fs, Elaborates cx fd.2)
    (hv : s.Valid cx) (seen : List Nat) :
    Ends True (checkStructFields cx e sp fs seen s) fun hord t =>
      s.Grows cx t ∧ FieldsForall (Node (cx.surroundings t)) hord := by
  induction fs generalizing s seen with
  | nil => exact ⟨hv.refl, trivial⟩
  | cons fd fs ih =>
    obtain ⟨_, _⟩ := fd
    obtain ⟨first, tl⟩ := forall_mem_cons.mp hela
    rw [checkStructFields]
    refine .of_run ?_
    split
    · trivial
    · refine .guard trivial fun _ => ?_
      refine .run_bind fun fd _ => ?_
      refine first.then hv fun v mid hg hel => ?_
      refine .assignable ?_
      refine .then (ih tl hg.valid _) fun hord t ⟨hg', all⟩ => ?_
      exact ⟨hg.trans hg', (hel.grow hg').1, all⟩

theorem elaborates_checkStruct (path : Path) {fs : List (String × Check)}
    (hela : ∀ fd ∈ fs, Elaborates cx fd.2) (sp : Span) :
    ElaboratesKind cx (checkStruct cx path fs sp) := by
  intro s hv
  rw [checkStruct]
  refine (Reads.lift _).then fun hql _ => Ends.of_run ?_
  split
  · rename_i ty _
    refine (reads_bodyType ty).then fun kind hf => Ends.of_run ?_
    split
    · refine .get_bind (.run_bind fun e _ => .guard trivial fun _ => ?_)
      refine .then (ends_checkStructFields e sp hela hv []) fun hord t checked => ?_
      obtain ⟨hg, all⟩ := checked
      exact ⟨hg, fun _ => elaborated_mk trivial all (hg.lt (lt_of_found (bodyType_eq_ok.mp hf)))⟩
    · trivial
  · trivial

/-! ## Operators -/

theorem ends_signedLiteral (op : UnaryOp) (opd : Expr) (want : Option TypeId) (sp : Span) :
    Ends True (signedLiteral cx op opd want sp s) fun literal t =>
      t = s ∧ ∀ expr ∈ literal, Elaborated (cx.surroundings s) expr := by
  unfold signedLiteral
  refine .of_run ?_
  split
  · rename_i v operandSpan ty
    refine (reads_bodyType ty).then fun kind hf => ?_
    have literal : ∀ expr ∈ some (.mk (.constant (.integer v)) ty operandSpan),
        Elaborated (cx.surroundings s) expr := by
      rintro _ ⟨⟩
      exact elaborated_mk trivial trivial (lt_of_found (bodyType_eq_ok.mp hf))
    cases kind with
    | int hsg =>
      cases hsg with
      | false => exact ⟨rfl, nofun⟩
      | true =>
        simp only [pure_bind]
        refine .guard trivial fun _ => ?_
        exact ⟨rfl, literal⟩
    | isize =>
      simp only [pure_bind]
      refine .guard trivial fun _ => ?_
      exact ⟨rfl, literal⟩
    | _ => exact ⟨rfl, nofun⟩
  · exact ⟨rfl, nofun⟩

theorem ends_unaryType (hv : s.Valid cx) (op : UnaryOp)
    {opd : HirExpr} (hel : Elaborated (cx.surroundings s) opd) (sp : Span) :
    Ends True (unaryType cx op opd sp s) fun ty t =>
      s.Grows cx t ∧ ty < t.types.types.length := by
  cases op with
  | neg | bitNot =>
    refine .get_bind (.run_bind fun ans _ => .guard trivial fun _ => ?_)
    exact ⟨hv.refl, hel.2⟩
  | not =>
    refine .run_bind fun bool hf => ?_
    refine .assignable ?_
    exact ⟨hv.refl, hv.primitive_lt hf⟩
  | deref =>
    refine (reads_requireUnsafe _ _).then fun _ _ => ?_
    refine (reads_bodyType _).then fun kind hf => .of_run ?_
    split
    · exact ⟨hv.refl, hv.component_lt (bodyType_eq_ok.mp hf) id⟩
    · trivial
  | addressOf =>
    refine (reads_ensurePlace _ _).then fun _ _ => ?_
    exact ends_internBody hv hel.2

theorem elaborates_checkUnary (op : UnaryOp) (operandAst : Expr) {opd : Check}
    (hela : Elaborates cx opd) (sp : Span) (want : Option TypeId) :
    ElaboratesKind cx (checkUnary cx op operandAst opd sp want) := by
  intro s hv
  have typed {mid : BodyState} (hg : s.Grows cx mid) {opd : HirExpr}
      (hel : Elaborated (cx.surroundings mid) opd) : Ends True ((do
        let ty ← unaryType cx op opd sp
        return (.unary op opd, ty) : BodyM (HirExprKind × TypeId)) mid)
        (s.Leads cx KindElaborated) := by
    refine .then (ends_unaryType hg.valid op hel sp) fun ty t typed => ?_
    exact ⟨hg.trans typed.1, fun _ => elaborated_mk trivial (hel.grow typed.1).1 typed.2⟩
  rw [checkUnary]
  refine .get_bind (.of_run ?_)
  split
  case' h_1 | h_2 =>
    refine .run_bind fun ans _ => .of_run ?_
    split
  -- whatever type is expected of the operand
  all_goals
    rw [pure_bind]
    refine .then (ends_signedLiteral _ operandAst _ sp) fun literal mid read => ?_
    obtain ⟨rfl, all⟩ := read
    cases literal with
    | some literal => exact typed hv.refl (all literal rfl)
    | none => exact hela.then hv fun expr mid hg hel => typed hg hel

theorem ends_binaryType (hv : s.Valid cx) (op : BinaryOp)
    {lhs : HirExpr} (rhs : HirExpr) (hel : Elaborated (cx.surroundings s) lhs) (sp : Span) :
    Ends True (binaryType cx op lhs rhs sp s) fun ty t =>
      t = s ∧ ty < s.types.types.length := by
  rw [binaryType]
  refine .run_bind fun bool hf => .get_bind (.of_run ?_)
  have boolIn := hv.primitive_lt hf
  split
  · refine .assignable ?_
    refine .assignable ?_
    exact ⟨rfl, boolIn⟩
  · split
    · refine .assignable ?_
      refine .run_bind fun _ _ => .run_bind fun _ _ => .guard trivial fun _ => ?_
      refine .run_bind fun _ _ => .guard trivial fun _ => ?_
      exact ⟨rfl, boolIn⟩
    · split
      · refine .run_bind fun _ _ => .guard trivial fun _ => ?_
        refine .run_bind fun _ _ => .guard trivial fun _ => ?_
        exact ⟨rfl, hel.2⟩
      · refine .run_bind fun _ _ => .run_bind fun _ _ => .of_run ?_
        split
        · refine (reads_requireUnsafe _ _).then fun _ _ => ?_
          exact ⟨rfl, hel.2⟩
        · refine .assignable ?_
          refine .run_bind fun _ _ => .guard trivial fun _ => ?_
          exact ⟨rfl, hel.2⟩

theorem elaborates_checkBinary (op : BinaryOp) {lhs rhs : Check}
    (elaboratesLhs : Elaborates cx lhs) (elaboratesRhs : Elaborates cx rhs) (sp : Span)
    (want : Option TypeId) : ElaboratesKind cx (checkBinary cx op lhs rhs sp want) := by
  intro s hv
  rw [checkBinary]
  refine elaboratesLhs.then hv fun lhs mid hg hel => ?_
  have fin (rhsExpected : TypeId) : Ends True ((do
      let rhs ← rhs (some rhsExpected)
      let ty ← binaryType cx op lhs rhs sp
      return (.binary op lhs rhs, ty) : BodyM (HirExprKind × TypeId)) mid)
      (s.Leads cx KindElaborated) := by
    refine elaboratesRhs.then hg.valid fun rhs t hg' hel' => ?_
    have lhsThere := hel.grow hg'
    refine .then (ends_binaryType hg'.valid op rhs lhsThere sp) fun ty same typed => ?_
    obtain ⟨rfl, hi⟩ := typed
    exact ⟨hg.trans hg', fun _ => elaborated_mk trivial ⟨lhsThere.1, hel'.1⟩ hi⟩
  refine (reads_bodyType _).then fun kind _ => .of_run ?_
  split
  · exact .run_bind fun usize _ => fin usize
  · exact fin _

theorem mutable_of_ensurePlace {expr : HirExpr}
    (ensured : ensurePlace cx expr true s = .ok ((), s)) :
    (cx.surroundings s).Mutable expr := by
  have ran : (do
      if !(← isMutablePlace cx.program.statics s.locals s.types expr) then
        bodyError cx expr.span "target is not a mutable place" : BodyM Unit) s =
      .ok ((), s) := ensured
  obtain ⟨isMutable, _, hk, ran⟩ := run_bind_eq_ok.mp ran
  obtain ⟨hk, rfl⟩ := run_lift_eq_ok.mp hk
  cases isMutable with
  | true => exact hk
  | false => cases ran

theorem elaborates_checkAssign (op : Option BinaryOp) {target v : Check}
    (elaboratesTarget : Elaborates cx target) (elaboratesValue : Elaborates cx v)
    (sp : Span) : ElaboratesKind cx (checkAssign cx op target v sp) := by
  intro st hv
  rw [checkAssign]
  refine elaboratesTarget.then hv fun target mid hg hel => ?_
  refine (reads_ensurePlace _ _).then fun _ ensured => ?_
  have isMutable := mutable_of_ensurePlace ensured
  have fin {v : HirExpr} {t : BodyState} (hg' : mid.Grows cx t)
      (hel' : Elaborated (cx.surroundings t) v) : Ends True ((do
        return (.assign op target v, ← primitiveId "void") : BodyM (HirExprKind × TypeId)) t)
      (st.Leads cx KindElaborated) :=
    Ends.run_bind fun void hf => ⟨hg.trans hg', fun _ =>
      elaborated_mk (isMutable.grow hg'.surroundings)
        ⟨(hel.grow hg').1, hel'.1⟩ (hg'.valid.primitive_lt hf)⟩
  refine .of_run ?_
  split
  case' isTrue =>
    refine .run_bind fun usize _ => ?_
    refine elaboratesValue.then hg.valid fun v t hg' hel' => ?_
    refine .get_bind (.run_bind fun _ _ => .guard trivial fun _ => ?_)
  case' isFalse =>
    rw [pure_bind]
    refine elaboratesValue.then hg.valid fun v t hg' hel' => ?_
    refine .assignable ?_
  all_goals
    cases op with
    | none => exact fin hg' hel'
    | some =>
      exact .get_bind (.run_bind fun _ _ => .guard trivial fun _ => fin hg' hel')

theorem elaborates_checkField {base : Check} (hela : Elaborates cx base) (name : String)
    (sp : Span) : ElaboratesKind cx (checkField cx base name sp) := by
  intro s hv
  rw [checkField]
  refine hela.then hv fun base mid hg hel => ?_
  refine (reads_bodyType _).then fun kind _ => .of_run ?_
  split
  · refine .get_bind (.run_bind fun e hf => .of_run ?_)
    split
    · trivial
    · refine .run_bind fun fd foundField => ?_
      have hi := hg.valid.types.fields e (mem_of_getElem? (unwrap_eq_ok.mp hf)) fd
        (mem_of_getElem? (unwrap_eq_ok.mp foundField))
      exact ⟨hg, fun _ => elaborated_mk trivial hel.1 hi⟩
  · trivial

theorem elaborates_checkIndex {base i : Check} (elaboratesBase : Elaborates cx base)
    (elaboratesIndex : Elaborates cx i) (sp : Span) :
    ElaboratesKind cx (checkIndex cx base i sp) := by
  intro s hv
  rw [checkIndex]
  refine elaboratesBase.then hv fun base mid hg hel => ?_
  refine Ends.run_bind fun usize _ => ?_
  refine elaboratesIndex.then hg.valid fun i t hg' hel' => ?_
  refine Ends.get_bind (Ends.run_bind fun _ _ => Ends.of_run ?_)
  have pts := And.intro (hel.grow hg').1 hel'.1
  split
  · trivial
  · refine (reads_bodyType _).then fun kind hf => Ends.of_run ?_
    split
    · have hi := hg'.valid.component_lt (bodyType_eq_ok.mp hf) id
      exact ⟨hg.trans hg', fun _ => elaborated_mk trivial pts hi⟩
    · have hi := hg'.valid.component_lt (bodyType_eq_ok.mp hf) id
      refine (reads_requireUnsafe _ _).then fun _ _ => ?_
      exact ⟨hg.trans hg', fun _ => elaborated_mk trivial pts hi⟩
    · trivial

theorem elaborates_checkCast {v : Check} (hela : Elaborates cx v) (ty : TypeExpr)
    (sp : Span) : ElaboratesKind cx (checkCast cx v ty sp) := by
  intro s hv
  rw [checkCast]
  refine hela.then hv fun v mid hg hel => ?_
  refine .then (ends_resolveBodyType hg.valid ty) fun tgt t ⟨hg', hi⟩ => ?_
  have close : Ends True ((pure (.cast v tgt, tgt) : BodyM (HirExprKind × TypeId)) t)
      (s.Leads cx KindElaborated) :=
    ⟨hg.trans hg', fun _ => elaborated_mk rfl (hel.grow hg').1 hi⟩
  refine (reads_bodyType _).then fun fromTy _ => ?_
  refine (reads_bodyType _).then fun toTy _ => ?_
  refine .guard trivial fun _ => .guard trivial fun _ => ?_
  have signature : Ends True ((do
      if v.ty ≠ tgt && fromTy.isFunction && toTy.isFunction then
        requireUnsafe cx sp "function-pointer signature or ABI cast"
      return (.cast v tgt, tgt) : BodyM (HirExprKind × TypeId)) t)
      (s.Leads cx KindElaborated) :=
    Ends.ite (fun _ => (reads_requireUnsafe _ _).then fun _ _ => close) fun _ => close
  exact .ite (fun _ => (reads_requireUnsafe _ _).then fun _ _ => signature) fun _ => signature

/-! ## Inline assembly -/

/-- The facts about a checked operand. -/
def OperandOk (surroundings : Surroundings) (operand : HirAsmOperand) : Prop :=
  OperandsForall (Node surroundings) [operand] ∧
    ∀ target ∈ operand.target, surroundings.Mutable target

theorem operandsForall_cons {post : HirExpr → Prop} (op : HirAsmOperand)
    (ops : List HirAsmOperand) : OperandsForall post (op :: ops) ↔
      OperandsForall post [op] ∧ OperandsForall post ops := by
  cases op <;> simp [OperandsForall]

theorem OperandOk.grow {op : HirAsmOperand} (ok : OperandOk (cx.surroundings state) op)
    (hg : state.Grows cx after) : OperandOk (cx.surroundings after) op :=
  ⟨.mono hg.node _ ok.1, fun tgt hwr => (ok.2 tgt hwr).grow hg.surroundings⟩

def ElaboratesOperand (cx : BodyContext) (checked : BodyM HirAsmOperand) : Prop :=
  ∀ state, state.Valid cx → Ends True (checked state) (state.Leads cx OperandOk)

theorem elaborates_checkAsmIn (reg : String) {v : Check}
    (hela : Elaborates cx v) : ElaboratesOperand cx (checkAsmIn cx reg v) := by
  intro s hv
  rw [checkAsmIn]
  refine hela.then hv fun v mid hg hel => ?_
  refine (reads_requireAsmOperandType _ _).then fun _ _ => ?_
  exact ⟨hg, ⟨hel.1, trivial⟩, nofun⟩

theorem elaborates_checkAsmOut (reg : String) {tgt : Check}
    (hela : Elaborates cx tgt) : ElaboratesOperand cx (checkAsmOut cx reg tgt) := by
  intro s hv
  rw [checkAsmOut]
  refine hela.then hv fun tgt mid hg hel => ?_
  refine (reads_ensurePlace _ _).then fun _ ensured => ?_
  refine (reads_requireAsmOperandType _ _).then fun _ _ => ?_
  refine ⟨hg, ⟨hel.1, trivial⟩, ?_⟩
  rintro _ ⟨⟩
  exact mutable_of_ensurePlace ensured

theorem elaborates_checkAsmInOut (reg : String) {inp out : Check}
    (elaboratesInput : Elaborates cx inp) (elaboratesOutput : Elaborates cx out) :
    ElaboratesOperand cx (checkAsmInOut cx reg inp out) := by
  intro s hv
  rw [checkAsmInOut]
  refine elaboratesInput.then hv fun inp mid hg hel => ?_
  refine elaboratesOutput.then hg.valid fun out t hg' hel' => ?_
  refine (reads_ensurePlace _ _).then fun _ ensured => ?_
  refine .assignable ?_
  refine (reads_requireAsmOperandType _ _).then fun _ _ => ?_
  refine (reads_requireAsmOperandType _ _).then fun _ _ => ?_
  refine ⟨hg.trans hg', ⟨⟨(hel.grow hg').1, hel'.1⟩, trivial⟩, ?_⟩
  rintro _ ⟨⟩
  exact mutable_of_ensurePlace ensured

variable {ops : List (BodyM HirAsmOperand)}

theorem ends_runAll (hela : ∀ op ∈ ops, ElaboratesOperand cx op) (hv : s.Valid cx) :
    Ends True (runAll ops s) fun hk t => s.Grows cx t ∧
      OperandsForall (Node (cx.surroundings t)) hk ∧
      ∀ op ∈ hk, ∀ tgt ∈ op.target, (cx.surroundings t).Mutable tgt := by
  induction ops generalizing s with
  | nil => exact ⟨hv.refl, trivial, nofun⟩
  | cons op ops ih =>
    obtain ⟨first, tl⟩ := forall_mem_cons.mp hela
    refine .then (first s hv) fun op mid ⟨hg, ok⟩ => ?_
    refine .then (ih tl hg.valid) fun ops t ⟨hg', all, hwr⟩ => ?_
    have there := ok.grow hg'
    exact ⟨hg.trans hg', (operandsForall_cons _ _).mpr ⟨there.1, all⟩,
      forall_mem_cons.mpr ⟨there.2, hwr⟩⟩

theorem elaborates_checkAsm (template : String)
    (hela : ∀ op ∈ ops, ElaboratesOperand cx op) (options : List String)
    (sp : Span) : ElaboratesKind cx (checkAsm cx template ops options sp) := by
  intro s hv
  rw [checkAsm]
  refine (reads_requireUnsafe _ _).then fun _ _ => ?_
  refine .then (ends_runAll hela hv) fun ops t ⟨hg, all, hwr⟩ => ?_
  refine .of_run ?_
  split
  · trivial
  · exact .run_bind fun void hf =>
      ⟨hg, fun _ => elaborated_mk hwr all (hg.valid.primitive_lt hf)⟩

/-! ## Names -/

theorem elaborates_checkStaticPath (id : StaticId) (sp : Span) :
    ElaboratesExpr cx (checkStaticPath cx id sp) := by
  intro s hv
  rw [checkStaticPath]
  refine .run_bind fun e hf => ?_
  have hi := hv.program.statics e (mem_of_getElem? (unwrap_eq_ok.mp hf))
  exact .ite (fun _ => (reads_requireUnsafe _ _).then fun _ _ =>
    ⟨hv.refl, elaborated_mk trivial trivial hi⟩) fun _ =>
      ⟨hv.refl, elaborated_mk trivial trivial hi⟩

theorem lt_of_typeForEnum {id : EnumId} (hf : typeForEnum tb id = .ok ty) : ty < tb.types.length :=
  (idxOf?_eq_some_iff.mp (unwrap_eq_ok.mp hf)).1

theorem elaborates_checkVariantPath (qn : String) (sp : Span) :
    ElaboratesExpr cx (checkVariantPath cx qn sp) := by
  intro s hv
  rw [checkVariantPath]
  refine .get_bind (.run_bind fun hres _ => ?_)
  cases hres with
  | none => trivial
  | some hf =>
    obtain ⟨id, vr⟩ := hf
    refine .get_bind (.run_bind fun e foundEntry => ?_)
    refine .run_bind fun variantEntry foundVariant => ?_
    refine .guard trivial fun noPayload => ?_
    refine .get_bind (.run_bind fun ty hf => ?_)
    have n : PayloadCount (cx.surroundings s).types id vr ([] : List HirExpr).length := by
      refine ⟨e, variantEntry, unwrap_eq_ok.mp foundEntry, unwrap_eq_ok.mp foundVariant, ?_⟩
      simpa using noPayload
    exact ⟨hv.refl, elaborated_mk n trivial (lt_of_typeForEnum hf)⟩

theorem paramTypes_lt (hv : s.Valid cx) {fn : FunctionEntry}
    (hm : fn ∈ cx.program.functions) {params : List TypeId} (hf : fn.paramTypes = .ok params) :
    ∀ param ∈ params, param < s.types.types.length := by
  rw [FunctionEntry.paramTypes] at hf
  intro param hls
  obtain ⟨_, -, hf⟩ := exists_of_forall₂ (mapM_eq_ok.mp hf).flip hls
  obtain ⟨e, foundEntry, ⟨⟩⟩ := bind_eq_ok.mp hf
  exact (hv.program.functions fn hm).2 e (mem_of_getElem? (unwrap_eq_ok.mp foundEntry))

theorem elaborates_checkGlobalPath (path : Path) (sp : Span) :
    ElaboratesExpr cx (checkGlobalPath cx path sp) := by
  intro s hv
  rw [checkGlobalPath]
  refine (Reads.lift _).then fun hql _ => Ends.of_run ?_
  split
  · refine Ends.run_bind fun fn hf => Ends.run_bind fun params foundParams => ?_
    have hm := mem_of_getElem? (unwrap_eq_ok.mp hf)
    have hadm := And.intro (paramTypes_lt hv hm foundParams) (hv.program.functions fn hm).1
    refine internBody_then hv hadm fun ty t hg hi => ?_
    exact ⟨hg, elaborated_mk trivial trivial hi⟩
  · exact elaborates_checkStaticPath _ sp s hv
  · refine .run_bind fun e hf => ?_
    have hi := hv.program.consts e (mem_of_getElem? (unwrap_eq_ok.mp hf))
    exact ⟨hv.refl, elaborated_mk trivial trivial hi⟩
  · trivial
  · exact elaborates_checkVariantPath hql sp s hv

theorem elaborates_checkPath (path : Path) (sp : Span) :
    ElaboratesExpr cx (checkPath cx path sp) := by
  intro s hv
  unfold checkPath
  refine .of_run ?_
  split
  · rename_i name
    refine (reads_lookupLocal name).then fun hf _ => .of_run ?_
    split
    · refine .get_bind (.run_bind fun e hf => ?_)
      have hi := hv.locals e (mem_of_getElem? (unwrap_eq_ok.mp hf))
      exact ⟨hv.refl, elaborated_mk trivial trivial hi⟩
    · split
      · exact .run_bind fun byte hf =>
          ⟨hv.refl, elaborated_mk trivial trivial (hv.primitive_lt hf)⟩
      · exact elaborates_checkGlobalPath [name] sp s hv
  · exact elaborates_checkGlobalPath path sp s hv

/-! ## Calls -/

theorem ends_checkArguments {args : List (Check × TypeId)}
    (hela : ∀ arg ∈ args, Elaborates cx arg.1) (hv : s.Valid cx) :
    Ends True (checkArguments cx args s) fun hk t => s.Grows cx t ∧
      ListForall (Node (cx.surroundings t)) hk ∧ hk.length = args.length := by
  induction args generalizing s with
  | nil => exact ⟨hv.refl, trivial, rfl⟩
  | cons arg args ih =>
    obtain ⟨_, _⟩ := arg
    obtain ⟨first, tl⟩ := forall_mem_cons.mp hela
    rw [checkArguments]
    refine first.then hv fun arg mid hg hel => ?_
    refine .assignable ?_
    refine .then (ih tl hg.valid) fun args t ⟨hg', all, len⟩ => ?_
    exact ⟨hg.trans hg', ⟨(hel.grow hg').1, all⟩, congrArg (· + 1) len⟩

variable {args : List Check}

theorem elaborates_of_zip {tys : List TypeId} (hela : ∀ arg ∈ args, Elaborates cx arg) :
    ∀ arg ∈ args.zip tys, Elaborates cx arg.1 :=
  fun _ hm => hela _ (of_mem_zip hm).1

theorem elaborates_checkVariantCall (id : EnumId) (vr : Nat)
    (hela : ∀ arg ∈ args, Elaborates cx arg) (sp : Span) :
    ElaboratesExpr cx (checkVariantCall cx id vr args sp) := by
  intro s hv
  rw [checkVariantCall]
  refine .get_bind (.run_bind fun e foundEntry => ?_)
  refine .run_bind fun variantEntry foundVariant => ?_
  refine .guard trivial fun hlen => ?_
  refine .then (ends_checkArguments (elaborates_of_zip hela) hv) fun hk t ⟨hg, all, len⟩ => ?_
  refine .get_bind (.run_bind fun ty hf => ?_)
  have n : PayloadCount (cx.surroundings t).types id vr hk.length := by
    refine ⟨e, variantEntry, ?_, unwrap_eq_ok.mp foundVariant, ?_⟩
    · exact hg.types.enums ▸ unwrap_eq_ok.mp foundEntry
    · rw [len, length_zip, ← not_not.mp hlen, Nat.min_self]
  exact ⟨hg, elaborated_mk n all (lt_of_typeForEnum hf)⟩

theorem reads_mapM {α β : Type} {action : α → BodyM β} (reads : ∀ x, Reads (action x))
    (xs : List α) : Reads (xs.mapM action) := by
  induction xs with
  | nil => exact .pure []
  | cons x xs ih =>
    rw [mapM_cons]
    exact .bind (reads x) fun _ => .bind ih fun _ => .pure _

theorem elaborates_checkIndirectCall (hela : ∀ arg ∈ args, Elaborates cx arg) (sp : Span)
    (hv : s.Valid cx) {callee : HirExpr} (hel : Elaborated (cx.surroundings s) callee) :
    Ends True (checkIndirectCall cx callee args sp s) (s.Leads cx Elaborated) := by
  rw [checkIndirectCall]
  refine (reads_bodyType _).then fun kind hf => .of_run ?_
  split
  · rename_i params r abi
    refine .guard trivial fun _ => ?_
    refine (reads_requireUnsafe _ _).then fun _ _ => ?_
    refine (reads_mapM reads_bodyType params).then fun _ _ => ?_
    refine (reads_bodyType _).then fun _ _ => ?_
    refine .guard trivial fun _ => .guard trivial fun _ => ?_
    refine .then (ends_checkArguments (elaborates_of_zip hela) hv) fun hk t r => ?_
    obtain ⟨hg, all, -⟩ := r
    have hi := hv.component_lt (bodyType_eq_ok.mp hf) And.right
    have sig := hg.types.typeAt (bodyType_eq_ok.mp hf)
    exact ⟨hg, elaborated_mk ⟨params, abi, sig⟩ ⟨(hel.grow hg).1, all⟩ (hg.lt hi)⟩
  · trivial

theorem elaborates_checkDirectCall (id : FunctionId)
    (hela : ∀ arg ∈ args, Elaborates cx arg) (sp : Span) :
    ElaboratesExpr cx (checkDirectCall cx id args sp) := by
  intro st hv
  rw [checkDirectCall]
  refine .run_bind fun function hf => ?_
  refine .guard trivial fun _ => ?_
  have hm := mem_of_getElem? (unwrap_eq_ok.mp hf)
  have call : Ends True ((do
      if function.params.length ≠ args.length then
        bodyError cx sp s!"function `{function.qualifiedName}` takes {function.params.length} arguments, got {args.length}"
      let params ← function.paramTypes
      let hk ← checkArguments cx (args.zip params)
      return .mk (.call id hk) function.result sp : BodyM HirExpr) st) (st.Leads cx Elaborated) := by
    refine .guard trivial fun _ => .run_bind fun params _ => ?_
    refine .then (ends_checkArguments (elaborates_of_zip hela) hv) fun hk t r => ?_
    obtain ⟨hg, all, -⟩ := r
    have sig : (cx.surroundings t).results[id]? = some function.result := by
      show (cx.program.functions.map (·.result))[id]? = _
      rw [getElem?_map, unwrap_eq_ok.mp hf]
      rfl
    exact ⟨hg, elaborated_mk sig all (hg.lt (hv.program.functions function hm).1)⟩
  exact .ite (fun _ => (reads_requireUnsafe _ _).then fun _ _ => call) fun _ => call

theorem elaborates_checkCallee {callee : Check} (hcal : Elaborates cx callee)
    (hela : ∀ arg ∈ args, Elaborates cx arg) (sp : Span) :
    ElaboratesExpr cx (checkCallee cx callee args sp) := by
  intro s hv
  rw [checkCallee]
  refine hcal.then hv fun callee mid hg hel => .of_run ?_
  split
  · exact (elaborates_checkDirectCall _ hela sp mid hg.valid).mono
      fun _ _ hk => ⟨hg.trans hk.1, hk.2⟩
  · exact (elaborates_checkIndirectCall hela sp hg.valid hel).mono
      fun _ _ hk => ⟨hg.trans hk.1, hk.2⟩

/-! ## Intrinsics -/

theorem elaborates_checkVolatileLoad (hela : ∀ arg ∈ args, Elaborates cx arg) (sp : Span) :
    ElaboratesExpr cx (checkVolatileLoad cx args sp) := by
  intro s hv
  unfold checkVolatileLoad
  refine .of_run ?_
  split
  · rename_i ptr
    refine (hela ptr mem_cons_self).then hv fun arg mid hg hel => ?_
    refine (reads_bodyType _).then fun kind hf => .of_run ?_
    split
    · refine .get_bind (.run_bind fun _ _ => .guard trivial fun _ => ?_)
      have hi := hg.valid.component_lt (bodyType_eq_ok.mp hf) id
      exact ⟨hg, elaborated_mk ⟨arg, rfl⟩ ⟨hel.1, trivial⟩ hi⟩
    · trivial
  · trivial

theorem elaborates_checkVolatileStore (hela : ∀ arg ∈ args, Elaborates cx arg) (sp : Span) :
    ElaboratesExpr cx (checkVolatileStore cx args sp) := by
  intro s hv
  unfold checkVolatileStore
  refine .of_run ?_
  split
  · rename_i ptr v
    obtain ⟨first, tl⟩ := forall_mem_cons.mp hela
    refine first.then hv fun ptr mid hg hel => ?_
    refine (reads_bodyType _).then fun kind hf => .of_run ?_
    split
    · rename_i pointee
      refine .get_bind (.run_bind fun _ _ => .guard trivial fun _ => ?_)
      refine (tl v mem_cons_self).then hg.valid fun v t hg' hel' => ?_
      refine .assignable (.run_bind fun void foundVoid => ?_)
      have isMut : (cx.surroundings t).MutPointer ptr :=
        ⟨pointee, hg'.types.typeAt (bodyType_eq_ok.mp hf)⟩
      exact ⟨hg.trans hg', elaborated_mk ⟨ptr, v, rfl, isMut⟩
        ⟨(hel.grow hg').1, hel'.1, trivial⟩ (hg'.valid.primitive_lt foundVoid)⟩
    · trivial
  · trivial

theorem listForall_append {post : HirExpr → Prop} (exprs oths : List HirExpr) :
    ListForall post (exprs ++ oths) ↔ ListForall post exprs ∧ ListForall post oths := by
  induction exprs with
  | nil => simp [ListForall]
  | cons expr exprs ih => simp [ListForall, ih, and_assoc]

theorem ends_checkOrders (intr : Intrinsic) {checks : List Check}
    (hela : ∀ check ∈ checks, Elaborates cx check) (hv : s.Valid cx) :
    Ends True (checkOrders cx intr checks s) fun orders t =>
      s.Grows cx t ∧ ListForall (Node (cx.surroundings t)) (orders.map Prod.snd) := by
  induction checks generalizing s with
  | nil => exact ⟨hv.refl, trivial⟩
  | cons check checks ih =>
    obtain ⟨first, tl⟩ := forall_mem_cons.mp hela
    rw [checkOrders]
    refine .run_bind fun byte _ => ?_
    refine first.then hv fun order mid hg hel => ?_
    refine .assignable (.of_run ?_)
    split
    · refine .guard trivial fun _ => .of_run ?_
      split
      · trivial
      · refine .then (ih tl hg.valid) fun orders t hk => ?_
        exact ⟨hg.trans hk.1, (hel.grow hk.1).1, hk.2⟩
    · trivial

/-- What an accepted pointer is: every atomic operation that writes has a `*mut` one. -/
theorem ends_checkAtomicPointer (hv : s.Valid cx) (intr : Intrinsic) (ptr : HirExpr) :
    Ends True (checkAtomicPointer cx intr ptr s) fun pointee t =>
      t = s ∧ pointee < s.types.types.length ∧
        (intr ≠ .atomicLoad → (cx.surroundings s).MutPointer ptr) := by
  rw [checkAtomicPointer]
  refine (reads_bodyType _).then fun kind hf => .of_run ?_
  split
  · rename_i mutable pointee
    refine .get_bind (.run_bind fun _ _ => .guard trivial fun _ => ?_)
    refine .run_bind fun lay _ => .guard trivial fun _ => ?_
    refine .guard trivial fun hal => ?_
    refine ⟨rfl, hv.component_lt (bodyType_eq_ok.mp hf) id, fun writes => ?_⟩
    cases mutable with
    | true => exact ⟨pointee, bodyType_eq_ok.mp hf⟩
    | false => exact absurd ⟨rfl, writes⟩ hal
  · trivial

theorem intrinsicArgs_of_atomic {surroundings : Surroundings} {intr : Intrinsic}
    {counts : Nat × Nat} (atomic : atomicCounts intr = some counts) {ptr : HirExpr}
    (isMut : intr ≠ .atomicLoad → surroundings.MutPointer ptr) (tl : List HirExpr) :
    IntrinsicArgs surroundings intr (ptr :: tl) := by
  cases intr with
  | atomicStore | atomicExchange | atomicCompareExchange | atomicFetchAdd =>
    exact ⟨ptr, tl, rfl, isMut nofun⟩
  | atomicLoad => trivial
  | _ => cases atomic

theorem elaborates_checkAtomic (intr : Intrinsic)
    (hela : ∀ arg ∈ args, Elaborates cx arg) (sp : Span) :
    ElaboratesExpr cx (checkAtomic cx intr args sp) := by
  intro s hv
  rw [checkAtomic]
  refine .run_bind fun counts foundCounts => ?_
  obtain ⟨valueCount, _⟩ := counts
  cases args with
  | nil => trivial
  | cons ptr tl =>
    obtain ⟨first, oths⟩ := forall_mem_cons.mp hela
    refine .guard trivial fun _ => ?_
    refine first.then hv fun ptr mid hg hel => ?_
    refine .then (ends_checkAtomicPointer hg.valid intr ptr) fun pointee same hk => ?_
    obtain ⟨rfl, hi, isMut⟩ := hk
    have valueChecks : ∀ arg ∈ (tl.take valueCount).map (·, pointee), Elaborates cx arg.1 := by
      intro arg hm
      obtain ⟨check, taken, rfl⟩ := mem_map.mp hm
      exact oths check (mem_of_mem_take taken)
    refine .then (ends_checkArguments valueChecks hg.valid) fun vs mid hk => ?_
    obtain ⟨hg', allValues, -⟩ := hk
    refine .then (ends_checkOrders intr (fun check hm =>
      oths check (mem_of_mem_drop hm)) hg'.valid) fun orders t ⟨grows'', allOrders⟩ => ?_
    have hgn := hg'.trans grows''
    have fin {ty : Nat} (typed : ty < t.types.types.length) :
        s.Grows cx t ∧ Elaborated (cx.surroundings t)
          (.mk (.intrinsic intr (ptr :: vs ++ orders.map Prod.snd)) ty sp) :=
      ⟨hg.trans hgn, elaborated_mk (intrinsicArgs_of_atomic (unwrap_eq_ok.mp foundCounts)
          (fun writes => (isMut writes).grow hgn.surroundings) _)
        ((listForall_append _ _).mpr ⟨⟨(hel.grow hgn).1, allValues.grow grows''⟩, allOrders⟩)
        typed⟩
    have close : Ends True ((do
        let r ← if intr = .atomicStore then primitiveId "void" else pure pointee
        return .mk (.intrinsic intr (ptr :: vs ++ orders.map Prod.snd)) r sp :
          BodyM HirExpr) t) (s.Leads cx Elaborated) :=
      Ends.ite (fun _ => .run_bind fun void hf => fin (grows''.valid.primitive_lt hf))
        fun _ => fin (hgn.lt hi)
    refine .of_run ?_
    split
    · exact .guard trivial fun _ => close
    · exact close

theorem elaborates_checkIntrinsic (intr : Intrinsic)
    (hela : ∀ arg ∈ args, Elaborates cx arg) (sp : Span) :
    ElaboratesExpr cx (checkIntrinsic cx intr args sp) := by
  intro s hv
  unfold checkIntrinsic
  refine (reads_requireUnsafe _ _).then fun _ _ => ?_
  cases sig : intrinsicSignature intr with
  | some hf =>
    obtain ⟨params, r⟩ := hf
    refine .guard trivial fun _ => ?_
    refine (reads_mapM (fun name => .lift _) params).then fun params _ => ?_
    refine .then (ends_checkArguments (elaborates_of_zip hela) hv) fun hk t r => ?_
    obtain ⟨hg, all, -⟩ := r
    have fixed : IntrinsicArgs (cx.surroundings t) intr hk := by
      cases intr with
      | volatileLoad | volatileStore | atomicLoad | atomicStore | atomicExchange
      | atomicCompareExchange | atomicFetchAdd => cases sig
      | _ => trivial
    exact .run_bind fun ty hf =>
      ⟨hg, elaborated_mk fixed all (hg.valid.primitive_lt hf)⟩
  | none =>
    dsimp only
    refine .of_run ?_
    split
    · exact elaborates_checkVolatileLoad hela sp s hv
    · exact elaborates_checkVolatileStore hela sp s hv
    · exact elaborates_checkAtomic _ hela sp s hv

theorem elaborates_checkPathCall (path : Path) {callee : Check}
    (hcal : Elaborates cx callee) (hela : ∀ arg ∈ args, Elaborates cx arg)
    (sp : Span) : ElaboratesExpr cx (checkPathCall cx path callee args sp) := by
  intro s hv
  unfold checkPathCall
  refine (Reads.lift _).then fun hql _ => Ends.of_run ?_
  split
  case' h_1 name _ =>
    refine (reads_lookupLocal _).then fun hf _ => Ends.ite (fun _ => ?_) fun _ => ?_
    on_goal 1 => cases intrinsicNamed name
    case some intr => exact elaborates_checkIntrinsic intr hela sp s hv
  -- no intrinsic: a variant, or a call of any other callee
  all_goals
    rw [pure_bind]
    refine .get_bind (.run_bind fun hres _ => ?_)
    cases hres with
    | some hf => exact elaborates_checkVariantCall hf.1 hf.2 hela sp s hv
    | none => exact elaborates_checkCallee hcal hela sp s hv

/-! ## Expressions -/

theorem elaborates_finishExpr {sp : Span} {want : Option TypeId}
    {act : BodyM (HirExprKind × TypeId)} (hela : ElaboratesKind cx act) :
    ElaboratesExpr cx (finishExpr cx sp want act) := by
  intro s hv
  rw [finishExpr]
  refine .then (hela s hv) fun r t act => ?_
  obtain ⟨_, _⟩ := r
  obtain ⟨hg, hel⟩ := act
  cases want with
  | none => exact ⟨hg, hel sp⟩
  | some =>
    exact .assignable ⟨hg, hel sp⟩

mutual

theorem elaborates_checkExpr (expr : Expr) : Elaborates cx (checkExpr cx expr) := by
  cases expr with
  | mk kind sp =>
    rw [checkExpr]
    exact elaborates_checkKind sp kind

theorem elaborates_checkKind (sp : Span) (kind : ExprKind) :
    Elaborates cx (checkKind cx sp kind) := by
  intro hexp
  cases kind with unfold checkKind
  | integer v =>
    exact elaborates_finishExpr (elaborates_checkInteger v sp hexp)
  | byte | bool =>
    refine elaborates_finishExpr fun s hv => .run_bind fun ty hf => ?_
    exact ⟨hv.refl, fun _ => elaborated_mk trivial trivial (hv.primitive_lt hf)⟩
  | string =>
    exact fun s hv => trivial
  | byteString bs =>
    exact elaborates_finishExpr (elaborates_checkByteString bs)
  | path path =>
    exact elaborates_checkPath path sp
  | array vs =>
    exact elaborates_finishExpr (elaborates_checkArray (elaborates_checkList vs) sp hexp)
  | arrayRepeat v len =>
    exact elaborates_finishExpr (elaborates_checkArrayRepeat (elaborates_checkExpr v) len hexp)
  | struct path fs =>
    exact elaborates_finishExpr (elaborates_checkStruct path (elaborates_checkFieldList fs) sp)
  | unary op opd =>
    exact elaborates_finishExpr (elaborates_checkUnary op opd (elaborates_checkExpr opd) sp hexp)
  | binary op lhs rhs =>
    exact elaborates_finishExpr
      (elaborates_checkBinary op (elaborates_checkExpr lhs) (elaborates_checkExpr rhs) sp hexp)
  | assign op tgt v =>
    exact elaborates_finishExpr
      (elaborates_checkAssign op (elaborates_checkExpr tgt) (elaborates_checkExpr v) sp)
  | call callee args =>
    have hcal := elaborates_checkExpr callee
    have elaboratesArgs := elaborates_checkList args
    split
    · exact elaborates_checkPathCall _ hcal elaboratesArgs sp
    · exact elaborates_checkCallee hcal elaboratesArgs sp
  | field base name =>
    exact elaborates_finishExpr (elaborates_checkField (elaborates_checkExpr base) name sp)
  | index base index =>
    exact elaborates_finishExpr
      (elaborates_checkIndex (elaborates_checkExpr base) (elaborates_checkExpr index) sp)
  | cast v ty =>
    exact elaborates_finishExpr (elaborates_checkCast (elaborates_checkExpr v) ty sp)
  | asm template ops options =>
    exact elaborates_finishExpr
      (elaborates_checkAsm template (elaborates_checkOperands ops) options sp)

theorem elaborates_checkList (exprs : List Expr) :
    ∀ check ∈ checkList cx exprs, Elaborates cx check := by
  cases exprs with
  | nil =>
    rw [checkList]
    exact nofun
  | cons expr exprs =>
    rw [checkList]
    exact forall_mem_cons.mpr ⟨elaborates_checkExpr expr, elaborates_checkList exprs⟩

theorem elaborates_checkFieldList (fs : List (String × Expr)) :
    ∀ fd ∈ checkFieldList cx fs, Elaborates cx fd.2 := by
  cases fs with
  | nil =>
    rw [checkFieldList]
    exact nofun
  | cons fd fs =>
    obtain ⟨_, v⟩ := fd
    rw [checkFieldList]
    exact forall_mem_cons.mpr ⟨elaborates_checkExpr v, elaborates_checkFieldList fs⟩

theorem elaborates_checkOperands (ops : List AsmOperand) :
    ∀ op ∈ checkOperands cx ops, ElaboratesOperand cx op := by
  cases ops with
  | nil =>
    rw [checkOperands]
    exact nofun
  | cons op ops =>
    have tl := elaborates_checkOperands ops
    cases op with rw [checkOperands]
    | «in» reg v =>
      exact forall_mem_cons.mpr ⟨elaborates_checkAsmIn reg (elaborates_checkExpr v), tl⟩
    | out reg tgt =>
      exact forall_mem_cons.mpr ⟨elaborates_checkAsmOut reg (elaborates_checkExpr tgt), tl⟩
    | inOut reg inp output =>
      exact forall_mem_cons.mpr ⟨elaborates_checkAsmInOut reg (elaborates_checkExpr inp)
        (elaborates_checkExpr output), tl⟩

end

end Checks

/-! ## Statements -/

section Statements

variable {cx : BodyContext} {s : BodyState}

/-- The state is judged by the program of the context only. -/
theorem BodyState.Valid.change (hv : s.Valid cx) (o : BodyContext)
    (he : o.program = cx.program) : s.Valid o :=
  ⟨he ▸ hv.program, hv.locals⟩

theorem BodyState.Grows.change (hg : state.Grows cx after) (o : BodyContext)
    (he : o.program = cx.program) : state.Grows o after :=
  ⟨hg.types, hg.locals, hg.valid.change o he⟩

theorem BodyState.Valid.pushScope (hv : s.Valid cx) : (pushScope s).Valid cx :=
  ⟨hv.program, hv.locals⟩

theorem BodyState.Grows.popScope (hg : (Ocore.pushScope state).Grows cx after) :
    state.Grows cx (popScope after) :=
  ⟨hg.types, hg.locals, hg.valid.program, hg.valid.locals⟩

theorem ends_declareLocal (hv : s.Valid cx) (name : String) {ty : Nat}
    (hi : ty < s.types.types.length) (mutable : Bool) :
    Ends True (declareLocal name ty mutable s) fun _ t => s.Grows cx t := by
  refine ⟨.refl _, prefix_append _ _, hv.program, ?_⟩
  intro e hm
  obtain old | new := mem_append.mp hm
  · exact hv.locals e old
  · obtain rfl := mem_singleton.mp new
    exact hi

theorem ends_checkLet (hv : s.Valid cx) (mutable : Bool)
    (name : String) (ty : Option TypeExpr) {init : Check} (hela : Elaborates cx init) (sp : Span) :
    Ends True (checkLet cx mutable name ty init sp s) fun stmt t =>
      s.Grows cx t ∧ StmtForall (Node (cx.surroundings t)) stmt := by
  have hini {mid : BodyState} (hg : s.Grows cx mid) (hd : Option TypeId)
      (hi : ∀ ty ∈ hd, ty < mid.types.types.length) : Ends True ((do
        let init ← init hd
        expectAssignable cx init.ty (hd.getD init.ty) init.span
        let id ← declareLocal name (hd.getD init.ty) mutable
        return .let id init : BodyM HirStmt) mid) fun stmt t =>
      s.Grows cx t ∧ StmtForall (Node (cx.surroundings t)) stmt := by
    refine hela.then hg.valid fun init t hg' hel => ?_
    refine .assignable ?_
    have typed : hd.getD init.ty < t.types.types.length := by
      cases hd with
      | none => exact hel.2
      | some ty => exact hg'.lt (hi ty rfl)
    refine .then (ends_declareLocal hg'.valid name typed mutable) fun id final grows'' => ?_
    refine ⟨(hg.trans hg').trans grows'', ?_⟩
    rw [StmtForall]
    exact (hel.grow grows'').1
  rw [checkLet]
  refine .get_bind (.run_bind fun innermost _ => .guard trivial fun _ => ?_)
  cases ty with
  | none => exact hini hv.refl none nofun
  | some ty =>
    dsimp only
    rw [map_eq_pure_bind, bind_assoc]
    refine .then (ends_resolveBodyType hv ty) fun hd mid hres => ?_
    refine hini hres.1 (some hd) ?_
    rintro _ ⟨⟩
    exact hres.2

theorem ends_checkCondition (hv : s.Valid cx) {cond : Check} (hela : Elaborates cx cond) :
    Ends True (checkCondition cx cond s) fun expr t =>
      s.Grows cx t ∧ ExprForall (Node (cx.surroundings t)) expr := by
  rw [checkCondition]
  refine .run_bind fun bool _ => ?_
  refine hela.then hv fun cond t hg hel => ?_
  exact .assignable ⟨hg, hel.1⟩

theorem ends_checkReturn (hv : s.Valid cx) {v : Option Check}
    (hela : ∀ check ∈ v, Elaborates cx check) (sp : Span) :
    Ends True (checkReturn cx v sp s) fun stmt t =>
      s.Grows cx t ∧ StmtForall (Node (cx.surroundings t)) stmt := by
  unfold checkReturn
  cases v with
  | none =>
    refine .run_bind fun void _ => .ite (fun _ => ?_) fun _ => ?_
    · exact .get_bind (.run_bind fun _ _ => trivial)
    · refine ⟨hv.refl, ?_⟩
      rw [StmtForall]
      trivial
  | some v =>
    refine (hela v rfl).then hv fun v t hg hel => ?_
    refine .assignable ⟨hg, ?_⟩
    rw [StmtForall]
    exact hel.1

end Statements

mutual

theorem ends_checkBlock {cx : BodyContext} {s : BodyState} (hv : s.Valid cx)
    (blk : Block) : Ends True (checkBlock cx blk s) fun blk t =>
      s.Grows cx t ∧ BlockForall (Node (cx.surroundings t)) blk := by
  cases blk with
  | mk stmts =>
    rw [checkBlock]
    refine .modify_bind (.then (ends_checkStmts hv.pushScope stmts)
      fun stmts t hk => .modify_bind ?_)
    refine ⟨hk.1.popScope, ?_⟩
    rw [BlockForall]
    exact hk.2

theorem ends_checkStmts {cx : BodyContext} {s : BodyState} (hv : s.Valid cx)
    (stmts : List Stmt) : Ends True (checkStmts cx stmts s) fun stmts t =>
      s.Grows cx t ∧ StmtsForall (Node (cx.surroundings t)) stmts := by
  cases stmts with
  | nil =>
    rw [checkStmts]
    refine ⟨hv.refl, ?_⟩
    rw [StmtsForall]
    trivial
  | cons stmt stmts =>
    rw [checkStmts]
    refine .then (ends_checkStmt hv stmt) fun stmt mid ⟨hg, hh⟩ => ?_
    refine .then (ends_checkStmts hg.valid stmts) fun stmts t ⟨hg', all⟩ => ?_
    refine ⟨hg.trans hg', ?_⟩
    rw [StmtsForall]
    exact ⟨.mono hg'.node stmt hh, all⟩

theorem ends_checkStmt {cx : BodyContext} {s : BodyState} (hv : s.Valid cx)
    (stmt : Stmt) : Ends True (checkStmt cx stmt s) fun stmt t =>
      s.Grows cx t ∧ StmtForall (Node (cx.surroundings t)) stmt := by
  cases stmt with
  | mk kind sp =>
    rw [checkStmt]
    exact ends_checkStmtKind hv sp kind

theorem ends_checkStmtKind {cx : BodyContext} {s : BodyState} (hv : s.Valid cx)
    (sp : Span) (kind : StmtKind) : Ends True (checkStmtKind cx sp kind s) fun stmt t =>
      s.Grows cx t ∧ StmtForall (Node (cx.surroundings t)) stmt := by
  cases kind with try rw [checkStmtKind]
  | «let» mutable name ty init =>
    exact ends_checkLet hv mutable name ty (elaborates_checkExpr init) sp
  | expr expr =>
    refine (elaborates_checkExpr expr).then hv fun expr t hg hel => ⟨hg, ?_⟩
    rw [StmtForall]
    exact hel.1
  | «if» cond thenBlock elseBlock =>
    cases elseBlock with
    | none =>
      rw [checkStmtKind]
      refine .then (ends_checkCondition hv (elaborates_checkExpr cond)) fun cond mid ⟨hg, hh⟩ => ?_
      refine .then (ends_checkBlock hg.valid thenBlock) fun thenBlock t ⟨hg', all⟩ => ?_
      refine ⟨hg.trans hg', ?_⟩
      rw [StmtForall]
      exact ⟨.mono hg'.node cond hh, all⟩
    | some elseBlock =>
      rw [checkStmtKind]
      refine .then (ends_checkCondition hv (elaborates_checkExpr cond)) fun cond mid ⟨hg, hh⟩ => ?_
      refine .then (ends_checkBlock hg.valid thenBlock) fun thenBlock t ⟨hg', all⟩ => ?_
      refine .then (ends_checkBlock hg'.valid elseBlock) fun elseBlock final ⟨grows'', elseAll⟩ => ?_
      refine ⟨(hg.trans hg').trans grows'', ?_⟩
      rw [StmtForall]
      exact ⟨.mono (hg'.trans grows'').node cond hh,
        BlockForall.mono grows''.node thenBlock all, elseAll⟩
  | «while» cond bd =>
    refine .then (ends_checkCondition hv (elaborates_checkExpr cond)) fun cond mid ⟨hg, hh⟩ => ?_
    refine .then (ends_checkBlock (hg.valid.change cx.enterLoop rfl) bd) fun bd t hk => ?_
    have hg' := hk.1.change cx rfl
    refine ⟨hg.trans hg', ?_⟩
    rw [StmtForall]
    exact ⟨.mono hg'.node cond hh, hk.2⟩
  | loop bd =>
    refine .then (ends_checkBlock (hv.change cx.enterLoop rfl) bd) fun bd t hk => ?_
    refine ⟨hk.1.change cx rfl, ?_⟩
    rw [StmtForall]
    exact hk.2
  | unsafeBlock bd =>
    refine .then (ends_checkBlock (hv.change cx.enterUnsafe rfl) bd) fun bd t hk => ?_
    refine ⟨hk.1.change cx rfl, ?_⟩
    rw [StmtForall]
    exact hk.2
  | «return» =>
    refine ends_checkReturn hv (fun check hm => ?_) sp
    obtain ⟨expr, -, rfl⟩ := Option.map_eq_some_iff.mp hm
    exact elaborates_checkExpr expr
  | «break» | «continue» =>
    refine .guard trivial fun _ => ⟨hv.refl, ?_⟩
    rw [StmtForall]
    trivial

end

end Ostadix.Ocore
