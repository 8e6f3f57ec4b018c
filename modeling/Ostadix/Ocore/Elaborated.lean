import Ostadix.Ocore.Declare

/-! # What the body checker establishes of expressions

`ExprForall` states a fact of an expression and of all expressions in it. The facts that the later
stages need are collected in `Node`: what the type of a call says about the callee, and which
places are written. -/

namespace Ostadix.Ocore

open Lib

/-! ## Every expression in an expression -/

section Forall

variable (holds : HirExpr → Prop)

mutual

def ExprForall : HirExpr → Prop
  | .mk kind ty span => holds (.mk kind ty span) ∧ KindForall kind

def KindForall : HirExprKind → Prop
  | .call _ args | .intrinsic _ args | .enumVariant _ _ args | .array args => ListForall args
  | .callIndirect callee args => ExprForall callee ∧ ListForall args
  | .struct _ fields => FieldsForall fields
  | .arrayRepeat value _ | .cast value _ | .unary _ value | .field value _ _ => ExprForall value
  | .binary _ lhs rhs | .assign _ lhs rhs | .index lhs rhs => ExprForall lhs ∧ ExprForall rhs
  | .asm _ operands _ => OperandsForall operands
  | .constant _ | .local _ | .static _ | .function _ => True

def ListForall : List HirExpr → Prop
  | [] => True
  | expr :: exprs => ExprForall expr ∧ ListForall exprs

def FieldsForall : List (Nat × HirExpr) → Prop
  | [] => True
  | (_, value) :: fields => ExprForall value ∧ FieldsForall fields

def OperandsForall : List HirAsmOperand → Prop
  | [] => True
  | .in _ value :: operands => ExprForall value ∧ OperandsForall operands
  | .out _ target :: operands => ExprForall target ∧ OperandsForall operands
  | .inOut _ input output :: operands =>
      (ExprForall input ∧ ExprForall output) ∧ OperandsForall operands

end

mutual

def BlockForall : HirBlock → Prop
  | .mk stmts => StmtsForall stmts

def StmtsForall : List HirStmt → Prop
  | [] => True
  | stmt :: stmts => StmtForall stmt ∧ StmtsForall stmts

def StmtForall : HirStmt → Prop
  | .let _ init => ExprForall holds init
  | .expr expr => ExprForall holds expr
  | .if condition thenBlock none => ExprForall holds condition ∧ BlockForall thenBlock
  | .if condition thenBlock (some elseBlock) =>
      ExprForall holds condition ∧ BlockForall thenBlock ∧ BlockForall elseBlock
  | .while condition body => ExprForall holds condition ∧ BlockForall body
  | .loop body => BlockForall body
  | .unsafeBlock block => BlockForall block
  | .return none => True
  | .return (some value) => ExprForall holds value
  | .break | .continue => True

end

end Forall

section Mono

variable {holds weaker : HirExpr → Prop}

mutual

theorem ExprForall.mono (himp : holds ≤ weaker) (expr : HirExpr) (all : ExprForall holds expr) :
    ExprForall weaker expr := by
  cases expr with
  | mk kind =>
    rw [ExprForall] at all ⊢
    exact ⟨himp _ all.1, .mono himp kind all.2⟩

theorem KindForall.mono (himp : holds ≤ weaker) (kind : HirExprKind)
    (all : KindForall holds kind) : KindForall weaker kind := by
  cases kind with try rw [KindForall] at all ⊢
  | call _ args | intrinsic _ args | enumVariant _ _ args | array args =>
    exact .mono himp args all
  | callIndirect callee args =>
    exact ⟨.mono himp callee all.1, .mono himp args all.2⟩
  | struct _ fs =>
    exact .mono himp fs all
  | arrayRepeat v | cast v | unary _ v | field v =>
    exact .mono himp v all
  | binary _ lhs rhs | assign _ lhs rhs | index lhs rhs =>
    exact ⟨.mono himp lhs all.1, .mono himp rhs all.2⟩
  | asm _ ops =>
    exact .mono himp ops all
  | constant | «local» | static | function => trivial

theorem ListForall.mono (himp : holds ≤ weaker) (exprs : List HirExpr)
    (all : ListForall holds exprs) : ListForall weaker exprs := by
  cases exprs with
  | nil => trivial
  | cons expr exprs =>
    rw [ListForall] at all ⊢
    exact ⟨.mono himp expr all.1, .mono himp exprs all.2⟩

theorem FieldsForall.mono (himp : holds ≤ weaker) (fs : List (Nat × HirExpr))
    (all : FieldsForall holds fs) : FieldsForall weaker fs := by
  cases fs with
  | nil => trivial
  | cons fd fs =>
    obtain ⟨_, v⟩ := fd
    rw [FieldsForall] at all ⊢
    exact ⟨.mono himp v all.1, .mono himp fs all.2⟩

theorem OperandsForall.mono (himp : holds ≤ weaker) (ops : List HirAsmOperand)
    (all : OperandsForall holds ops) : OperandsForall weaker ops := by
  cases ops with
  | nil => trivial
  | cons op ops =>
    cases op with rw [OperandsForall] at all ⊢
    | «in» _ v =>
      exact ⟨.mono himp v all.1, .mono himp ops all.2⟩
    | out _ tgt =>
      exact ⟨.mono himp tgt all.1, .mono himp ops all.2⟩
    | inOut _ inp output =>
      exact ⟨⟨.mono himp inp all.1.1, .mono himp output all.1.2⟩,
        OperandsForall.mono himp ops all.2⟩

end

mutual

theorem BlockForall.mono (himp : holds ≤ weaker) (blk : HirBlock)
    (all : BlockForall holds blk) : BlockForall weaker blk := by
  cases blk with
  | mk stmts =>
    rw [BlockForall] at all ⊢
    exact .mono himp stmts all

theorem StmtsForall.mono (himp : holds ≤ weaker) (stmts : List HirStmt)
    (all : StmtsForall holds stmts) : StmtsForall weaker stmts := by
  cases stmts with
  | nil => trivial
  | cons stmt stmts =>
    rw [StmtsForall] at all ⊢
    exact ⟨.mono himp stmt all.1, .mono himp stmts all.2⟩

theorem StmtForall.mono (himp : holds ≤ weaker) (stmt : HirStmt) (all : StmtForall holds stmt) :
    StmtForall weaker stmt := by
  cases stmt with try rw [StmtForall] at all ⊢
  | «let» _ init =>
    exact .mono himp init all
  | expr expr =>
    exact .mono himp expr all
  | «if» cond thenBlock elseBlock =>
    cases elseBlock with
    | none =>
      rw [StmtForall] at all ⊢
      exact ⟨.mono himp cond all.1, .mono himp thenBlock all.2⟩
    | some elseBlock =>
      rw [StmtForall] at all ⊢
      exact ⟨.mono himp cond all.1, .mono himp thenBlock all.2.1,
        BlockForall.mono himp elseBlock all.2.2⟩
  | «while» cond bd =>
    exact ⟨.mono himp cond all.1, .mono himp bd all.2⟩
  | loop bd =>
    exact .mono himp bd all
  | unsafeBlock blk =>
    exact .mono himp blk all
  | «return» v =>
    cases v with
    | none => trivial
    | some v =>
      rw [StmtForall] at all ⊢
      exact .mono himp v all
  | «break» | «continue» => trivial

end

end Mono

/-! ## What holds of each expression -/

/-- The tables that the facts about an expression mention. -/
structure Surroundings where
  statics : List StaticEntry
  results : List TypeId
  locals : List LocalEntry
  types : TypeTable

structure Surroundings.Grows (before after : Surroundings) : Prop where
  statics : after.statics = before.statics
  results : after.results = before.results
  locals : before.locals <+: after.locals
  types : before.types.Extends after.types

def Surroundings.Mutable (surroundings : Surroundings) (place : HirExpr) : Prop :=
  isMutablePlace surroundings.statics surroundings.locals surroundings.types place = .ok true

/-- The operand is a pointer that may be written through. -/
def Surroundings.MutPointer (surroundings : Surroundings) (pointer : HirExpr) : Prop :=
  ∃ pointee, surroundings.types.types[pointer.ty]? = some (.pointer true pointee)

/-- The place that an operand writes. -/
def HirAsmOperand.target : HirAsmOperand → Option HirExpr
  | .in .. => none
  | .out _ target => some target
  | .inOut _ _ output => some output

/-- The operands that an intrinsic is called with, as far as the lowering relies on them. -/
def IntrinsicArgs (surroundings : Surroundings) (intrinsic : Intrinsic) (args : List HirExpr) : Prop :=
  match intrinsic with
  | .volatileLoad => ∃ pointer, args = [pointer]
  | .volatileStore => ∃ pointer value, args = [pointer, value] ∧ surroundings.MutPointer pointer
  | .atomicStore | .atomicExchange | .atomicCompareExchange | .atomicFetchAdd =>
      ∃ pointer rest, args = pointer :: rest ∧ surroundings.MutPointer pointer
  | _ => True

def PayloadCount (types : TypeTable) (enumId : EnumId) (variant count : Nat) : Prop :=
  ∃ entry variantEntry, types.enums[enumId]? = some entry ∧
    entry.variants[variant]? = some variantEntry ∧ variantEntry.payload.length = count

def Node (surroundings : Surroundings) : HirExpr → Prop
  | .mk (.call function _) ty _ => surroundings.results[function]? = some ty
  | .mk (.callIndirect callee _) ty _ => ∃ params abi,
      surroundings.types.types[callee.ty]? = some (.function params ty abi)
  | .mk (.cast _ target) ty _ => ty = target
  | .mk (.enumVariant enumId variant args) _ _ =>
      PayloadCount surroundings.types enumId variant args.length
  | .mk (.intrinsic intrinsic args) _ _ => IntrinsicArgs surroundings intrinsic args
  | .mk (.assign _ target _) _ _ => surroundings.Mutable target
  | .mk (.asm _ operands _) _ _ =>
      ∀ operand ∈ operands, ∀ target ∈ operand.target, surroundings.Mutable target
  | _ => True

section Grows

variable {s t : Surroundings}

theorem isMutablePlace_grows (hg : s.Grows t) {mutable : Bool} (plc : HirExpr)
    (hk : isMutablePlace s.statics s.locals s.types plc = .ok mutable) :
    isMutablePlace t.statics t.locals t.types plc = .ok mutable := by
  fun_induction isMutablePlace t.statics t.locals t.types plc with
  | case1 =>
    obtain ⟨_, hf, r⟩ := bind_eq_ok.mp hk
    have hp := getElem?_of_prefix hg.locals (unwrap_eq_ok.mp hf)
    rw [unwrap_eq_ok.mpr hp]
    exact r
  | case2 =>
    rw [isMutablePlace] at hk
    rw [hg.statics]
    exact hk
  | case3 =>
    obtain ⟨_, hf, r⟩ := bind_eq_ok.mp hk
    rw [TypeTable.typeAt_eq_ok.mpr (hg.types.typeAt (TypeTable.typeAt_eq_ok.mp hf))]
    exact r
  | case4 base fd off ty sp ih | case5 base i ty sp ih => exact ih hk
  | case6 =>
    rw [isMutablePlace] at hk <;> assumption

theorem Surroundings.Mutable.grow {plc : HirExpr} (isMutable : s.Mutable plc)
    (hg : s.Grows t) : t.Mutable plc :=
  isMutablePlace_grows hg plc isMutable

theorem Surroundings.MutPointer.grow {ptr : HirExpr} (isMut : s.MutPointer ptr)
    (hg : s.Grows t) : t.MutPointer ptr := by
  obtain ⟨pointee, hf⟩ := isMut
  exact ⟨pointee, hg.types.typeAt hf⟩

theorem IntrinsicArgs.grow {intr : Intrinsic} {args : List HirExpr}
    (ok : IntrinsicArgs s intr args) (hg : s.Grows t) :
    IntrinsicArgs t intr args := by
  cases intr with
  | volatileStore =>
    obtain ⟨ptr, v, he, isMut⟩ := ok
    exact ⟨ptr, v, he, isMut.grow hg⟩
  | atomicStore | atomicExchange | atomicCompareExchange | atomicFetchAdd =>
    obtain ⟨ptr, tl, he, isMut⟩ := ok
    exact ⟨ptr, tl, he, isMut.grow hg⟩
  | _ => exact ok

theorem Node.grow (hg : s.Grows t) (expr : HirExpr) (hh : Node s expr) : Node t expr := by
  obtain ⟨kind, _, _⟩ := expr
  cases kind with
  | call =>
    rw [Node] at hh ⊢
    rwa [hg.results]
  | callIndirect =>
    obtain ⟨params, abi, hf⟩ := hh
    exact ⟨params, abi, hg.types.typeAt hf⟩
  | enumVariant =>
    obtain ⟨e, variantEntry, hf, foundVariant, n⟩ := hh
    exact ⟨e, variantEntry, hg.types.enums ▸ hf, foundVariant, n⟩
  | intrinsic => exact IntrinsicArgs.grow hh hg
  | assign => exact Surroundings.Mutable.grow hh hg
  | asm => exact fun op hm tgt hwr => (hh op hm tgt hwr).grow hg
  | _ => exact hh

end Grows

end Ostadix.Ocore
