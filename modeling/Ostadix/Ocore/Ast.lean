import Ostadix.Ocore.Hir

/-! # Abstract syntax of native O-core computation

The modules the type checker reads, as the parser builds them. -/

namespace Ostadix.Ocore.Ast

abbrev Path := List String

/-! ## Types -/

mutual

inductive TypeExpr where
  | mk (kind : TypeExprKind) (span : Span)

inductive TypeExprKind where
  | named (path : Path)
  | pointer (mutable : Bool) (pointee : TypeExpr)
  | array (element : TypeExpr) (len : UInt64)
  | fnPointer (abi : Abi) (params : List TypeExpr) (result : TypeExpr)

end

/-! ## Expressions -/

mutual

inductive Expr where
  | mk (kind : ExprKind) (span : Span)

inductive ExprKind where
  | integer (value : UInt64)
  | bool (value : Bool)
  | byte (value : UInt8)
  | string (value : String)
  | byteString (bytes : List UInt8)
  | path (path : Path)
  | array (values : List Expr)
  | arrayRepeat (value : Expr) (len : UInt64)
  | struct (path : Path) (fields : List (String × Expr))
  | unary (op : UnaryOp) (operand : Expr)
  | binary (op : BinaryOp) (lhs rhs : Expr)
  | assign (op : Option BinaryOp) (target value : Expr)
  | call (callee : Expr) (args : List Expr)
  | field (base : Expr) (name : String)
  | index (base index : Expr)
  | cast (value : Expr) (ty : TypeExpr)
  | asm (template : String) (operands : List AsmOperand) (options : List String)

inductive AsmOperand where
  | in (register : String) (value : Expr)
  | out (register : String) (target : Expr)
  | inOut (register : String) (input output : Expr)

end

def Expr.kind : Expr → ExprKind
  | mk kind _ => kind

def Expr.span : Expr → Span
  | mk _ span => span

/-! ## Statements -/

mutual

inductive Block where
  | mk (stmts : List Stmt) (span : Span)

inductive Stmt where
  | mk (kind : StmtKind) (span : Span)

inductive StmtKind where
  | let (mutable : Bool) (name : String) (ty : Option TypeExpr) (init : Expr)
  | expr (expr : Expr)
  | if (condition : Expr) (thenBlock : Block) (elseBlock : Option Block)
  | while (condition : Expr) (body : Block)
  | loop (body : Block)
  | unsafeBlock (body : Block)
  | return (value : Option Expr)
  | break
  | continue

end

def Block.span : Block → Span
  | mk _ span => span

/-! ## Items and modules -/

inductive AttrArg where
  | string (value : String)
  | integer (value : UInt64)
  | ident (name : String)
deriving DecidableEq

structure Attribute where
  name : String
  args : List AttrArg
  span : Span
deriving DecidableEq

structure Param where
  name : String
  ty : TypeExpr
  span : Span

structure Function where
  name : String
  unsafe_ : Bool
  abi : Abi
  params : List Param
  returnType : TypeExpr
  body : Option Block

structure FieldDef where
  name : String
  ty : TypeExpr
  span : Span

structure StructDef where
  name : String
  fields : List FieldDef

structure VariantDef where
  name : String
  payload : List TypeExpr
  span : Span

structure EnumDef where
  name : String
  variants : List VariantDef

structure StaticDef where
  name : String
  mutable : Bool
  ty : TypeExpr
  init : Expr

structure ConstDef where
  name : String
  ty : TypeExpr
  init : Expr

inductive ItemKind where
  | function (definition : Function)
  | struct (definition : StructDef)
  | enum (definition : EnumDef)
  | static (definition : StaticDef)
  | const (definition : ConstDef)

structure Item where
  attrs : List Attribute
  kind : ItemKind
  span : Span

structure UseDecl where
  path : Path
  aliasName : Option String
  span : Span

structure SourceModule where
  name : Path
  uses : List UseDecl
  items : List Item
  span : Span

end Ostadix.Ocore.Ast
