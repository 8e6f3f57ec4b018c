import Ostadix.Ocore.Tables

/-! # Names, attributes and types of the type checker

Module scopes with their imports, the attributes of items, and the resolution of paths, enum
variants and type expressions. The checker of declarations and the checker of bodies resolve names
in the same way; here they share one definition. -/

namespace Ostadix.Ocore

open Ast

/-! ## Scopes -/

/-- `imports` maps the names a module imports; the first entry for a name counts. -/
structure ModuleScope where
  file : String
  name : String
  imports : List (String × String)

def pathString (path : Path) : String :=
  "::".intercalate path

def qualify (moduleName name : String) : String :=
  moduleName ++ "::" ++ name

/-- Split before and after the last `::`. -/
def splitLast : List Char → Option (List Char × List Char)
  | [] => none
  | first :: rest =>
      match splitLast rest with
      | some (before, after) => some (first :: before, after)
      | none =>
          match first, rest with
          | ':', ':' :: after => some ([], after)
          | _, _ => none

def rsplitOnce (text : String) : Option (String × String) :=
  (splitLast text.toList).map fun (before, after) => (String.ofList before, String.ofList after)

def buildImports (file : String) :
    List UseDecl → List (String × String) → CheckResult (List (String × String))
  | [], imports => return imports
  | use :: uses, imports => do
      let qualified := pathString use.path
      let aliasName ← unwrap (use.aliasName <|> use.path.getLast?)
      if (imports.lookup aliasName).isSome then
        diag file use.span s!"duplicate import name `{aliasName}`"
      buildImports file uses (imports ++ [(aliasName, qualified)])

def buildModuleScopes :
    List (String × SourceModule) → List String → CheckResult (List ModuleScope)
  | [], _ => return []
  | (file, module) :: modules, seen => do
      let name := pathString module.name
      if name ∈ seen then
        diag file module.span s!"duplicate module `{name}`"
      let imports ← buildImports file module.uses []
      return ⟨file, name, imports⟩ :: (← buildModuleScopes modules (name :: seen))

/-! ## Attributes -/

structure ItemAttrs where
  export_ : Bool := false
  noMangle : Bool := false
  linkSection : Option String := none
  align : Option UInt64 := none
  used : Bool := false
  packed : Bool := false
  interrupt : Bool := false
  naked : Bool := false
  unsafeLinkage : Bool := false

def isPowerOfTwo (value : UInt64) : Bool :=
  value ≠ 0 && value &&& (value - 1) == 0

def noArgs (file : String) (attr : Attribute) : CheckResult Unit :=
  if attr.args.isEmpty then return ()
  else diag file attr.span s!"@{attr.name} takes no arguments"

def parseAttr (file : String) (attr : Attribute) (out : ItemAttrs) : CheckResult ItemAttrs :=
  match attr.name with
  | "export" => do noArgs file attr; return { out with export_ := true }
  | "no_mangle" => do noArgs file attr; return { out with noMangle := true }
  | "used" => do noArgs file attr; return { out with used := true }
  | "packed" => do noArgs file attr; return { out with packed := true }
  | "interrupt" => do noArgs file attr; return { out with interrupt := true }
  | "naked" => do noArgs file attr; return { out with naked := true }
  | "unsafe_linkage" => do noArgs file attr; return { out with unsafeLinkage := true }
  | "link_section" =>
      match attr.args with
      | [.string sectionName] =>
          if sectionName.isEmpty then diag file attr.span "@link_section requires one nonempty string"
          else return { out with linkSection := some sectionName }
      | _ => diag file attr.span "@link_section requires one nonempty string"
  | "align" =>
      match attr.args with
      | [.integer value] =>
          if isPowerOfTwo value && value ≤ 4096 then return { out with align := some value }
          else diag file attr.span "@align requires a power of two <= 4096"
      | _ => diag file attr.span "@align requires a power of two <= 4096"
  | other => diag file attr.span s!"unknown attribute `@{other}`"

def parseAttrsFrom (file : String) :
    List Attribute → List String → ItemAttrs → CheckResult ItemAttrs
  | [], _, out => return out
  | attr :: attrs, seen, out => do
      if attr.name ∈ seen then
        diag file attr.span s!"duplicate attribute `@{attr.name}`"
      parseAttrsFrom file attrs (attr.name :: seen) (← parseAttr file attr out)

def parseAttrs (file : String) (item : Item) : CheckResult ItemAttrs :=
  parseAttrsFrom file item.attrs [] {}

/-! ## Questions about types -/

namespace TypeTable

def typeAt (table : TypeTable) (ty : TypeId) : CheckResult HirType :=
  unwrap table.types[ty]?

def isInteger (table : TypeTable) (ty : TypeId) : CheckResult Bool :=
  HirType.isInteger <$> table.typeAt ty

def isFloat (table : TypeTable) (ty : TypeId) : CheckResult Bool :=
  HirType.isFloat <$> table.typeAt ty

def isScalar (table : TypeTable) (ty : TypeId) : CheckResult Bool :=
  HirType.isScalar <$> table.typeAt ty

end TypeTable

/-- The index of a primitive type. -/
def primitiveId (name : String) : CheckResult TypeId :=
  unwrap (TypeTable.primitive name)

/-! ## Paths -/

section Resolution

variable (scope : ModuleScope) (symbols : List (String × Symbol))

def pathIsKnown (path : String) : Bool :=
  (symbols.lookup path).isSome ||
    match (rsplitOnce path).bind fun (parent, _) => symbols.lookup parent with
    | some (.type _) => true
    | _ => false

def resolvePath : Path → CheckResult String
  | [] => throw .panic
  | [name] =>
      match scope.imports.lookup name with
      | some imported => return imported
      | none => return qualify scope.name name
  | name :: rest =>
      match scope.imports.lookup name with
      | some imported => return imported ++ "::" ++ pathString rest
      | none =>
          let absolute := pathString (name :: rest)
          return if pathIsKnown symbols absolute then absolute else qualify scope.name absolute

/-- The enum and the position of the variant that a qualified name stands for. -/
def resolveEnumVariant (table : TypeTable) (qualified : String) :
    CheckResult (Option (EnumId × Nat)) := do
  let some (typeName, variantName) := rsplitOnce qualified | return none
  let some (.type ty) := symbols.lookup typeName | return none
  let .enum id ← table.typeAt ty | return none
  let entry ← unwrap table.enums[id]?
  return (entry.variants.findIdx? (·.name == variantName)).map (id, ·)

def typeForEnum (table : TypeTable) (id : EnumId) : CheckResult TypeId :=
  unwrap (table.types.idxOf? (.enum id))

/-! ## Type expressions -/

abbrev TableM := StateT TypeTable CheckResult

def internType (ty : HirType) : TableM TypeId :=
  modifyGet (·.intern ty)

/-- A named type, once it is not a primitive one. -/
def resolveNamed (path : Path) (span : Span) : CheckResult TypeId := do
  let qualified ← resolvePath scope symbols path
  match symbols.lookup qualified with
  | some (.type id) => return id
  | _ => diag scope.file span s!"unknown type `{qualified}`"

mutual

def resolveType : TypeExpr → TableM TypeId
  | .mk kind span => resolveTypeKind span kind

def resolveTypeKind (span : Span) : TypeExprKind → TableM TypeId
  | .named [name] =>
      match TypeTable.primitive name with
      | some id => return id
      | none => resolveNamed scope symbols [name] span
  | .named path => resolveNamed scope symbols path span
  | .pointer mutable pointee => do
      let pointee ← resolveType pointee
      internType (.pointer mutable pointee)
  | .array element len => do
      let element ← resolveType element
      internType (.array element len)
  | .fnPointer abi params result => do
      let params ← resolveTypes params
      let result ← resolveType result
      internType (.function params result abi)

def resolveTypes : List TypeExpr → TableM (List TypeId)
  | [] => return []
  | ty :: tys => do
      let ty ← resolveType ty
      let tys ← resolveTypes tys
      return ty :: tys

end

end Resolution

end Ostadix.Ocore
