import Ostadix.Lib.Except

/-! # OIR, the lowered form of a program

The instructions, the preorder in which plan nodes are numbered, and what a native leaf states
about its own source. A backend is described by what plan building and dispatch read of it. -/

namespace Ostadix.Ir

inductive GroupMode where
  | batch
  | all
  | any
  | race
deriving DecidableEq

inductive ExecutionMode where
  | inlineAst
  | inlineValue
  | shim
deriving DecidableEq

inductive SpliceRenderer where
  | python
  | html
  | latex
  | markdown
  | nix
  | default
deriving DecidableEq

structure BackendInterface where
  canonical : String
  pure : Bool
  renderer : SpliceRenderer
  execution : ExecutionMode
deriving DecidableEq

/-- The evaluation policy of an invocation. -/
inductive InvokeMode where
  | eager
  | lazy
  | autonomous
  | group (mode : GroupMode)
deriving DecidableEq

def InvokeMode.forName (name : String) : InvokeMode :=
  if name = "lazy" then .lazy
  else if name = "autonomous" then .autonomous
  else if name = "batch" then .group .batch
  else if name = "all" then .group .all
  else if name = "any" then .group .any
  else if name = "race" then .group .race
  else .eager

/-- The static part of a native scalar leaf: its arity, the digest of its descriptor and the
descriptor itself. -/
structure NativeLeaf where
  parameterCount : Nat
  descriptorSha256 : Option String
  descriptor : Option String
deriving DecidableEq

inductive OIr where
  | text (text : String)
  | load (name : String)
  | store (name : String) (expr : OIr)
  | invoke (fnName : String) (mode : InvokeMode) (args : List OIr)
  | nativeLeaf (leaf : NativeLeaf) (args : List OIr)
  | exec (lang : String) (envId : UInt32) (attr : Option String) (backend : BackendInterface)
      (body : List OIr)

structure OIrProgram where
  nodes : List OIr

/-- What the IR takes from elsewhere: the character classes of Unicode, SHA-256 in hexadecimal, and
the names which a bash body refers to by expansion or in arithmetic. -/
structure Externals where
  isAlphanumeric : Char → Bool
  isWhitespace : Char → Bool
  digest : String → String
  bashReferences : List OIr → List String

/-! ## Preorder -/

/-- A quoted body is syntax, not executable instructions. -/
def BackendInterface.isQuote (backend : BackendInterface) : Bool :=
  backend.execution = .inlineAst && backend.canonical = "quote"

mutual

def flattenNodeForPlan : OIr → List OIr
  | .text text => [.text text]
  | .load name => [.load name]
  | .store name expr => .store name expr :: flattenNodeForPlan expr
  | .invoke fnName mode args => .invoke fnName mode args :: flattenNodesForPlan args
  | .nativeLeaf leaf args => .nativeLeaf leaf args :: flattenNodesForPlan args
  | .exec lang envId attr backend body =>
      .exec lang envId attr backend body ::
        if backend.isQuote then [] else flattenNodesForPlan body

def flattenNodesForPlan : List OIr → List OIr
  | [] => []
  | node :: nodes => flattenNodeForPlan node ++ flattenNodesForPlan nodes

end

def OIrProgram.flattenForPlan (program : OIrProgram) : List OIr :=
  flattenNodesForPlan program.nodes

/-! ## Native leaves -/

/-- The text of the first argument, if that is a literal text block without attribute. -/
def extractStaticTextDescriptor : List OIr → Option String
  | .exec _ _ none backend [.text text] :: _ =>
      if backend.canonical = "text" ∧ backend.pure then some text else none
  | _ => none

def nativeLeafSourceDescriptor (externals : Externals) : OIr → Option String
  | .nativeLeaf ⟨parameterCount, descriptorSha256, some descriptor⟩ args => do
      if parameterCount ≠ args.length - 1 then none
      let argText ← extractStaticTextDescriptor args
      if argText ≠ descriptor then none
      if descriptorSha256 ≠ some (externals.digest descriptor) then none
      some descriptor
  | _ => none

end Ostadix.Ir
