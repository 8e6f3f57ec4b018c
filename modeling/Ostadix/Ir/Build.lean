import Mathlib.Data.List.DropRight
import Mathlib.Data.List.Sort
import Ostadix.Ir.Plan

/-! # Building the plan of a program

One traversal numbers the instructions in preorder and adds their edges: child to parent, sibling
to sibling, and from the `let` that binds a name to the instruction that receives its value. -/

namespace Ostadix.Ir

abbrev Scope := Std.ExtTreeMap String PlanNodeId

/-- The names the body of a quoted block refers to, and whether it asks for the whole scope. -/
structure QuoteReferences where
  tokens : List String
  oScope : Bool
deriving DecidableEq

def QuoteReferences.append (left right : QuoteReferences) : QuoteReferences :=
  ⟨left.tokens ++ right.tokens, left.oScope || right.oScope⟩

/-! ## References of a body -/

section

variable (externals : Externals)

def isIdentifierChar (c : Char) : Bool :=
  externals.isAlphanumeric c || c = '_'

def trimStart (text : List Char) : List Char :=
  text.dropWhile externals.isWhitespace

def trimEnd (text : List Char) : List Char :=
  text.rdropWhile externals.isWhitespace

def trim (text : List Char) : List Char :=
  trimEnd externals (trimStart externals text)

/-- Scan on behind the token `previous`, which a dot follows. Every turn consumes a character, so
the length of the text is enough fuel. -/
def scanExecTextFrom : Nat → Option (List Char) → List Char → QuoteReferences
  | 0, _, _ => ⟨[], false⟩
  | fuel + 1, previous, rest =>
      let gap := rest.takeWhile fun c => !isIdentifierChar externals c
      let afterStart := rest.dropWhile fun c => !isIdentifierChar externals c
      if afterStart.isEmpty then ⟨[], false⟩
      else
        let token := afterStart.takeWhile (isIdentifierChar externals)
        let nextRest := afterStart.dropWhile (isIdentifierChar externals)
        let oScope := token = "scope".toList && previous = some "O".toList &&
          (trimEnd externals gap).getLast? = some '.'
        let previous := if (trimStart externals nextRest).head? = some '.' then some token else none
        QuoteReferences.append ⟨[String.ofList token], oScope⟩
          (scanExecTextFrom fuel previous nextRest)

def scanExecText (text : String) : QuoteReferences :=
  scanExecTextFrom externals text.toList.length none text.toList

mutual

def collectNodeReferences : OIr → QuoteReferences
  | .text text => scanExecText externals text
  | .load name => ⟨[name], false⟩
  | .store name expr => QuoteReferences.append ⟨[name], false⟩ (collectNodeReferences expr)
  | .invoke fnName _ args =>
      QuoteReferences.append ⟨[], fnName = "scope"⟩ (collectExecReferences args)
  | .nativeLeaf _ args => collectExecReferences args
  | .exec _ _ _ _ body => collectExecReferences body

def collectExecReferences : List OIr → QuoteReferences
  | [] => ⟨[], false⟩
  | node :: nodes =>
      QuoteReferences.append (collectNodeReferences node) (collectExecReferences nodes)

end

end

/-! ## Visible bindings -/

/-- The visible bindings, an inner one hiding an outer one of its name. The stack is given
innermost scope first. -/
def visible (scopes : List Scope) : Scope :=
  scopes.foldr (fun inner outer => inner.toList.foldl (fun all binding => all.insert binding.1 binding.2) outer) ∅

def lookup (scopes : List Scope) (name : String) : Option PlanNodeId :=
  scopes.findSome? (·[name]?)

/-- The sources of the selected visible bindings, in the order of their ids. -/
def selectedSources (scopes : List Scope) (selected : String → Bool) : List PlanNodeId :=
  (((visible scopes).toList.filter fun binding => selected binding.1).map Prod.snd).insertionSort
    (· ≤ ·)

def visibleScopeSources (scopes : List Scope) : List PlanNodeId :=
  selectedSources scopes fun _ => true

/-- The references of a body together with those of the quoted blocks it can evaluate. A turn
expands bindings not expanded before, so the number of bindings bounds the turns. -/
def expandReferences (bindings : List (String × PlanNodeId))
    (quoteReferences : Std.ExtTreeMap PlanNodeId QuoteReferences) :
    Nat → List PlanNodeId → QuoteReferences → QuoteReferences
  | 0, _, references => references
  | fuel + 1, expanded, references =>
      let pending := (bindings.filter fun binding =>
        binding.1 ∈ references.tokens && binding.2 ∉ expanded).map Prod.snd
      if pending.isEmpty then references
      else
        expandReferences bindings quoteReferences fuel (pending ++ expanded)
          (pending.foldl (fun all source =>
            match quoteReferences[source]? with
            | some quoted => all.append quoted
            | none => all) references)

def shellBackends : List String :=
  ["bash", "shell", "sh"]

/-- The sources of the visible bindings a shim block receives. -/
def shimScopeSources (externals : Externals) (scopes : List Scope) (backend : BackendInterface)
    (body : List OIr) (quoteReferences : Std.ExtTreeMap PlanNodeId QuoteReferences) :
    List PlanNodeId :=
  if backend.canonical ∈ shellBackends then
    if backend.canonical ≠ "bash" then []
    else
      let names := externals.bashReferences body
      selectedSources scopes fun name => name ∈ names
  else
    let bindings := (visible scopes).toList
    let references := expandReferences bindings quoteReferences (bindings.length + 1) []
      (collectExecReferences externals body)
    if references.oScope then visibleScopeSources scopes
    else selectedSources scopes fun name => name ∈ references.tokens

/-- The binding named by a `cap=` entry of a block attribute. -/
def attrCapabilityBinding (externals : Externals) : Option String → Option String
  | none => none
  | some attr =>
      (attr.toList.splitOn ',').findSome? fun entry =>
        let entry := trim externals entry
        if "cap=".toList <+: entry ∧ entry.length ≠ 4 then some (String.ofList (entry.drop 4))
        else none

/-! ## The builder -/

def invocationKind (fnName : String) (mode : InvokeMode) (argCount : Nat) : PlanNodeKind :=
  match mode with
  | .group mode => .group mode argCount
  | .lazy => .schedule fnName .lazy argCount
  | .autonomous => .schedule fnName .autonomous argCount
  | .eager =>
      if fnName = "instantiate" then .request fnName .instantiate argCount
      else if fnName = "realise" then .request fnName .realise argCount
      else if fnName = "dry_activate" then .request fnName .dryActivate argCount
      else if fnName = "activate" then .request fnName .activate argCount
      else if fnName = "now" then .schedule fnName .force argCount
      else .call fnName mode argCount

def planKind (externals : Externals) : OIr → PlanNodeKind
  | .text _ => .text
  | .load name => .load name
  | .store name _ => .store name
  | .invoke fnName mode args => invocationKind fnName mode args.length
  | .nativeLeaf leaf args =>
      .nativeI64 (nativeLeafSourceDescriptor externals (.nativeLeaf leaf args)) (args.length - 1)
  | .exec lang envId attr backend _ => .exec lang envId attr backend

/-- `scopes` is the stack of lexical scopes, innermost first. -/
structure PlanBuilder where
  nodes : List PlanNode
  edges : List PlanEdge
  quoteReferences : Std.ExtTreeMap PlanNodeId QuoteReferences
  scopes : List Scope

namespace PlanBuilder

def new : PlanBuilder :=
  ⟨[], [], ∅, [∅]⟩

/-- The id the next node gets. -/
def nextId (builder : PlanBuilder) : PlanNodeId :=
  builder.nodes.length

def addEdge (source target : PlanNodeId) (kind : PlanEdgeKind) (builder : PlanBuilder) :
    PlanBuilder :=
  if ⟨source, target, kind⟩ ∈ builder.edges then builder
  else { builder with edges := builder.edges ++ [⟨source, target, kind⟩] }

def addEdgeFrom (source : Option PlanNodeId) (target : PlanNodeId) (kind : PlanEdgeKind)
    (builder : PlanBuilder) : PlanBuilder :=
  match source with
  | some source => builder.addEdge source target kind
  | none => builder

def addEdgesFrom (sources : List PlanNodeId) (target : PlanNodeId) (builder : PlanBuilder) :
    PlanBuilder :=
  sources.foldl (fun builder source => builder.addEdge source target .data) builder

def pushNode (kind : PlanNodeKind) (builder : PlanBuilder) : PlanBuilder :=
  { builder with nodes := builder.nodes ++ [⟨builder.nextId, kind⟩] }

def pushScope (builder : PlanBuilder) : PlanBuilder :=
  { builder with scopes := ∅ :: builder.scopes }

def popScope (builder : PlanBuilder) : PlanBuilder :=
  { builder with scopes := builder.scopes.tail }

def bind (name : String) (id : PlanNodeId) (builder : PlanBuilder) : PlanBuilder :=
  { builder with scopes := builder.scopes.modifyHead (·.insert name id) }

/-- Remember the references of a quoted block that a `let` binds. -/
def recordQuote (externals : Externals) (id : PlanNodeId) (expr : OIr) (builder : PlanBuilder) :
    PlanBuilder :=
  match expr with
  | .exec _ _ _ backend body =>
      if backend.isQuote then
        { builder with quoteReferences :=
            builder.quoteReferences.insert id (collectExecReferences externals body) }
      else builder
  | _ => builder

/-- The node itself with its structural and its sequence edge. -/
def openNode (externals : Externals) (node : OIr) (parent previous : Option PlanNodeId)
    (builder : PlanBuilder) : PlanBuilder :=
  let id := builder.nextId
  let builder := builder.pushNode (planKind externals node)
  let builder :=
    match parent with
    | some parent => builder.addEdge id parent .structural
    | none => builder
  builder.addEdgeFrom previous id .sequence

mutual

def addNode (externals : Externals) (parent previous : Option PlanNodeId) :
    OIr → PlanBuilder → PlanBuilder
  | .text text, builder => builder.openNode externals (.text text) parent previous
  | .load name, builder =>
      let id := builder.nextId
      let builder := builder.openNode externals (.load name) parent previous
      builder.addEdgeFrom (lookup builder.scopes name) id .data
  | .store name expr, builder =>
      let id := builder.nextId
      let builder := builder.openNode externals (.store name expr) parent previous
      let builder := (builder.recordQuote externals id expr).pushScope
      let builder := (addNode externals (some id) none expr builder).popScope
      builder.bind name id
  | .invoke fnName mode args, builder =>
      let id := builder.nextId
      let builder := builder.openNode externals (.invoke fnName mode args) parent previous
      let builder :=
        if fnName = "scope" then builder.addEdgesFrom (visibleScopeSources builder.scopes) id
        else builder
      (addNodes externals (some id) none args builder.pushScope).popScope
  | .nativeLeaf leaf args, builder =>
      let id := builder.nextId
      let builder := builder.openNode externals (.nativeLeaf leaf args) parent previous
      (addNodes externals (some id) none args builder.pushScope).popScope
  | .exec lang envId attr backend body, builder =>
      let id := builder.nextId
      let builder := builder.openNode externals (.exec lang envId attr backend body) parent previous
      let builder :=
        if backend.execution = .shim then
          builder.addEdgesFrom
            (shimScopeSources externals builder.scopes backend body builder.quoteReferences) id
        else builder
      let builder :=
        builder.addEdgeFrom ((attrCapabilityBinding externals attr).bind (lookup builder.scopes))
          id .data
      if backend.isQuote then builder
      else (addNodes externals (some id) none body builder.pushScope).popScope

/-- Siblings, each after the one before it. -/
def addNodes (externals : Externals) (parent previous : Option PlanNodeId) :
    List OIr → PlanBuilder → PlanBuilder
  | [], builder => builder
  | node :: nodes, builder =>
      addNodes externals parent (some builder.nextId) nodes
        (addNode externals parent previous node builder)

end

/-- The roots of a program, with the ids they get. -/
def addRoots (externals : Externals) (previous : Option PlanNodeId) :
    List OIr → PlanBuilder → List PlanNodeId × PlanBuilder
  | [], builder => ([], builder)
  | node :: nodes, builder =>
      let id := builder.nextId
      let (ids, builder) :=
        addRoots externals (some id) nodes (addNode externals none previous node builder)
      (id :: ids, builder)

end PlanBuilder

/-- The canonical execution plan of a program. -/
def OIrProgram.plan (externals : Externals) (program : OIrProgram) : ExecutionPlan :=
  let (roots, builder) := PlanBuilder.addRoots externals none program.nodes .new
  ⟨roots, builder.nodes, builder.edges⟩

end Ostadix.Ir
