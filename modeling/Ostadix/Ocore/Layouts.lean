import Ostadix.Ocore.Tables

/-! # Layout computation

`computeLayouts` lays out every struct and enum of the type table, depth first through the types
of fields and payloads. Sums that the source forms without a check follow the build profile: they
wrap around, or they stop the compiler. -/

namespace Ostadix.Ocore

/-! ## Machine arithmetic -/

/-- What an unchecked overflow does. -/
inductive Overflow where
  | wraps
  | traps
deriving DecidableEq

def checkedAdd (left right : UInt64) : Option UInt64 :=
  if left.toNat + right.toNat < 2 ^ 64 then some (left + right) else none

namespace Overflow

def add (overflow : Overflow) (left right : UInt64) : CheckResult UInt64 :=
  match overflow with
  | wraps => .ok (left + right)
  | traps => unwrap (checkedAdd left right)

def alignUp (overflow : Overflow) (value align : UInt64) : CheckResult UInt64 := do
  let sum ← overflow.add value align
  return (sum - 1) &&& ~~~(align - 1)

end Overflow

/-! ## The pass -/

/-- How far the layout of a struct or an enum has come. -/
inductive Visit where
  | unvisited
  | active
  | done
deriving DecidableEq

structure LayoutState where
  table : TypeTable
  structState : List Visit
  enumState : List Visit

abbrev LayoutM := StateT LayoutState CheckResult

def layoutDiag {α : Type} (ty : TypeId) (message : String) : LayoutM α := do
  let name ← (← get).table.name ty
  diag "<type>" .default s!"{name}: {message}"

namespace LayoutState

def markStruct (id : StructId) (visit : Visit) (state : LayoutState) : LayoutState :=
  { state with structState := state.structState.set id visit }

def markEnum (id : EnumId) (visit : Visit) (state : LayoutState) : LayoutState :=
  { state with enumState := state.enumState.set id visit }

def recordStruct (id : StructId) (offsets : List UInt64) (layout : Layout)
    (state : LayoutState) : LayoutState :=
  { state with table.structs := state.table.structs.modify id fun entry =>
      { entry with
        fields := entry.fields.zipWith (fun field offset => { field with offset }) offsets
        layout } }

def recordEnum (id : EnumId) (layouts : List Layout) (tagSize payloadOffset : UInt64)
    (layout : Layout) (state : LayoutState) : LayoutState :=
  { state with table.enums := state.table.enums.modify id fun entry =>
      { entry with
        variants := entry.variants.zipWith (fun variant payloadLayout =>
          { variant with payloadLayout }) layouts
        tagSize, payloadOffset, layout } }

/-- The first type that names a struct. -/
def internedTypeForStruct (id : StructId) (state : LayoutState) : Option TypeId :=
  state.table.types.idxOf? (.struct id)

end LayoutState

section Pass

variable (overflow : Overflow) (layoutType : TypeId → LayoutM Layout)

/-- The fields of a struct in sequence: their offsets, the end of the last and the largest
alignment. -/
def placeFields (packed : Bool) :
    UInt64 → UInt64 → List TypeId → LayoutM (List UInt64 × UInt64 × UInt64)
  | offset, maxAlign, [] => return ([], offset, maxAlign)
  | offset, maxAlign, ty :: tys => do
      let layout ← layoutType ty
      let fieldAlign := if packed then 1 else layout.align
      let offset ← overflow.alignUp offset fieldAlign
      match checkedAdd offset layout.size with
      | none => layoutDiag ty "struct layout overflows u64"
      | some next =>
          let (offsets, stop) ← placeFields packed next (max maxAlign fieldAlign) tys
          return (offset :: offsets, stop)

def layoutStruct (id : StructId) : LayoutM Unit := do
  match ← unwrap (← get).structState[id]? with
  | .done => return
  | .active =>
      layoutDiag (((← get).internedTypeForStruct id).getD 0)
        "recursive type has infinite size; use a pointer"
  | .unvisited =>
      modify (·.markStruct id .active)
      let entry ← unwrap (← get).table.structs[id]?
      let (offsets, stop, fieldsAlign) ←
        placeFields overflow layoutType entry.packed 0 1 (entry.fields.map (·.ty))
      let maxAlign := (entry.requestedAlign.map (max fieldsAlign)).getD fieldsAlign
      let size ← overflow.alignUp stop maxAlign
      modify (·.recordStruct id offsets ⟨size, maxAlign⟩)
      modify (·.markStruct id .done)

/-- The payload of a variant in sequence: its end and its largest alignment. -/
def placePayload : UInt64 → UInt64 → List TypeId → LayoutM (UInt64 × UInt64)
  | offset, align, [] => return (offset, align)
  | offset, align, ty :: tys => do
      let layout ← layoutType ty
      let offset ← overflow.alignUp offset layout.align
      let offset ← overflow.add offset layout.size
      placePayload offset (max align layout.align) tys

/-- The layouts of the payloads, and their largest size and alignment. -/
def placePayloads : UInt64 → UInt64 → List (List TypeId) → LayoutM (List Layout × UInt64 × UInt64)
  | maxSize, maxAlign, [] => return ([], maxSize, maxAlign)
  | maxSize, maxAlign, payload :: payloads => do
      let (stop, align) ← placePayload overflow layoutType 0 1 payload
      let size ← overflow.alignUp stop align
      let (layouts, rest) ← placePayloads (max maxSize size) (max maxAlign align) payloads
      return (⟨size, align⟩ :: layouts, rest)

def tagSizeFor (count : Nat) : UInt64 :=
  if count ≤ 256 then 1 else if count ≤ 65536 then 2 else 4

def layoutEnum (id : EnumId) : LayoutM Unit := do
  match ← unwrap (← get).enumState[id]? with
  | .done => return
  | .active =>
      let entry ← unwrap (← get).table.enums[id]?
      diag "<type>" .default s!"recursive enum `{entry.name}` has infinite size"
  | .unvisited =>
      modify (·.markEnum id .active)
      let entry ← unwrap (← get).table.enums[id]?
      let tagSize := tagSizeFor entry.variants.length
      let (layouts, maxSize, maxAlign) ←
        placePayloads overflow layoutType 0 1 (entry.variants.map (·.payload))
      let payloadOffset ← overflow.alignUp tagSize maxAlign
      let overallAlign := max maxAlign tagSize
      let overallSize ← overflow.alignUp (← overflow.add payloadOffset maxSize) overallAlign
      modify (·.recordEnum id layouts tagSize payloadOffset ⟨overallSize, overallAlign⟩)
      modify (·.markEnum id .done)

/-- One step of `layoutType`, which it calls on component types. -/
def layoutTypeStep (ty : TypeId) : LayoutM Layout := do
  match ← unwrap (← get).table.types[ty]? with
  | .struct id =>
      layoutStruct overflow layoutType id
      return (← unwrap (← get).table.structs[id]?).layout
  | .enum id =>
      layoutEnum overflow layoutType id
      return (← unwrap (← get).table.enums[id]?).layout
  | .array element len =>
      let element ← layoutType element
      match checkedMul element.size len with
      | some size => return ⟨size, element.align⟩
      | none => layoutDiag ty "array layout overflows u64"
  | _ => unwrap ((← get).table.context.layout ty)

end Pass

/-- `layoutType`, at most `fuel` component types deep. -/
def layoutType (overflow : Overflow) : Nat → TypeId → LayoutM Layout
  | 0 => fun _ => throw .panic
  | fuel + 1 => layoutTypeStep overflow (layoutType overflow fuel)

/-- A chain of component types enters every struct and enum at most once, and between two of them
the element types of arrays come from earlier and earlier positions of the table. -/
def TypeTable.depth (table : TypeTable) : Nat :=
  (table.structs.length + table.enums.length + 1) * (table.types.length + 1)

def LayoutState.new (table : TypeTable) : LayoutState where
  table := table
  structState := table.structs.map fun _ => .unvisited
  enumState := table.enums.map fun _ => .unvisited

def computeLayoutsM (overflow : Overflow) (table : TypeTable) : LayoutM Unit := do
  (List.range table.structs.length).forM (layoutStruct overflow (layoutType overflow table.depth))
  (List.range table.enums.length).forM (layoutEnum overflow (layoutType overflow table.depth))

def computeLayouts (overflow : Overflow) (table : TypeTable) : CheckResult TypeTable := do
  let (_, state) ← computeLayoutsM overflow table (.new table)
  return state.table

end Ostadix.Ocore
