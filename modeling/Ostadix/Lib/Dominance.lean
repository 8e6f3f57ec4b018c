import Mathlib.Data.Set.Basic

/-! # Dominance from availability

A control-flow graph is an entry and an edge relation over an arbitrary type of blocks. A block
strictly dominates another one if every walk from the entry to the latter has passed it.

The non-trivial ingredient of `strictlyDominates_of_available` is `exists_firstArrival`: a
reachable block is reached by a walk that visits it only at its end. -/

namespace Ostadix.Lib

variable {Block Value : Type} {e : Block} {edge : Block → Block → Prop}

/-- Walks from the entry: the last block, and the blocks visited before it. -/
inductive Walk (entry : Block) (edge : Block → Block → Prop) : Block → List Block → Prop
  | start : Walk entry edge entry []
  | step {block next : Block} {visited : List Block} :
      Walk entry edge block visited → edge block next → Walk entry edge next (block :: visited)

def Reachable (entry : Block) (edge : Block → Block → Prop) (block : Block) : Prop :=
  ∃ visited, Walk entry edge block visited

def StrictlyDominates (entry : Block) (edge : Block → Block → Prop) (dominator block : Block) :
    Prop :=
  dominator ≠ block ∧ ∀ visited, Walk entry edge block visited → dominator ∈ visited

/-- A walk can be cut at any block it has visited. -/
theorem Walk.cut {blk hear : Block} {hvis : List Block} (walk : Walk e edge blk hvis)
    (passed : hear ∈ hvis) :
    ∃ s, s.length < hvis.length ∧ Walk e edge hear s := by
  induction walk with
  | start => cases passed
  | @step last next hvis walk _ ih =>
    obtain rfl | passed := List.mem_cons.mp passed
    · exact ⟨hvis, Nat.lt_succ_self _, walk⟩
    · obtain ⟨s, shorter, cut⟩ := ih passed
      exact ⟨s, Nat.lt_succ_of_lt shorter, cut⟩

/-- A reachable block is reached by a walk that has not visited it before. -/
theorem exists_firstArrival {block : Block} (reachable : Reachable e edge block) :
    ∃ hvis, Walk e edge block hvis ∧ block ∉ hvis := by
  obtain ⟨hvis, walk⟩ := reachable
  -- the shorter of two walks, until the block itself is not on the way any more
  induction size : hvis.length using Nat.strongRecOn generalizing hvis with
  | ind len ih =>
    by_cases passed : block ∈ hvis
    · obtain ⟨s, shorter, cut⟩ := walk.cut passed
      exact ih s.length (size ▸ shorter) s cut rfl
    · exact ⟨hvis, walk, passed⟩

section Availability

/-- `available` certifies what is defined whenever a block is entered: nothing at the entry, and
after an edge at most what its source had available or defines. -/
structure Availability (entry : Block) (edge : Block → Block → Prop)
    (defines : Block → Value → Prop) (available : Block → Value → Prop) : Prop where
  atEntry : ∀ value, ¬ available entry value
  alongEdge : ∀ {block next value}, edge block next → available next value →
    available block value ∨ defines block value

variable {defines : Block → Value → Prop} {avl : Block → Value → Prop}

/-- What is available was defined on the way. -/
theorem Availability.defined (availability : Availability e edge defines avl)
    {blk : Block} {hvis : List Block} (walk : Walk e edge blk hvis) {v : Value}
    (hh : avl blk v) : ∃ hear ∈ hvis, defines hear v := by
  induction walk with
  | start => exact absurd hh (availability.atEntry v)
  | @step last next hvis walk step ih =>
    obtain s | hdf := availability.alongEdge step hh
    · obtain ⟨hear, passed, hdf⟩ := ih s
      exact ⟨hear, List.mem_cons_of_mem last passed, hdf⟩
    · exact ⟨last, List.mem_cons_self, hdf⟩

/-- The one block that defines an available value strictly dominates the block. -/
theorem strictlyDominates_of_available
    (availability : Availability e edge defines avl) {blk home : Block} {v : Value}
    (only : ∀ o, defines o v → o = home) (reachable : Reachable e edge blk)
    (hh : avl blk v) : StrictlyDominates e edge home blk := by
  have ps : ∀ hvis, Walk e edge blk hvis → home ∈ hvis := by
    intro hvis walk
    obtain ⟨hear, passed, hdf⟩ := availability.defined walk hh
    exact only hear hdf ▸ passed
  refine ⟨?_, ps⟩
  rintro rfl
  obtain ⟨hvis, walk, fresh⟩ := exists_firstArrival reachable
  exact fresh (ps hvis walk)

end Availability

end Ostadix.Lib
