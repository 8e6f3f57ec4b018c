import Mathlib.Data.Finset.Sort
import Mathlib.Data.List.Destutter
import Mathlib.Data.Prod.Lex
import Mathlib.Data.String.Basic
import Ostadix.Lib.Except

/-! # Information deltas

`InformationDeltaV1::new` brings its lists into a normal form: sorted, each element once. -/

namespace Ostadix.Information

open Ostadix.Lib List

/-! ## Sorting and removal of repetitions -/

section SortDedup

variable {α : Type} [LinearOrder α]

/-- `sort` followed by `dedup`, which only removes neighbours. -/
def sortDedup (items : List α) : List α :=
  (items.mergeSort (· ≤ ·)).destutter (· ≠ ·)

theorem mem_destutter' {x a : α} {l : List α} : x ∈ l.destutter' (· ≠ ·) a ↔ x ∈ a :: l := by
  induction l generalizing a with
  | nil => simp
  | cons b l ih =>
    by_cases h : a = b
    · subst h
      rw [destutter'_cons_neg _ (by simp), ih]
      simp
    · rw [destutter'_cons_pos _ h, mem_cons, ih, ← mem_cons]

theorem mem_sortDedup {x : α} {l : List α} : x ∈ sortDedup l ↔ x ∈ l := by
  have h := (mergeSort_perm l (· ≤ ·)).mem_iff (a := x)
  rw [← h, sortDedup]
  cases l.mergeSort (· ≤ ·) with
  | nil => simp
  | cons => exact mem_destutter'

/-- The result is the sorted list of the set of elements. -/
theorem sortDedup_eq (l : List α) : sortDedup l = l.toFinset.sort := by
  have hle : (sortDedup l).Pairwise (· ≤ ·) :=
    (pairwise_mergeSort' (· ≤ ·) l).sublist (destutter_sublist _ _)
  have hlt : (sortDedup l).Pairwise (· < ·) := by
    refine isChain_iff_pairwise.mp ?_
    have hch := isChain_destutter (· ≠ ·) (l.mergeSort (· ≤ ·))
    have hch' := isChain_iff_pairwise.mpr hle
    rw [isChain_iff_getElem] at hch hch' ⊢
    exact fun i h => lt_of_le_of_ne (hch' i h) (hch i h)
  have hset : (sortDedup l).toFinset = l.toFinset := by
    ext x
    simp [mem_sortDedup]
  rw [← hset, (toFinset_sort (· ≤ ·) (hlt.imp ne_of_lt)).mpr hle]

theorem sortDedup_eq_iff {l k : List α} : sortDedup l = sortDedup k ↔ ∀ x, x ∈ l ↔ x ∈ k := by
  constructor
  · intro h x
    rw [← mem_sortDedup, h, mem_sortDedup]
  · intro h
    rw [sortDedup_eq, sortDedup_eq, show l.toFinset = k.toFinset by ext x; simp [h]]

end SortDedup

/-! ## Deltas -/

inductive InformationErrorV1
  | invalidRecord (message : String)
deriving DecidableEq

/-- Identities are digests; only their order matters here. -/
structure HeadCoordinateV1 (Entity : Type) where
  subject : Entity
  predicateSchema : String
  scopeIdentity : String
deriving DecidableEq

structure ExpectedHeadSetV1 (Entity Atom : Type) where
  coordinate : HeadCoordinateV1 Entity
  heads : List Atom
deriving DecidableEq

structure InformationDeltaV1 (Revision Entity Atom : Type) where
  schema : String
  baseRevision : Revision
  producer : Entity
  additions : List Atom
  expectedHeads : List (ExpectedHeadSetV1 Entity Atom)
deriving DecidableEq

section Order

variable {Entity Atom : Type} [LinearOrder Entity] [LinearOrder Atom]

/-- The derived order: the fields one after the other. -/
instance : LinearOrder (HeadCoordinateV1 Entity) :=
  .lift' (fun c => toLex (c.subject, toLex (c.predicateSchema, c.scopeIdentity))) fun a b h => by
    cases a
    cases b
    simpa using h

instance : LinearOrder (ExpectedHeadSetV1 Entity Atom) :=
  .lift' (fun e => toLex (e.coordinate, e.heads)) fun a b h => by
    cases a
    cases b
    simpa using h

end Order

variable {Revision Entity Atom : Type} [LinearOrder Atom]

def HeadCoordinateV1.validate (coordinate : HeadCoordinateV1 Entity) :
    Except InformationErrorV1 Unit :=
  bailIf (coordinate.predicateSchema.isEmpty || coordinate.scopeIdentity.isEmpty)
    (.invalidRecord "expected-head predicate schema and scope identity must be non-empty")

def ExpectedHeadSetV1.new (coordinate : HeadCoordinateV1 Entity) (heads : List Atom) :
    ExpectedHeadSetV1 Entity Atom :=
  ⟨coordinate, sortDedup heads⟩

section New

variable [DecidableEq Revision] [LinearOrder Entity]

/-- `windows(2)`: neighbours with one coordinate and different head sets. -/
def repeatsCoordinate : List (ExpectedHeadSetV1 Entity Atom) → Bool
  | first :: second :: rest =>
      (first.coordinate == second.coordinate && first.heads != second.heads) ||
        repeatsCoordinate (second :: rest)
  | _ => false

def InformationDeltaV1.new (baseRevision : Revision) (producer : Entity) (additions : List Atom)
    (expectedHeads : List (ExpectedHeadSetV1 Entity Atom)) :
    Except InformationErrorV1 (InformationDeltaV1 Revision Entity Atom) := do
  let additions := sortDedup additions
  bailIf additions.isEmpty (.invalidRecord "information delta must add at least one atom")
  let expectedHeads ← expectedHeads.mapM fun expected => do
    expected.coordinate.validate
    return ExpectedHeadSetV1.new expected.coordinate expected.heads
  let expectedHeads := expectedHeads.mergeSort (· ≤ ·)
  bailIf (repeatsCoordinate expectedHeads) (.invalidRecord
    "information delta repeats one expected-head coordinate with different head sets")
  return ⟨"ostadix.info-delta/v1", baseRevision, producer, additions,
    expectedHeads.destutter (· ≠ ·)⟩

def InformationDeltaV1.validate (delta : InformationDeltaV1 Revision Entity Atom) :
    Except InformationErrorV1 Unit := do
  bailIf (delta.schema != "ostadix.info-delta/v1")
    (.invalidRecord s!"unsupported information delta schema `{delta.schema}`")
  let normalized ← InformationDeltaV1.new delta.baseRevision delta.producer delta.additions
    delta.expectedHeads
  bailIf (normalized != delta)
    (.invalidRecord "information delta is not in normalized canonical form")

end New

/-! ## What the result depends on -/

def HeadCoordinateV1.Valid (coordinate : HeadCoordinateV1 Entity) : Prop :=
  coordinate.predicateSchema ≠ "" ∧ coordinate.scopeIdentity ≠ ""

theorem HeadCoordinateV1.validate_eq_ok {c : HeadCoordinateV1 Entity} :
    c.validate = .ok () ↔ c.Valid := by
  simp [validate, bailIf_eq_ok, Valid]

def ExpectedHeadSetV1.normal (expected : ExpectedHeadSetV1 Entity Atom) :
    ExpectedHeadSetV1 Entity Atom :=
  .new expected.coordinate expected.heads

/-- The sets agree up to order and repetition, also of the atoms inside. -/
def SameHeads (e k : List (ExpectedHeadSetV1 Entity Atom)) : Prop :=
  (∀ x ∈ e, ∃ y ∈ k, x.coordinate = y.coordinate ∧ ∀ atom, atom ∈ x.heads ↔ atom ∈ y.heads) ∧
    ∀ y ∈ k, ∃ x ∈ e, x.coordinate = y.coordinate ∧ ∀ atom, atom ∈ x.heads ↔ atom ∈ y.heads

/-- No coordinate has two head sets. -/
def OneSetEach (e : List (ExpectedHeadSetV1 Entity Atom)) : Prop :=
  ∀ x ∈ e, ∀ y ∈ e, x.coordinate = y.coordinate → ∀ atom, atom ∈ x.heads ↔ atom ∈ y.heads

variable {a b : List Atom} {e k : List (ExpectedHeadSetV1 Entity Atom)} {base : Revision}
  {producer : Entity}

theorem normal_eq {x y : ExpectedHeadSetV1 Entity Atom} : x.normal = y.normal ↔
    x.coordinate = y.coordinate ∧ ∀ atom, atom ∈ x.heads ↔ atom ∈ y.heads := by
  simp [ExpectedHeadSetV1.normal, ExpectedHeadSetV1.new, sortDedup_eq_iff]

theorem SameHeads.mem (h : SameHeads e k) (s : ExpectedHeadSetV1 Entity Atom) :
    s ∈ e.map .normal ↔ s ∈ k.map .normal := by
  simp only [SameHeads, ← normal_eq] at h
  simp only [mem_map]
  constructor
  · rintro ⟨x, hx, rfl⟩
    obtain ⟨y, hy, he⟩ := h.1 x hx
    exact ⟨y, hy, he.symm⟩
  · rintro ⟨y, hy, rfl⟩
    obtain ⟨x, hx, he⟩ := h.2 y hy
    exact ⟨x, hx, he⟩

def invalidCoordinate : InformationErrorV1 :=
  .invalidRecord "expected-head predicate schema and scope identity must be non-empty"

theorem mapM_normal_ok (h : ∀ x ∈ e, x.coordinate.Valid) :
    (e.mapM fun x => do
      x.coordinate.validate
      return ExpectedHeadSetV1.new x.coordinate x.heads) = .ok (e.map .normal) := by
  rw [mapM_eq_ok]
  induction e with
  | nil => exact .nil
  | cons x e ih =>
    obtain ⟨hx, he⟩ := forall_mem_cons.mp h
    refine .cons ?_ (ih he)
    rw [HeadCoordinateV1.validate_eq_ok.mpr hx]
    rfl

theorem mapM_normal_error (h : ¬∀ x ∈ e, x.coordinate.Valid) :
    (e.mapM fun x => do
      x.coordinate.validate
      return ExpectedHeadSetV1.new x.coordinate x.heads) = .error invalidCoordinate := by
  induction e with
  | nil => simp at h
  | cons x e ih =>
    rw [mapM_cons]
    by_cases hx : x.coordinate.Valid
    · rw [HeadCoordinateV1.validate_eq_ok.mpr hx, ih (by simpa [hx] using h)]
      rfl
    · have : x.coordinate.validate = .error invalidCoordinate := by
        rw [HeadCoordinateV1.validate, bailIf_eq_error]
        refine ⟨?_, rfl⟩
        simpa [HeadCoordinateV1.Valid, or_iff_not_imp_left] using hx
      rw [this]
      rfl

variable [LinearOrder Entity]

/-- One coordinate has one head set. -/
def Agree (x y : ExpectedHeadSetV1 Entity Atom) : Prop :=
  x.coordinate = y.coordinate → x.heads = y.heads

theorem coordinate_le {x y : ExpectedHeadSetV1 Entity Atom} (h : x ≤ y) :
    x.coordinate ≤ y.coordinate :=
  (Prod.Lex.toLex_le_toLex.mp h).elim le_of_lt fun h => h.1.le

theorem repeatsCoordinate_eq_false (l : List (ExpectedHeadSetV1 Entity Atom)) :
    repeatsCoordinate l = false ↔ l.IsChain Agree := by
  fun_induction repeatsCoordinate l with
  | case1 first second rest ih => simp [ih, Agree]
  | case2 l h =>
    match l, h with
    | [], _ => simp
    | [_], _ => simp
    | _ :: _ :: _, h => exact (h _ _ _ rfl).elim

/-- In a sorted list all entries of a coordinate are neighbours. -/
theorem pairwise_agree {l : List (ExpectedHeadSetV1 Entity Atom)} (hs : l.Pairwise (· ≤ ·)) :
    l.IsChain Agree ↔ ∀ x ∈ l, ∀ y ∈ l, Agree x y := by
  constructor
  · intro h
    have trans : Trans (fun x y => x ≤ y ∧ Agree x y) (fun x y => x ≤ y ∧ Agree x y)
        fun x y : ExpectedHeadSetV1 Entity Atom => x ≤ y ∧ Agree x y := by
      refine ⟨fun {x y z} hxy hyz => ⟨hxy.1.trans hyz.1, fun hxz => ?_⟩⟩
      have heq : x.coordinate = y.coordinate :=
        le_antisymm (coordinate_le hxy.1) (hxz ▸ coordinate_le hyz.1)
      exact (hxy.2 heq).trans (hyz.2 (heq.symm.trans hxz))
    have hs := isChain_iff_pairwise.mpr hs
    have hp : l.IsChain fun x y => x ≤ y ∧ Agree x y := by
      rw [isChain_iff_getElem] at h hs ⊢
      exact fun i hi => ⟨hs i hi, h i hi⟩
    have symm : Std.Symm (@Agree Entity Atom) := ⟨fun x y h he => (h he.symm).symm⟩
    exact ((isChain_iff_pairwise.mp hp).imp fun h => h.2).forall_of_forall fun x _ _ => rfl
  · intro h
    exact isChain_iff_getElem.mpr fun i hi => h _ (getElem_mem _) _ (getElem_mem _)

theorem repeatsCoordinate_sorted :
    repeatsCoordinate ((e.map .normal).mergeSort (· ≤ ·)) = false ↔ OneSetEach e := by
  rw [repeatsCoordinate_eq_false, pairwise_agree (pairwise_mergeSort' (· ≤ ·) _)]
  simp [mem_mergeSort, OneSetEach, Agree, ExpectedHeadSetV1.normal, ExpectedHeadSetV1.new,
    sortDedup_eq_iff]

open Classical in
theorem new_eq : InformationDeltaV1.new base producer a e =
    if a = [] then .error (.invalidRecord "information delta must add at least one atom")
    else if ∃ x ∈ e, ¬x.coordinate.Valid then .error invalidCoordinate
    else if OneSetEach e then
      .ok ⟨"ostadix.info-delta/v1", base, producer, sortDedup a, sortDedup (e.map .normal)⟩
    else .error (.invalidRecord
      "information delta repeats one expected-head coordinate with different head sets") := by
  have hnil : (sortDedup a).isEmpty = decide (a = []) := by
    cases a with
    | nil => simp [sortDedup]
    | cons x a =>
      have : x ∈ sortDedup (x :: a) := mem_sortDedup.mpr mem_cons_self
      cases h : sortDedup (x :: a) with
      | nil => simp [h] at this
      | cons => rfl
  rw [InformationDeltaV1.new, hnil]
  split_ifs with ha hv ho
  · simp [ha, bailIf, bind, Except.bind]
  · rw [mapM_normal_error (by simpa using hv)]
    simp [ha, bailIf, bind, Except.bind]
  · have := repeatsCoordinate_sorted.mpr ho
    rw [mapM_normal_ok (by simpa using hv)]
    simp [ha, bailIf, bind, Except.bind, this, pure, Except.pure, sortDedup]
    congr!
  · have := mt repeatsCoordinate_sorted.mp ho
    rw [mapM_normal_ok (by simpa using hv)]
    simp [ha, bailIf, bind, Except.bind, this]

theorem new_congr (ha : ∀ x, x ∈ a ↔ x ∈ b) (h : SameHeads e k) :
    InformationDeltaV1.new base producer a e = InformationDeltaV1.new base producer b k := by
  classical
  have hnil : a = [] ↔ b = [] := by simp only [eq_nil_iff_forall_not_mem, ha]
  have hmem := h.mem
  have hvalid : (∃ x ∈ e, ¬x.coordinate.Valid) ↔ ∃ y ∈ k, ¬y.coordinate.Valid := by
    constructor
    · rintro ⟨x, hx, hv⟩
      obtain ⟨y, hy, hc, -⟩ := h.1 x hx
      exact ⟨y, hy, hc ▸ hv⟩
    · rintro ⟨y, hy, hv⟩
      obtain ⟨x, hx, hc, -⟩ := h.2 y hy
      exact ⟨x, hx, hc ▸ hv⟩
  have hone : OneSetEach e ↔ OneSetEach k := by
    simp only [← repeatsCoordinate_sorted, repeatsCoordinate_eq_false,
      pairwise_agree (pairwise_mergeSort' (· ≤ ·) _), mem_mergeSort, hmem]
  rw [new_eq, new_eq, sortDedup_eq_iff.mpr ha, sortDedup_eq_iff.mpr hmem]
  exact if_congr hnil rfl (if_congr hvalid rfl (if_congr hone rfl rfl))

variable [DecidableEq Revision]

theorem validate_of_new {d : InformationDeltaV1 Revision Entity Atom}
    (h : InformationDeltaV1.new base producer a e = .ok d) : d.validate = .ok () := by
  have hn := h
  rw [new_eq] at h
  split_ifs at h
  cases h
  -- the normal form has the same elements, and its head sets are normal themselves
  have hsame : SameHeads (sortDedup (e.map .normal)) e := by
    simp only [SameHeads, ← normal_eq, mem_sortDedup, mem_map, forall_exists_index, and_imp,
      forall_apply_eq_imp_iff₂, exists_exists_and_eq_and]
    have hidem (x : ExpectedHeadSetV1 Entity Atom) : x.normal.normal = x.normal :=
      normal_eq.mpr ⟨rfl, fun _ => mem_sortDedup⟩
    exact ⟨fun x hx => ⟨x, hx, hidem x⟩, fun x hx => ⟨x, hx, hidem x⟩⟩
  rw [InformationDeltaV1.validate]
  simp only [new_congr (fun _ => mem_sortDedup) hsame, hn]
  simp [bailIf, bind, Except.bind]

theorem informationDelta_new (base : Revision) (producer : Entity) :
    (∀ (a b : List Atom) (e k : List (ExpectedHeadSetV1 Entity Atom)), (∀ x, x ∈ a ↔ x ∈ b) →
      SameHeads e k →
        InformationDeltaV1.new base producer a e = InformationDeltaV1.new base producer b k) ∧
    (∀ (a : List Atom) e d, InformationDeltaV1.new base producer a e = .ok d →
      d.validate = .ok ()) ∧
    ∀ (a : List Atom) (e : List (ExpectedHeadSetV1 Entity Atom)),
      (∃ err, InformationDeltaV1.new base producer a e = .error err) ↔
        a = [] ∨ (∃ x ∈ e, ¬x.coordinate.Valid) ∨
          ∃ x ∈ e, ∃ y ∈ e, x.coordinate = y.coordinate ∧
            ¬∀ atom, atom ∈ x.heads ↔ atom ∈ y.heads := by
  refine ⟨fun _ _ _ _ => new_congr, fun _ _ _ => validate_of_new, fun a e => ?_⟩
  have hone : (∃ x ∈ e, ∃ y ∈ e, x.coordinate = y.coordinate ∧
      ¬∀ atom, atom ∈ x.heads ↔ atom ∈ y.heads) ↔ ¬OneSetEach e := by
    simp [OneSetEach]
  rw [hone, new_eq]
  split_ifs with ha hv ho
  · exact ⟨fun _ => .inl ha, fun _ => ⟨_, rfl⟩⟩
  · exact ⟨fun _ => .inr (.inl hv), fun _ => ⟨_, rfl⟩⟩
  · simp [ha, hv, ho]
  · exact ⟨fun _ => .inr (.inr ho), fun _ => ⟨_, rfl⟩⟩

end Ostadix.Information
