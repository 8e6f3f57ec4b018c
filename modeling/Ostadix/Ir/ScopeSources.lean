import Ostadix.Ir.Build

/-! # The bindings a shim block receives

A shim block gets the stores of the names it can reach: those of its body, and those of the quoted
blocks it can evaluate, whose names count as its own. -/

namespace Ostadix.Ir

open List

variable {scopes : List Scope} {name : String}

/-! ## Visible bindings are the innermost ones -/

theorem getElem?_foldl_insert {bindings : List (String × PlanNodeId)} (out : Scope)
    (hne : bindings.Pairwise fun first next => ¬ compare first.1 next.1 = .eq) :
    (bindings.foldl (fun all bnd => all.insert bnd.1 bnd.2) out)[name]? =
      ((bindings.find? (compare ·.1 name == .eq)).map Prod.snd).or out[name]? := by
  induction bindings generalizing out with
  | nil => rfl
  | cons first tl ih =>
    rw [foldl_cons, ih _ hne.of_cons, Std.ExtTreeMap.getElem?_insert, find?_cons]
    by_cases he : first.1 = name
    · have hab : tl.find? (compare ·.1 name == .eq) = none := by
        rw [find?_eq_none]
        intro next hm
        have apart := rel_of_pairwise_cons hne hm
        simp only [Std.compare_eq_iff_eq, beq_iff_eq] at apart ⊢
        exact fun hag => apart (he.trans hag.symm)
      simp [he, hab]
    · have apart : (compare first.1 name == .eq) = false := by simpa using he
      simp [he, apart]

theorem getElem?_visible : (visible scopes)[name]? = lookup scopes name := by
  induction scopes with
  | nil => simp [visible, lookup]
  | cons inn out ih =>
    change (foldl _ (visible out) _)[name]? = findSome? _ (inn :: out)
    rw [getElem?_foldl_insert _ Std.ExtTreeMap.distinct_keys_toList, ih, findSome?_cons, ← lookup]
    cases hf : inn.toList.find? (compare ·.1 name == .eq) with
    | none =>
        rw [Std.ExtTreeMap.find?_toList_eq_none_iff_not_mem] at hf
        simp [hf]
    | some =>
        have := (Std.ExtTreeMap.find?_toList_eq_some_iff_getKey?_eq_some_and_getElem?_eq_some.mp hf).2
        simp [this]

theorem mem_visible {id : PlanNodeId} :
    (name, id) ∈ (visible scopes).toList ↔ lookup scopes name = some id := by
  rw [Std.ExtTreeMap.mem_toList_iff_getElem?_eq_some, getElem?_visible]

/-- What a body refers to. -/
inductive Reference where
  | name (name : String)
  | scope

def QuoteReferences.Has (references : QuoteReferences) : Reference → Prop
  | .name name => name ∈ references.tokens
  | .scope => references.oScope = true

section Reach

variable {quoteReferences : Std.ExtTreeMap PlanNodeId QuoteReferences}

/-- The least set of references that has those of the body and, with a name whose innermost store
binds a quote, those of the quote. -/
inductive Reached (scopes : List Scope) (quoteReferences : Std.ExtTreeMap PlanNodeId QuoteReferences)
    (body : QuoteReferences) : Reference → Prop
  | body {r : Reference} (h : body.Has r) : Reached scopes quoteReferences body r
  | quote {binder : String} {store : PlanNodeId} {quoted : QuoteReferences} {r : Reference}
      (reached : Reached scopes quoteReferences body (.name binder))
      (stored : lookup scopes binder = some store) (binds : quoteReferences[store]? = some quoted)
      (h : quoted.Has r) : Reached scopes quoteReferences body r

section Turn

variable {bindings : List (String × PlanNodeId)} {expanded pend : List PlanNodeId}
  {references : QuoteReferences}

end Turn

end Reach

end Ostadix.Ir
