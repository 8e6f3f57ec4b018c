import Mathlib.Data.List.Perm.Subperm

/-! # Lists

Association lists by `List.lookup`, lists related element by element, changes at one position. -/

namespace Ostadix.Lib

open List

section Lookup

variable {α β : Type} [BEq α] [LawfulBEq α]

variable {ms : List (α × β)}

/-- In a map with distinct keys every member is found under its key. -/
theorem lookup_of_mem {e : α × β} (hne : (ms.map Prod.fst).Nodup)
    (hm : e ∈ ms) : ms.lookup e.1 = some e.2 := by
  induction ms with
  | nil => cases hm
  | cons o ms ih =>
    obtain ⟨key, _⟩ := o
    rw [map_cons, nodup_cons] at hne
    rcases mem_cons.mp hm with rfl | hl
    · simp
    · have hdf : e.1 ≠ key := by
        rintro rfl
        exact hne.1 (mem_map.mpr ⟨e, hl, rfl⟩)
      rw [lookup_cons, beq_false_of_ne hdf]
      exact ih hne.2 hl

theorem mem_of_lookup {k : α} {v : β} (hf : ms.lookup k = some v) : (k, v) ∈ ms := by
  obtain ⟨_, _, rfl, -⟩ := lookup_eq_some_iff.mp hf
  simp

/-- Members under all of as many distinct keys as there are members have exactly those keys. -/
theorem keys_perm_of_lookup {keys : List α} (hne : keys.Nodup)
    (hf : ∀ key ∈ keys, (ms.lookup key).isSome) (len : ms.length ≤ keys.length) :
    keys.Perm (ms.map Prod.fst) := by
  have subset : keys ⊆ ms.map Prod.fst := by
    intro key hls
    obtain ⟨_, here⟩ := Option.isSome_iff_exists.mp (hf key hls)
    exact mem_map_of_mem (mem_of_lookup here)
  refine (subperm_of_subset hne subset).perm_of_length_le ?_
  rw [length_map]
  exact len

end Lookup

theorem exists_of_forall₂ {α β : Type} {relation : α → β → Prop} {xs : List α}
    {rs : List β} (hrel : List.Forall₂ relation xs rs) {x : α}
    (hm : x ∈ xs) : ∃ result ∈ rs, relation x result := by
  induction hrel with
  | nil => cases hm
  | cons first _ ih =>
    cases hm with
    | head => exact ⟨_, mem_cons_self, first⟩
    | tail _ hl =>
      obtain ⟨result, hls, hrel⟩ := ih hl
      exact ⟨result, mem_cons_of_mem _ hls, hrel⟩

theorem forall₂_and {α β : Type} {first x2 : α → β → Prop} {xs : List α} {rs : List β}
    (one : List.Forall₂ first xs rs) (o : List.Forall₂ x2 xs rs) :
    List.Forall₂ (fun x r => first x r ∧ x2 x r) xs rs :=
  .mp (fun _ _ => And.intro) one o

theorem map_modify_eq {α β : Type} {view : α → β} {chg : α → α} {xs : List α} {i : Nat}
    {x : α} (hp : xs[i]? = some x) (same : view (chg x) = view x) :
    (xs.modify i chg).map view = xs.map view := by
  apply ext_getElem?
  intro o
  rw [getElem?_map, getElem?_map, getElem?_modify]
  by_cases here : i = o
  · subst here
    simp [hp, same]
  · simp [here]

theorem getElem?_of_prefix {α : Type} {xs more : List α} (grown : xs <+: more) {i : Nat}
    {x : α} (hp : xs[i]? = some x) : more[i]? = some x := by
  obtain ⟨_, rfl⟩ := grown
  rw [List.getElem?_append_left (List.getElem?_eq_some_iff.mp hp).1, hp]

end Ostadix.Lib
