import Mathlib.Data.List.Sort

/-! # Ordered maps

A finite map as the list of its entries in the order of their keys, without repetition. -/

namespace Ostadix.Lib

open List

structure OrderedMap (κ ν : Type) [LinearOrder κ] where
  entries : List (κ × ν)
  sorted : (entries.map Prod.fst).Pairwise (· < ·)

namespace OrderedMap

variable {κ ν : Type} [LinearOrder κ]

def empty : OrderedMap κ ν := ⟨[], List.Pairwise.nil⟩

def get? (map : OrderedMap κ ν) (key : κ) : Option ν :=
  (map.entries.find? fun entry => entry.1 = key).map Prod.snd

def values (map : OrderedMap κ ν) : List ν :=
  map.entries.map Prod.snd

/-! ## Insertion -/

/-- The entry in its place; it replaces an entry of the same key. -/
def insertEntry (key : κ) (value : ν) : List (κ × ν) → List (κ × ν)
  | [] => [(key, value)]
  | entry :: rest =>
      if key < entry.1 then (key, value) :: entry :: rest
      else if key = entry.1 then (key, value) :: rest
      else entry :: insertEntry key value rest

variable {entries : List (κ × ν)}

theorem mem_keys_insertEntry {k o : κ} {v : ν} (hm : o ∈ (insertEntry k v entries).map Prod.fst) :
    o = k ∨ o ∈ entries.map Prod.fst := by
  induction entries with
  | nil => simpa [insertEntry] using hm
  | cons entry rest ih =>
    rw [insertEntry] at hm
    split at hm
    · simpa using hm
    · split at hm
      · rename_i same
        simp only [map_cons, mem_cons] at hm ⊢
        exact hm.imp_right .inr
      · simp only [map_cons, mem_cons] at hm ⊢
        obtain first | hl := hm
        · exact .inr (.inl first)
        · exact (ih hl).imp_right .inr

theorem sorted_insertEntry {key : κ} {v : ν} (sorted : (entries.map Prod.fst).Pairwise (· < ·)) :
    ((insertEntry key v entries).map Prod.fst).Pairwise (· < ·) := by
  induction entries with
  | nil => simp [insertEntry]
  | cons entry rest ih =>
    have tail := pairwise_cons.mp sorted
    rw [insertEntry]
    split
    · rename_i s
      refine pairwise_cons.mpr ⟨?_, sorted⟩
      intro o hm
      obtain rfl | hl := mem_cons.mp hm
      · exact s
      · exact s.trans (tail.1 o hl)
    · rename_i notBefore
      split
      · rename_i same
        subst same
        exact sorted
      · rename_i hne
        refine pairwise_cons.mpr ⟨?_, ih tail.2⟩
        intro o hm
        obtain rfl | hl := mem_keys_insertEntry hm
        · exact lt_of_le_of_ne (not_lt.mp notBefore) (Ne.symm hne)
        · exact tail.1 o hl

def insert (map : OrderedMap κ ν) (key : κ) (value : ν) : OrderedMap κ ν :=
  ⟨insertEntry key value map.entries, sorted_insertEntry map.sorted⟩

theorem find?_insertEntry (k o : κ) (v : ν) (es : List (κ × ν))
    (sorted : (es.map Prod.fst).Pairwise (· < ·)) :
    (insertEntry k v es).find? (fun e => e.1 = o) =
      if k = o then some (k, v) else es.find? fun e => e.1 = o := by
  induction es with
  | nil => by_cases he : k = o <;> simp [insertEntry, he]
  | cons e rest ih =>
    have tail := pairwise_cons.mp sorted
    rw [insertEntry]
    split
    · by_cases he : k = o <;> simp [he]
    · split
      · rename_i equal
        by_cases he : k = o
        · simp [he]
        · simp [he, ← equal]
      · rename_i hne
        rw [find?_cons, find?_cons, ih tail.2]
        by_cases he : k = o
        · have : ¬ e.1 = o := fun equal => hne (he.trans equal.symm)
          simp [he, this]
        · simp [he]

@[simp] theorem get?_insert (map : OrderedMap κ ν) (k o : κ) (v : ν) :
    (map.insert k v).get? o = if k = o then some v else map.get? o := by
  rw [get?, insert, find?_insertEntry k o v map.entries map.sorted]
  split <;> rfl

/-! ## Change of one value -/

/-- `get_mut` followed by an assignment: the value under the key, if there is one. -/
def modify (map : OrderedMap κ ν) (key : κ) (change : ν → ν) : OrderedMap κ ν where
  entries := map.entries.map fun entry => (entry.1, if entry.1 = key then change entry.2 else entry.2)
  sorted := by simpa [Function.comp_def] using map.sorted

/-- The same change to every value. -/
def mapValues (map : OrderedMap κ ν) (change : ν → ν) : OrderedMap κ ν where
  entries := map.entries.map fun entry => (entry.1, change entry.2)
  sorted := by simpa [Function.comp_def] using map.sorted

@[simp] theorem get?_modify (map : OrderedMap κ ν) (k o : κ) (chg : ν → ν) :
    (map.modify k chg).get? o = if k = o then (map.get? o).map chg else map.get? o := by
  simp only [get?, modify, find?_map, Function.comp_def, Option.map_map]
  cases hf : map.entries.find? fun e => e.1 = o with
  | none => simp
  | some e =>
    have he : e.1 = o := by simpa using find?_some hf
    by_cases equal : k = o
    · simp [he, equal]
    · simp [he, equal, Ne.symm equal]

@[simp] theorem get?_mapValues (map : OrderedMap κ ν) (k : κ) (chg : ν → ν) :
    (map.mapValues chg).get? k = (map.get? k).map chg := by
  simp only [get?, mapValues, find?_map, Function.comp_def, Option.map_map]

/-! ## Removal -/

def erase (map : OrderedMap κ ν) (key : κ) : OrderedMap κ ν where
  entries := map.entries.filter fun entry => entry.1 ≠ key
  sorted := map.sorted.sublist (filter_sublist.map Prod.fst)

def size (map : OrderedMap κ ν) : Nat :=
  map.entries.length

@[simp] theorem get?_empty (key : κ) : (empty : OrderedMap κ ν).get? key = none := rfl

@[simp] theorem get?_erase (map : OrderedMap κ ν) (k o : κ) :
    (map.erase k).get? o = if k = o then none else map.get? o := by
  simp only [get?, erase, find?_filter]
  split
  · rename_i he
    subst he
    rw [find?_eq_none.mpr (by simp), Option.map_none]
  · rename_i hne
    congr 2
    funext e
    by_cases he : e.1 = o
    · simp [he, Ne.symm hne]
    · simp [he]

/-! ## Values -/

end OrderedMap

end Ostadix.Lib
