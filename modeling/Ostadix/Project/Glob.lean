import Ostadix.Lib.Greedy

/-! # Glob patterns of the project runtime

`glob_match` and its two loops. Both have the same shape: at the level of segments the star is
`**`, inside a segment it is `*`. -/

namespace Ostadix.Project

open Lib List

/-! ## The matcher -/

/-- The test for a literal character stands before the test for `*`. -/
def wildcard (pat text : List Char) : Bool :=
  greedy (· == '*') (fun p t => p == '?' || p == t) (greedyFuel pat text) pat text none

def segmentMatch (pat text : List Char) : Bool :=
  wildcard pat text

def matchSegments (pat text : List (List Char)) : Bool :=
  greedy (· == ['*', '*']) (fun p t => p != ['*', '*'] && segmentMatch p t)
    (greedyFuel pat text) pat text none

def globMatch (pattern path : String) : Bool :=
  matchSegments (pattern.toList.splitOn '/') (path.toList.splitOn '/')

/-! ## What a pattern means -/

/-- `*` takes any characters, `?` one character, any other character itself. -/
def SegmentMatches (pat text : List Char) : Prop :=
  Cuts (· == '*') (fun p t => p = '?' ∨ p = t) pat text

/-- `**` takes any segments, every other segment of the pattern one segment that it matches. -/
def SegmentsMatch (pat text : List (List Char)) : Prop :=
  Cuts (· == ['*', '*']) SegmentMatches pat text

def GlobMatches (pattern path : String) : Prop :=
  SegmentsMatch (pattern.toList.splitOn '/') (path.toList.splitOn '/')

variable {pat text : List Char} {pats texts : List (List Char)}

theorem wildcard_sound (h : wildcard pat text = true) : SegmentMatches pat text := by
  refine (greedy_sound ?_ h).resolve_right Later.not_none
  intro p t ht
  exact .inr (by simpa using ht)

theorem wildcard_complete (hs : '*' ∉ text) (h : SegmentMatches pat text) :
    wildcard pat text = true := by
  refine greedy_complete ?_ suffix_rfl suffix_rfl .none turns_lt_greedyFuel (.inl h)
  intro p t ht
  have hne : t ≠ '*' := fun he => hs (he ▸ ht)
  grind

theorem matchSegments_sound (h : matchSegments pats texts = true) : SegmentsMatch pats texts := by
  refine (greedy_sound ?_ h).resolve_right Later.not_none
  intro p t ht
  rw [Bool.and_eq_true] at ht
  exact .inr (wildcard_sound ht.2)

theorem matchSegments_complete (hs : ∀ t ∈ texts, '*' ∉ t) (h : SegmentsMatch pats texts) :
    matchSegments pats texts = true := by
  refine greedy_complete ?_ suffix_rfl suffix_rfl .none turns_lt_greedyFuel (.inl h)
  intro p t ht
  have hiff : segmentMatch p t = true ↔ SegmentMatches p t :=
    ⟨wildcard_sound, wildcard_complete (hs t ht)⟩
  simp [hiff]

/-! ## A star in the path -/

/-- A pattern that takes `text` character by character. -/
def anyOf (text : List Char) : List Char :=
  text.map fun _ => '?'

theorem forall₂_anyOf {r : Char → Char → Prop} (h : ∀ t, r '?' t) :
    List.Forall₂ r (anyOf text) text :=
  forall₂_map_left_iff.mpr (forall₂_same.mpr fun t _ => h t)

/-- The star has to take nothing, but the loop gives it the star of the text. -/
def missed (u v : List Char) : List Char :=
  anyOf u ++ '*' :: anyOf ('*' :: v)

theorem missed_eq (u v : List Char) : missed u v = (anyOf u ++ '*' :: anyOf v) ++ ['?'] := by
  simp [missed, anyOf, map_const', ← replicate_succ, replicate_succ']

theorem missed_ne (u v : List Char) : missed u v ≠ ['*', '*'] := by
  intro h
  have : '?' ∈ missed u v := by simp [missed, anyOf]
  simp [h] at this

theorem segmentMatches_missed (u v : List Char) : SegmentMatches (missed u v) (u ++ '*' :: v) := by
  refine .of_forall₂ (forall₂_anyOf fun _ => .inl rfl) ((Cuts.star_iff rfl).mpr ?_)
  refine ⟨'*' :: v, suffix_rfl, ?_⟩
  simpa using Cuts.of_forall₂ (forall₂_anyOf fun _ => .inl rfl) (Cuts.nil_iff.mpr rfl)

theorem wildcard_missed (u v : List Char) : wildcard (missed u v) (u ++ '*' :: v) = false := by
  have hr : List.Forall₂ (fun p t => (p == '?' || p == t) = true)
      (anyOf u ++ '*' :: anyOf v) (u ++ '*' :: v) :=
    rel_append (forall₂_anyOf fun _ => rfl) (.cons rfl (forall₂_anyOf fun _ => rfl))
  rw [wildcard, missed_eq, ← append_nil (u ++ '*' :: v), greedy_append hr]
  · generalize greedyFuel _ _ - _ = k
    cases k <;> rfl
  · exact le_trans (by simp) length_lt_greedyFuel.le

theorem wildcard_anyOf (text : List Char) : wildcard (anyOf text) text = true := by
  have hr : List.Forall₂ (fun p t => (p == '?' || p == t) = true) (anyOf text) text :=
    forall₂_anyOf fun _ => rfl
  exact greedy_forall₂ hr length_lt_greedyFuel

theorem anyOf_ne (text : List Char) : anyOf text ≠ ['*', '*'] := by
  intro h
  have : '*' ∈ anyOf text := by simp [h]
  simp [anyOf] at this

theorem matchSegments_missed (s after : List (List Char)) (u v : List Char) :
    matchSegments (s.map anyOf ++ missed u v :: after.map anyOf)
      (s ++ (u ++ '*' :: v) :: after) = false := by
  have hr : List.Forall₂ (fun p t => (p != ['*', '*'] && segmentMatch p t) = true)
      (s.map anyOf) s :=
    forall₂_map_left_iff.mpr <| forall₂_same.mpr fun t _ => by
      simp [anyOf_ne, segmentMatch, wildcard_anyOf]
  rw [matchSegments, greedy_append hr]
  · generalize greedyFuel _ _ - _ = k
    cases k with
    | zero => rfl
    | succ => simp [greedy, missed_ne, segmentMatch, wildcard_missed, retry]
  · exact le_trans (by simp) length_lt_greedyFuel.le

/-! ## Segments of a path -/

theorem mem_intercalate {x a : Char} (h : x ≠ a) (ls : List (List Char)) :
    x ∈ [a].intercalate ls ↔ ∃ l ∈ ls, x ∈ l := by
  induction ls with
  | nil => simp
  | cons l ls ih =>
    cases ls with
    | nil => simp
    | cons => simp [intercalate_cons_cons, h, ih]

theorem mem_splitOn {x a : Char} (h : x ≠ a) (text : List Char) :
    (∃ l ∈ text.splitOn a, x ∈ l) ↔ x ∈ text := by
  rw [← mem_intercalate h, intercalate_splitOn]

/-- A path with a star has a pattern that it matches and that the matcher refuses. -/
theorem exists_missed {path : String} (h : '*' ∈ path.toList) :
    ∃ pattern, GlobMatches pattern path ∧ globMatch pattern path = false := by
  obtain ⟨s, hs, hm⟩ := (mem_splitOn (a := '/') (by decide) _).mpr h
  obtain ⟨before, after, he⟩ := append_of_mem hs
  obtain ⟨u, v, rfl⟩ := append_of_mem hm
  let segments := before.map anyOf ++ missed u v :: after.map anyOf
  have hsplit : ((['/'].intercalate segments).splitOn '/') = segments := by
    refine splitOn_intercalate _ ?_ (by simp [segments])
    simp [segments, missed, anyOf, or_imp, forall_and]
  refine ⟨String.ofList (['/'].intercalate segments), ?_, ?_⟩
  · rw [GlobMatches, String.toList_ofList, hsplit, he]
    have hany (ts : List (List Char)) : List.Forall₂ SegmentMatches (ts.map anyOf) ts :=
      forall₂_map_left_iff.mpr <| forall₂_same.mpr fun t _ =>
        wildcard_sound (wildcard_anyOf t)
    have hall := rel_append (hany before) (.cons (segmentMatches_missed u v) (hany after))
    simpa [SegmentsMatch] using Cuts.of_forall₂ hall (Cuts.nil_iff.mpr rfl)
  · rw [globMatch, String.toList_ofList, hsplit, he]
    exact matchSegments_missed before after u v

theorem globMatch_iff_globMatches (path : String) :
    (∀ pattern, globMatch pattern path = true → GlobMatches pattern path) ∧
      ((∀ pattern, globMatch pattern path = true ↔ GlobMatches pattern path) ↔
        '*' ∉ path.toList) := by
  refine ⟨fun _ => matchSegments_sound, fun h hs => ?_, fun hs _ => ⟨matchSegments_sound, ?_⟩⟩
  · obtain ⟨pattern, hm, hf⟩ := exists_missed hs
    simp [(h pattern).mpr hm] at hf
  · refine matchSegments_complete fun t ht hmem => hs ?_
    exact (mem_splitOn (by decide) _).mp ⟨t, ht, hmem⟩

/-- The pattern `*?` matches the path `*`: the star takes nothing. -/
theorem globMatch_star_path :
    GlobMatches "*?" "*" ∧ globMatch "*?" "*" = false ∧ globMatch "*?" "a" = true := by
  have hs : SegmentMatches ['*', '?'] ['*'] :=
    ⟨[[], ['*']], rfl, .cons (.inl rfl) (.cons (.inr ⟨'*', rfl, .inl rfl⟩) .nil)⟩
  exact ⟨⟨[[['*']]], rfl, .cons (.inr ⟨['*'], rfl, hs⟩) .nil⟩, by decide, by decide⟩

end Ostadix.Project
