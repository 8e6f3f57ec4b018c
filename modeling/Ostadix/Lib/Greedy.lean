import Mathlib.Data.List.Forall2
import Mathlib.Data.List.Infix
import Mathlib.Tactic.Linarith

/-! # Greedy matching with one point of return

A pattern is matched against a text from left to right. A star is first given nothing; when the
rest fails, the last star takes one more. Only the last star is remembered: whatever an earlier one
could still take, the last one can take as well. -/

namespace Ostadix.Lib

open List

variable {π τ : Type} {star : π → Bool} {one : π → τ → Prop} {takes : π → τ → Bool}
  {p : π} {ps : List π} {t : τ} {ts : List τ}

/-! ## Matches as cuts of the text -/

/-- The text can be cut into one part for each pattern: any part for a star, a single element that
it matches for another pattern. -/
def Cuts (star : π → Bool) (one : π → τ → Prop) (ps : List π) (ts : List τ) : Prop :=
  ∃ parts : List (List τ), parts.flatten = ts ∧
    List.Forall₂ (fun p part => star p = true ∨ ∃ t, part = [t] ∧ one p t) ps parts

namespace Cuts

theorem nil_iff : Cuts star one [] ts ↔ ts = [] := by
  constructor
  · rintro ⟨_, rfl, h⟩
    cases h
    rfl
  · rintro rfl
    exact ⟨[], rfl, .nil⟩

theorem star_iff (h : star p = true) :
    Cuts star one (p :: ps) ts ↔ ∃ rest, rest <:+ ts ∧ Cuts star one ps rest := by
  constructor
  · rintro ⟨_, rfl, hp⟩
    cases hp with
    | cons _ hps => exact ⟨_, suffix_append _ _, _, rfl, hps⟩
  · rintro ⟨_, ⟨part, rfl⟩, parts, rfl, hps⟩
    exact ⟨part :: parts, rfl, .cons (.inl h) hps⟩

theorem one_iff (h : star p = false) :
    Cuts star one (p :: ps) ts ↔ ∃ t rest, ts = t :: rest ∧ one p t ∧ Cuts star one ps rest := by
  constructor
  · rintro ⟨_, rfl, hp⟩
    cases hp with
    | cons head hps =>
      obtain ⟨t, rfl, ht⟩ := head.resolve_left (by simp [h])
      exact ⟨t, _, rfl, ht, _, rfl, hps⟩
  · rintro ⟨t, _, rfl, ht, parts, rfl, hps⟩
    exact ⟨[t] :: parts, rfl, .cons (.inr ⟨t, rfl, ht⟩) hps⟩

theorem nil_right_iff : Cuts star one ps [] ↔ ∀ p ∈ ps, star p = true := by
  induction ps with
  | nil => simp [nil_iff]
  | cons p ps ih =>
    cases h : star p with
    | false => simp [one_iff h, h]
    | true => simp [star_iff h, h, ih]

/-- Patterns without a star take one element each. -/
theorem append {qs : List π} (h : ∀ q ∈ qs, star q = false) (hc : Cuts star one (qs ++ ps) ts) :
    qs.length ≤ ts.length ∧ Cuts star one ps (ts.drop qs.length) := by
  induction qs generalizing ts with
  | nil => exact ⟨Nat.zero_le _, hc⟩
  | cons q qs ih =>
    simp only [forall_mem_cons] at h
    obtain ⟨_, _, rfl, -, hc⟩ := (one_iff h.1).mp hc
    obtain ⟨hl, hc⟩ := ih h.2 hc
    exact ⟨Nat.succ_le_succ hl, hc⟩

theorem of_forall₂ {qs : List π} {us : List τ} (h : List.Forall₂ one qs us)
    (hc : Cuts star one ps ts) : Cuts star one (qs ++ ps) (us ++ ts) := by
  induction h with
  | nil => exact hc
  | @cons q u _ _ ht _ ih =>
    obtain ⟨parts, he, hp⟩ := ih
    exact ⟨[u] :: parts, by simp [he], .cons (.inr ⟨u, rfl, ht⟩) hp⟩

end Cuts

/-! ## The loop -/

/-- Give the last star one element more: `saved` has the patterns behind it and the text at which
they were last tried. -/
def retry (run : List π → List τ → Option (List π × List τ) → Bool) :
    Option (List π × List τ) → Bool
  | some (qs, _ :: rest) => run qs rest (some (qs, rest))
  | _ => false

def greedy (star : π → Bool) (takes : π → τ → Bool) :
    Nat → List π → List τ → Option (List π × List τ) → Bool
  | 0, _, _, _ => false
  | _ + 1, ps, [], _ => ps.all star
  | fuel + 1, [], _ :: _, saved => retry (greedy star takes fuel) saved
  | fuel + 1, p :: ps, t :: ts, saved =>
      if takes p t then greedy star takes fuel ps ts saved
      else if star p then greedy star takes fuel ps (t :: ts) (some (ps, t :: ts))
      else retry (greedy star takes fuel) saved

/-- Turns that are always enough. -/
def greedyFuel (ps : List π) (ts : List τ) : Nat :=
  (ps.length + 2) * ((ps.length + 1) * (ts.length + 1)) + ps.length + 1

theorem length_lt_greedyFuel : ps.length < greedyFuel ps ts := by
  unfold greedyFuel
  omega

/-- What the point of return still has to offer: a later start. -/
def Later (star : π → Bool) (one : π → τ → Prop) (saved : Option (List π × List τ)) : Prop :=
  ∃ qs t rest, saved = some (qs, t :: rest) ∧ ∃ ts, ts <:+ rest ∧ Cuts star one qs ts

theorem Later.not_none : ¬Later star one none := by
  rintro ⟨_, _, _, h, _⟩
  cases h

theorem later_some {qs : List π} : Cuts star one qs ts ∨ Later star one (some (qs, ts)) ↔
    ∃ rest, rest <:+ ts ∧ Cuts star one qs rest := by
  constructor
  · rintro (h | ⟨_, t, rest, he, ts, hs, h⟩)
    · exact ⟨ts, suffix_rfl, h⟩
    · cases he
      exact ⟨ts, hs.trans (suffix_cons t rest), h⟩
  · rintro ⟨rest, hs, h⟩
    cases ts with
    | nil => exact .inl (suffix_nil.mp hs ▸ h)
    | cons t ts =>
      rcases suffix_cons_iff.mp hs with rfl | hs
      · exact .inl h
      · exact .inr ⟨qs, t, ts, rfl, rest, hs, h⟩

variable {fuel : Nat} {saved : Option (List π × List τ)}

theorem greedy_sound (sound : ∀ p t, takes p t = true → star p = true ∨ one p t)
    (h : greedy star takes fuel ps ts saved = true) :
    Cuts star one ps ts ∨ Later star one saved := by
  induction fuel generalizing ps ts saved with
  | zero => cases h
  | succ fuel ih =>
    have hag (h : retry (greedy star takes fuel) saved = true) : Later star one saved := by
      unfold retry at h
      split at h
      · exact ⟨_, _, _, rfl, later_some.mp (ih h)⟩
      · cases h
    cases ts with
    | nil => exact .inl (Cuts.nil_right_iff.mpr (by simpa [greedy] using h))
    | cons t ts =>
      cases ps with
      | nil => exact .inr (hag h)
      | cons p =>
        rw [greedy] at h
        split_ifs at h with ht hs
        · refine (ih h).imp_left fun hc => ?_
          cases hs : star p with
          | true => exact (Cuts.star_iff hs).mpr ⟨ts, suffix_cons t ts, hc⟩
          | false =>
            have hone := (sound p t ht).resolve_left (by simp [hs])
            exact (Cuts.one_iff hs).mpr ⟨t, ts, rfl, hone, hc⟩
        · exact .inl ((Cuts.star_iff hs).mpr (later_some.mp (ih h)))
        · exact .inr (hag h)

/-- Between the point of return and here lie patterns without a star. -/
def Resumes (star : π → Bool) (pat : List π) (text : List τ) (ps : List π) (ts : List τ)
    (saved : Option (List π × List τ)) : Prop :=
  ∀ qs rest, saved = some (qs, rest) → qs <:+ pat ∧ rest <:+ text ∧
    ∃ front, qs = front ++ ps ∧ (∀ q ∈ front, star q = false) ∧ ts = rest.drop front.length

/-- A bound on the turns left: the last star only moves on in the pattern, its text only gets
shorter, and so do the patterns in between. -/
def turns (a b : Nat) (ps : List π) : Option (List π × List τ) → Nat
  | none => a * (a * b) + a * b + ps.length
  | some (qs, rest) => qs.length * (a * b) + rest.length * a + ps.length

section Complete

variable {pat : List π} {text : List τ}

theorem Resumes.none : Resumes star pat text ps ts none := by
  intro _ _ h
  cases h

theorem Resumes.refl {qs : List π} {tl : List τ} (hq : qs <:+ pat) (hr : tl <:+ text) :
    Resumes star pat text qs tl (some (qs, tl)) := by
  rintro _ _ ⟨⟩
  exact ⟨hq, hr, [], rfl, by simp, rfl⟩

theorem Resumes.step (h : Resumes star pat text (p :: ps) (t :: ts) saved) (hp : star p = false) :
    Resumes star pat text ps ts saved := by
  intro qs rest he
  obtain ⟨hq, hr, front, rfl, hf, ht⟩ := h qs rest he
  refine ⟨hq, hr, front ++ [p], by simp, ?_, ?_⟩
  · simpa [or_imp, forall_and, hp] using hf
  · rw [length_append, ← drop_drop, ← ht]
    rfl

/-- Whatever a later start could reach, the patterns from here on reach too. -/
theorem Resumes.later (h : Resumes star pat text ps ts saved) (hl : Later star one saved) :
    ts ≠ [] ∧ ∃ rest, rest <:+ ts ∧ Cuts star one ps rest := by
  obtain ⟨_, t, rest, he, us, hs, hc⟩ := hl
  obtain ⟨-, -, front, rfl, hf, rfl⟩ := h _ _ he
  obtain ⟨hl, hc⟩ := hc.append hf
  have hle := hs.length_le
  have hsuf : us.drop front.length <:+ t :: rest :=
    (drop_suffix _ _).trans (hs.trans (suffix_cons t rest))
  refine ⟨by simp; omega, _, suffix_of_suffix_length_le hsuf (drop_suffix _ _) ?_, hc⟩
  simp
  omega

theorem turns_retry {a b : Nat} {qs : List π} {tl : List τ} (h : qs.length < a) :
    turns a b qs (some (qs, tl)) < turns a b ps (some (qs, t :: tl)) := by
  simp only [turns, length_cons, Nat.succ_mul]
  omega

theorem turns_star (h : Resumes star pat text (p :: ps) ts saved) (hp : p :: ps <:+ pat)
    (ht : ts <:+ text) :
    turns (pat.length + 1) (text.length + 1) ps (some (ps, ts)) <
      turns (pat.length + 1) (text.length + 1) (p :: ps) saved := by
  have hts : ts.length * (pat.length + 1) + (pat.length + 1) ≤
      (pat.length + 1) * (text.length + 1) := by
    rw [← Nat.succ_mul, Nat.mul_comm]
    exact Nat.mul_le_mul_left _ (Nat.succ_le_succ ht.length_le)
  have step {n : Nat} (hn : ps.length + 1 ≤ n) :
      ps.length * ((pat.length + 1) * (text.length + 1)) + (pat.length + 1) * (text.length + 1) ≤
        n * ((pat.length + 1) * (text.length + 1)) := by
    rw [← Nat.succ_mul]
    exact Nat.mul_le_mul_right _ hn
  match saved with
  | none =>
    have hle := hp.length_le
    have := step (n := pat.length + 1) (by simp at hle; omega)
    simp only [turns, length_cons]
    omega
  | some (qs, rest) =>
    obtain ⟨-, -, front, rfl, -, -⟩ := h _ _ rfl
    have := step (n := (front ++ p :: ps).length) (by simp)
    simp only [turns, length_cons]
    omega

theorem turns_lt_greedyFuel : turns (pat.length + 1) (text.length + 1) pat
    (none : Option (List π × List τ)) < greedyFuel pat text := by
  simp only [turns, greedyFuel, Nat.succ_mul]
  omega

theorem greedy_complete (hcpl : ∀ p, ∀ t ∈ text, takes p t = true ↔ star p = false ∧ one p t)
    (hp : ps <:+ pat) (ht : ts <:+ text) (hr : Resumes star pat text ps ts saved)
    (hen : turns (pat.length + 1) (text.length + 1) ps saved < fuel)
    (h : Cuts star one ps ts ∨ Later star one saved) : greedy star takes fuel ps ts saved = true := by
  induction fuel generalizing ps ts saved with
  | zero => cases hen
  | succ fuel ih =>
    have hag (hl : Later star one saved) : retry (greedy star takes fuel) saved = true := by
      obtain ⟨qs, t, tl, rfl, hl⟩ := hl
      obtain ⟨hq, hs, -⟩ := hr _ _ rfl
      have hs := (suffix_cons t tl).trans hs
      have hlt : qs.length < pat.length + 1 := Nat.lt_succ_of_le hq.length_le
      have hlt := Nat.lt_of_le_of_lt (turns_retry hlt) hen
      exact ih hq hs (.refl hq hs) (Nat.lt_of_succ_lt_succ hlt) (later_some.mpr hl)
    match ts, ps with
    | [], ps =>
      have hc := h.resolve_right fun hl => (hr.later hl).1 rfl
      simpa [greedy] using Cuts.nil_right_iff.mp hc
    | t :: ts, [] => exact hag (h.resolve_left (by simp [Cuts.nil_iff]))
    | t :: ts, p :: ps =>
      have hps := (suffix_cons p ps).trans hp
      rw [greedy]
      split_ifs with hk hs
      · obtain ⟨hs, -⟩ := (hcpl p t (ht.subset mem_cons_self)).mp hk
        refine ih hps ((suffix_cons t ts).trans ht) (hr.step hs) ?_ (h.imp_left fun hc => ?_)
        · revert hen
          cases saved <;> simp only [turns, length_cons] <;> omega
        · obtain ⟨_, _, he, -, hc⟩ := (Cuts.one_iff hs).mp hc
          cases he
          exact hc
      · refine ih hps ht (.refl hps ht) (by have := turns_star hr hp ht; omega) (later_some.mpr ?_)
        rcases h with hc | hl
        · exact (Cuts.star_iff hs).mp hc
        · obtain ⟨-, tl, hsuf, hc⟩ := hr.later hl
          obtain ⟨us, hu, hc⟩ := (Cuts.star_iff hs).mp hc
          exact ⟨us, hu.trans hsuf, hc⟩
      · refine hag (h.resolve_left fun hc => hk ?_)
        have hs := Bool.eq_false_iff.mpr hs
        obtain ⟨_, _, he, hone, -⟩ := (Cuts.one_iff hs).mp hc
        cases he
        exact (hcpl p t (ht.subset mem_cons_self)).mpr ⟨hs, hone⟩

end Complete

/-- Patterns that are taken one by one just pass. -/
theorem greedy_append {qs : List π} {us : List τ}
    (h : List.Forall₂ (fun q u => takes q u = true) qs us) (hf : qs.length ≤ fuel) :
    greedy star takes fuel (qs ++ ps) (us ++ ts) saved =
      greedy star takes (fuel - qs.length) ps ts saved := by
  induction h generalizing fuel with
  | nil => rfl
  | cons hq _ ih =>
    cases fuel with
    | zero => cases hf
    | succ => simpa [greedy, hq] using ih (Nat.le_of_succ_le_succ hf)

theorem greedy_forall₂ {qs : List π} {us : List τ}
    (h : List.Forall₂ (fun q u => takes q u = true) qs us) (hf : qs.length < fuel) :
    greedy star takes fuel qs us saved = true := by
  rw [← append_nil qs, ← append_nil us, greedy_append h hf.le]
  obtain ⟨_, hk⟩ := Nat.exists_eq_succ_of_ne_zero (Nat.sub_ne_zero_of_lt hf)
  rw [hk]
  rfl

end Ostadix.Lib
