import Ostadix.Lib.Except

/-! # Iteration to a fixed point

A pass makes the steps of a list one after the other, each on what the previous one left; passes
are repeated until one changes nothing. Such an iteration ends within a bound that a rank gives,
ends in a state that no step changes, and its result does not depend on the order of the steps: it
is below every unchanged state above the start. -/

namespace Ostadix.Lib

open List

variable {State Edge Error : Type}

/-- Make every step once and say whether one of them changed the state. -/
def pass (step : Edge → State → Except Error (State × Bool)) :
    List Edge → State → Except Error (State × Bool)
  | [], state => .ok (state, false)
  | edge :: edges, state => do
      let (middle, changed) ← step edge state
      let (after, laterChanged) ← pass step edges middle
      return (after, changed || laterChanged)

/-- Make passes until one changes nothing, at most as many as allowed; what is left of the allowance
is returned with the state. -/
def settle (exhausted : Error) (step : Edge → State → Except Error (State × Bool))
    (edges : List Edge) : Nat → State → Except Error (State × Nat)
  | 0, _ => .error exhausted
  | allowed + 1, state => do
      let (after, changed) ← pass step edges state
      if changed then settle exhausted step edges allowed after else return (after, allowed)

/-- No step of the list changes the state. -/
def Closed (step : Edge → State → Except Error (State × Bool)) (edges : List Edge) (state : State) :
    Prop :=
  ∀ edge ∈ edges, step edge state = .ok (state, false)

section Runs

variable {err : Error} {step : Edge → State → Except Error (State × Bool)}
  {edge : Edge} {es : List Edge} {state after top : State} {changed : Bool} {cap left : Nat}

theorem pass_cons_eq_ok : pass step (edge :: es) state = .ok (after, changed) ↔
    ∃ mid first hl, step edge state = .ok (mid, first) ∧
      pass step es mid = .ok (after, hl) ∧ changed = (first || hl) := by
  rw [pass]
  constructor
  · intro ran
    obtain ⟨⟨mid, first⟩, hstp, tl⟩ := bind_eq_ok.mp ran
    obtain ⟨⟨_, hl⟩, passed, ⟨⟩⟩ := bind_eq_ok.mp tl
    exact ⟨mid, first, hl, hstp, passed, rfl⟩
  · rintro ⟨mid, first, hl, hstp, passed, rfl⟩
    simp only [hstp, passed, ok_bind]
    rfl

theorem Closed.pass (hcl : Closed step es state) : Lib.pass step es state = .ok (state, false) := by
  induction es with
  | nil => rfl
  | cons e es ih =>
    have tl := ih (forall_mem_cons.mp hcl).2
    exact pass_cons_eq_ok.mpr ⟨state, false, false, hcl e mem_cons_self, tl, rfl⟩

/-- One pass is enough to see that nothing changes. -/
theorem Closed.settle (hcl : Closed step es state) (hexh : Error) (hal : Nat) :
    Lib.settle hexh step es (hal + 1) state = .ok (state, hal) := by
  rw [Lib.settle, hcl.pass]
  rfl

theorem pass_eq_error {error : Error} (hfl : pass step es state = .error error) :
    ∃ e ∈ es, ∃ mid, step e mid = .error error := by
  induction es generalizing state with
  | nil => cases hfl
  | cons e es ih =>
    rw [pass] at hfl
    cases hstp : step e state with
    | error =>
      rw [hstp] at hfl
      cases hfl
      exact ⟨e, mem_cons_self, state, hstp⟩
    | ok r =>
      obtain ⟨mid, _⟩ := r
      cases passed : pass step es mid with
      | ok =>
        simp only [hstp, passed, ok_bind] at hfl
        cases hfl
      | error =>
        simp only [hstp, passed, ok_bind] at hfl
        cases hfl
        obtain ⟨hl, hm, hf⟩ := ih passed
        exact ⟨hl, mem_cons_of_mem _ hm, hf⟩

/-! ## Termination -/

/-- A step of the list keeps states valid and lowers the rank if it reports a change. -/
structure Descends (step : Edge → State → Except Error (State × Bool)) (edges : List Edge)
    (valid : State → Prop) (rank : State → Nat) : Prop where
  keeps : ∀ edge ∈ edges, ∀ {state after changed}, valid state →
    step edge state = .ok (after, changed) → valid after
  idle : ∀ edge ∈ edges, ∀ {state after}, valid state → step edge state = .ok (after, false) →
    after = state
  lowers : ∀ edge ∈ edges, ∀ {state after}, valid state → step edge state = .ok (after, true) →
    rank after < rank state

variable {good : State → Prop} {rank : State → Nat}

theorem Descends.tail (descends : Descends step (edge :: es) good rank) :
    Descends step es good rank where
  keeps o hm := descends.keeps o (mem_cons_of_mem _ hm)
  idle o hm := descends.idle o (mem_cons_of_mem _ hm)
  lowers o hm := descends.lowers o (mem_cons_of_mem _ hm)

variable (descends : Descends step es good rank)

include descends

theorem Descends.pass_keeps (hisv : good state) (ran : pass step es state = .ok (after, changed)) :
    good after ∧ (changed = false → after = state) ∧ (changed = true → rank after < rank state) := by
  induction es generalizing state changed with
  | nil =>
    cases ran
    exact ⟨hisv, fun _ => rfl, nofun⟩
  | cons e es ih =>
    obtain ⟨_, first, hl, hstp, passed, rfl⟩ := pass_cons_eq_ok.mp ran
    obtain ⟨hav, he, lower⟩ := ih descends.tail (descends.keeps e mem_cons_self hisv hstp) passed
    refine ⟨hav, ?_, ?_⟩
    · intro hun
      obtain ⟨rfl, rfl⟩ := Bool.or_eq_false_iff.mp hun
      exact (he rfl).trans (descends.idle e mem_cons_self hisv hstp)
    · intro hsc
      cases first with
      | false =>
        obtain rfl := descends.idle e mem_cons_self hisv hstp
        exact lower hsc
      | true =>
        have hh := descends.lowers e mem_cons_self hisv hstp
        cases hl with
        | false => rwa [he rfl]
        | true => exact Nat.lt_trans (lower rfl) hh

/-- A pass without a change has seen that no step changes the state. -/
theorem Descends.closed_of_pass (hisv : good state)
    (ran : pass step es state = .ok (after, false)) : after = state ∧ Closed step es state := by
  induction es generalizing state with
  | nil =>
    cases ran
    exact ⟨rfl, nofun⟩
  | cons e es ih =>
    obtain ⟨_, _, _, hstp, passed, hun⟩ := pass_cons_eq_ok.mp ran
    obtain ⟨rfl, rfl⟩ := Bool.or_eq_false_iff.mp hun.symm
    obtain rfl := descends.idle e mem_cons_self hisv hstp
    obtain ⟨he, hcl⟩ := ih descends.tail hisv passed
    exact ⟨he, forall_mem_cons.mpr ⟨hstp, hcl⟩⟩

/-- The end of an iteration is unchanged by every step, and the passes made are paid for by the
rank, except for the last. -/
theorem Descends.settle_ok (hisv : good state)
    (hset : settle err step es cap state = .ok (after, left)) :
    good after ∧ Closed step es after ∧ cap + rank after ≤ left + rank state + 1 := by
  induction cap generalizing state with
  | zero => cases hset
  | succ cap ih =>
    rw [settle] at hset
    obtain ⟨⟨_, hch⟩, passed, tl⟩ := bind_eq_ok.mp hset
    cases hch with
    | false =>
      cases tl
      obtain ⟨rfl, hcl⟩ := descends.closed_of_pass hisv passed
      exact ⟨hisv, hcl, by omega⟩
    | true =>
      obtain ⟨hmv, -, lower⟩ := descends.pass_keeps hisv passed
      obtain ⟨hav, hcl, _⟩ := ih hmv tl
      have here := lower rfl
      exact ⟨hav, hcl, by omega⟩

/-- With more passes than the rank an iteration only fails where a step fails. -/
theorem Descends.settle_eq_error (hisv : good state) (hen : rank state < cap) {error : Error}
    (hfl : settle err step es cap state = .error error) :
    ∃ e ∈ es, ∃ mid, step e mid = .error error := by
  induction cap generalizing state with
  | zero => cases hen
  | succ cap ih =>
    rw [settle] at hfl
    cases passed : pass step es state with
    | error =>
      rw [passed] at hfl
      cases hfl
      exact pass_eq_error passed
    | ok r =>
      obtain ⟨mid, hch⟩ := r
      rw [passed] at hfl
      cases hch with
      | false => cases hfl
      | true =>
        obtain ⟨hmv, -, lower⟩ := descends.pass_keeps hisv passed
        exact ih hmv (by have := lower rfl; omega) hfl

/-! ## Confluence -/

/-- Below a state that a step does not change, the step succeeds and stays below. -/
def Bounded (step : Edge → State → Except Error (State × Bool)) (valid : State → Prop)
    (below : State → State → Prop) (edges : List Edge) (top : State) : Prop :=
  ∀ edge ∈ edges, ∀ state, valid state → below state top →
    ∃ after changed, step edge state = .ok (after, changed) ∧ below after top

variable {below : State → State → Prop}

theorem Descends.pass_below (bounded : Bounded step good below es top) (hisv : good state)
    (isBelow : below state top) :
    ∃ t hch, pass step es state = .ok (t, hch) ∧ below t top := by
  induction es generalizing state with
  | nil => exact ⟨state, false, rfl, isBelow⟩
  | cons e es ih =>
    obtain ⟨mid, first, hstp, middleBelow⟩ := bounded e mem_cons_self state hisv isBelow
    obtain ⟨t, hl, passed, afterBelow⟩ :=
      ih descends.tail (forall_mem_cons.mp bounded).2
        (descends.keeps e mem_cons_self hisv hstp) middleBelow
    exact ⟨t, _, pass_cons_eq_ok.mpr ⟨mid, first, hl, hstp, passed, rfl⟩, afterBelow⟩

/-- An iteration that starts below such a state ends below it, or is exhausted. -/
theorem Descends.settle_below (hexh : Error) (bounded : Bounded step good below es top) (hisv : good state)
    (isBelow : below state top) :
    settle hexh step es cap state = .error hexh ∨
      ∃ t left, settle hexh step es cap state = .ok (t, left) ∧ below t top := by
  induction cap generalizing state with
  | zero => exact .inl rfl
  | succ cap ih =>
    obtain ⟨mid, hch, passed, middleBelow⟩ := descends.pass_below bounded hisv isBelow
    rw [settle, passed]
    cases hch with
    | false => exact .inr ⟨mid, cap, rfl, middleBelow⟩
    | true => exact ih (descends.pass_keeps hisv passed).1 middleBelow

end Runs

end Ostadix.Lib
