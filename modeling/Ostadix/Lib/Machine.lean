import Mathlib.Data.List.Basic

/-! # Event-driven machines

A deterministic machine takes an event to a next state and an output. Some outputs *grant* a
token. The rule at the end bounds the grants of a whole run: a token that is barred is never
granted again, so two grants of one run are never in conflict. -/

namespace Ostadix.Lib

open List

variable {State Event Output Token : Type}

namespace Machine

/-- The state after a list of events. -/
def runState (step : State → Event → State × Output) : State → List Event → State
  | state, [] => state
  | state, event :: events => runState step (step state event).1 events

/-- The outputs of a list of events, in order. -/
def runOutputs (step : State → Event → State × Output) : State → List Event → List Output
  | _, [] => []
  | state, event :: events => (step state event).2 :: runOutputs step (step state event).1 events

/-- The tokens granted along a run. -/
def grants (step : State → Event → State × Output) (granted : Output → Option Token)
    (state : State) (events : List Event) : List Token :=
  (runOutputs step state events).filterMap granted

variable (step : State → Event → State × Output) (granted : Output → Option Token)

theorem grants_cons (s : State) (ev : Event) (evs : List Event) :
    grants step granted s (ev :: evs) =
      (granted (step s ev).2).toList ++ grants step granted (step s ev).1 evs := by
  simp only [grants, runOutputs, filterMap_cons]
  cases granted (step s ev).2 <;> rfl

variable {state : State} {events : List Event}

theorem mem_grants_cons {ev : Event} {token : Token} :
    token ∈ grants step granted state (ev :: events) ↔ granted (step state ev).2 = some token ∨
        token ∈ grants step granted (step state ev).1 events := by
  rw [grants_cons, mem_append, Option.mem_toList]

/-- `Barred state token` bars every token in conflict with `token`: it is kept by every step, it
holds after `token` was granted, and while it holds no conflicting token is granted. -/
structure Bars (Barred : State → Token → Prop) (Conflict : Token → Token → Prop) : Prop where
  keeps : ∀ {state token} (event : Event), Barred state token → Barred (step state event).1 token
  holdsAfterGrant : ∀ {state event token}, granted (step state event).2 = some token →
    Barred (step state event).1 token
  excludes : ∀ {state event token later}, Barred state token →
    granted (step state event).2 = some later → ¬ Conflict token later

variable {step granted} {Barred : State → Token → Prop} {Conflict : Token → Token → Prop}

/-- The same from the states of an invariant only. -/
structure BarsOn (step : State → Event → State × Output) (granted : Output → Option Token)
    (Invariant : State → Prop) (Barred : State → Token → Prop)
    (Conflict : Token → Token → Prop) : Prop where
  invariant : ∀ {state} (event : Event), Invariant state → Invariant (step state event).1
  keeps : ∀ {state token} (event : Event), Invariant state → Barred state token →
    Barred (step state event).1 token
  holdsAfterGrant : ∀ {state event token}, Invariant state →
    granted (step state event).2 = some token → Barred (step state event).1 token
  excludes : ∀ {state event token later}, Invariant state → Barred state token →
    granted (step state event).2 = some later → ¬ Conflict token later

variable {Invariant : State → Prop}

theorem BarsOn.not_granted (bars : BarsOn step granted Invariant Barred Conflict) {token : Token}
    (hh : Invariant state) (barred : Barred state token) {tk : Token}
    (hm : tk ∈ grants step granted state events) : ¬ Conflict token tk := by
  induction events generalizing state with
  | nil => cases hm
  | cons ev events ih =>
    obtain first | tl := (mem_grants_cons step granted).mp hm
    · exact bars.excludes hh barred first
    · exact ih (bars.invariant ev hh) (bars.keeps ev hh barred) tl

theorem BarsOn.pairwise_grants (bars : BarsOn step granted Invariant Barred Conflict)
    (hh : Invariant state) (evs : List Event) :
    (grants step granted state evs).Pairwise fun token hl => ¬ Conflict token hl := by
  induction evs generalizing state with
  | nil => exact .nil
  | cons ev evs ih =>
    have tl := ih (bars.invariant ev hh)
    simp only [grants, runOutputs, filterMap_cons]
    cases first : granted (step state ev).2 with
    | none => exact tl
    | some =>
      refine .cons ?_ tl
      intro hl hm
      exact bars.not_granted (bars.invariant ev hh) (bars.holdsAfterGrant hh first) hm

section

variable (bars : Bars step granted Barred Conflict)

include bars

theorem Bars.anywhere : BarsOn step granted (fun _ => True) Barred Conflict :=
  ⟨fun _ _ => trivial, fun ev _ => bars.keeps ev, fun _ => bars.holdsAfterGrant,
    fun _ => bars.excludes⟩

theorem Bars.not_granted {token : Token} (barred : Barred state token) {tk : Token}
    (hm : tk ∈ grants step granted state events) : ¬ Conflict token tk :=
  bars.anywhere.not_granted trivial barred hm

theorem Bars.pairwise_grants (s : State) (evs : List Event) :
    (grants step granted s evs).Pairwise fun token hl => ¬ Conflict token hl :=
  bars.anywhere.pairwise_grants trivial evs

/-! ## Runs in two parts -/

end

theorem runState_append (s : State) (evs more : List Event) :
    runState step s (evs ++ more) = runState step (runState step s evs) more := by
  induction evs generalizing s with
  | nil => rfl
  | cons ev evs ih => exact ih (step s ev).1

theorem runOutputs_append (s : State) (evs more : List Event) : runOutputs step s (evs ++ more) =
      runOutputs step s evs ++ runOutputs step (runState step s evs) more := by
  induction evs generalizing s with
  | nil => rfl
  | cons ev evs ih => exact congrArg _ (ih (step s ev).1)

/-- An output of a run was given by one of its steps. -/
theorem mem_runOutputs {out : Output} :
    out ∈ runOutputs step state events ↔ ∃ s ev t, events = s ++ ev :: t ∧
      out = (step (runState step state s) ev).2 := by
  constructor
  · intro hm
    induction events generalizing state with
    | nil => cases hm
    | cons ev events ih =>
      obtain rfl | tl := mem_cons.mp hm
      · exact ⟨[], ev, events, rfl, rfl⟩
      · obtain ⟨s, next, t, rfl, hgv⟩ := ih tl
        exact ⟨ev :: s, next, t, rfl, hgv⟩
  · rintro ⟨s, ev, t, rfl, rfl⟩
    rw [runOutputs_append]
    exact mem_append_right _ mem_cons_self

end Machine

end Ostadix.Lib
