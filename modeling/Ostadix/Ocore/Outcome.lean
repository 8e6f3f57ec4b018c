import Ostadix.Ocore.Tables

/-! # Outcomes of the type checker

A rule of partial correctness for computations with a state: what holds of the result, and whether
the run may end in a panic. -/

namespace Ostadix.Ocore

variable {σ α β : Type} {mayPanic : Prop} {s : σ} {post : β → σ → Prop}

/-- The run ends with a diagnostic or as `post` says, and with a panic only where it may. -/
def Ends (mayPanic : Prop) (run : CheckResult (α × σ)) (post : α → σ → Prop) : Prop :=
  match run with
  | .ok (value, state) => post value state
  | .error (.diagnostic _) => True
  | .error .panic => mayPanic

variable {next : α → StateT σ CheckResult β}

theorem Ends.bind {first : StateT σ CheckResult α}
    (ends : Ends mayPanic (first s) fun v mid => Ends mayPanic (next v mid) post) :
    Ends mayPanic ((first >>= next) s) post := by
  show Ends mayPanic (first s >>= fun r => next r.1 r.2) post
  cases ran : first s with
  | ok =>
    rw [ran] at ends
    exact ends
  | error error =>
    cases error with
    | diagnostic => trivial
    | panic =>
      rw [ran] at ends
      exact ends

theorem Ends.mono {run : CheckResult (α × σ)} {post weaker : α → σ → Prop}
    (ends : Ends mayPanic run post) (himp : ∀ v s, post v s → weaker v s) :
    Ends mayPanic run weaker := by
  cases run with
  | ok => exact himp _ _ ends
  | error error =>
    cases error with
    | diagnostic => trivial
    | panic => exact ends

theorem Ends.then {first : StateT σ CheckResult α} {middlePost : α → σ → Prop}
    (ends : Ends mayPanic (first s) middlePost)
    (tl : ∀ v mid, middlePost v mid → Ends mayPanic (next v mid) post) :
    Ends mayPanic ((first >>= next) s) post :=
  bind (ends.mono tl)

variable {act : CheckResult α}

theorem Ends.lift_bind {v : α} (ok : act = .ok v) (ends : Ends mayPanic (next v s) post) :
    Ends mayPanic ((do next (← act) : StateT σ CheckResult β) s) post := by
  rw [ok]
  exact ends

/-- A computation that returns, or panics where it may. -/
def Returns (mayPanic : Prop) (computed : CheckResult α) : Prop :=
  (∃ value, computed = .ok value) ∨ (computed = .error .panic ∧ mayPanic)

theorem Ends.returns_bind (returns : Returns mayPanic act)
    (ends : ∀ v, act = .ok v → Ends mayPanic (next v s) post) :
    Ends mayPanic ((do next (← act) : StateT σ CheckResult β) s) post := by
  obtain ⟨v, ok⟩ | ⟨panics, hal⟩ := returns
  · exact lift_bind ok (ends v ok)
  · rw [panics]
    exact hal

/-- Where a panic is allowed, only a result counts. -/
theorem Ends.run_bind (ends : ∀ v, act = .ok v → Ends True (next v s) post) :
    Ends True ((do next (← act) : StateT σ CheckResult β) s) post := by
  cases ran : act with
  | ok v => exact ends v ran
  | error error =>
    cases error with
    | diagnostic | panic => trivial

theorem Ends.get_bind {next : σ → StateT σ CheckResult β}
    (ends : Ends mayPanic (next s s) post) : Ends mayPanic ((get >>= next) s) post :=
  ends

theorem Ends.modify_bind {chg : σ → σ} {next : Unit → StateT σ CheckResult β}
    (ends : Ends mayPanic (next () (chg s)) post) :
    Ends mayPanic ((modify chg >>= next) s) post :=
  ends

theorem Ends.ite {cond : Prop} [Decidable cond] {yes no : StateT σ CheckResult β}
    (whenTrue : cond → Ends mayPanic (yes s) post) (whenFalse : ¬cond → Ends mayPanic (no s) post) :
    Ends mayPanic ((if cond then yes else no) s) post := by
  split
  · rename_i hh
    exact whenTrue hh
  · rename_i hh
    exact whenFalse hh

/-- A check whose failure is a diagnostic. -/
theorem Ends.guard {cond : Prop} [Decidable cond] {yes no : StateT σ CheckResult β}
    (stops : Ends mayPanic (yes s) post) (whenFalse : ¬cond → Ends mayPanic (no s) post) :
    Ends mayPanic ((if cond then yes else no) s) post :=
  .ite (fun _ => stops) whenFalse

/-- The same goal with the computation as an argument, where cases on it can be split. -/
theorem Ends.of_run {action : StateT σ CheckResult β}
    (ends : Ends mayPanic (action.run s) post) : Ends mayPanic (action s) post :=
  ends

theorem Ends.ok {run : CheckResult (α × σ)} {post : α → σ → Prop} (ends : Ends mayPanic run post)
    {v : α} {t : σ} (ran : run = .ok (v, t)) : post v t := by
  rw [ran] at ends
  exact ends

end Ostadix.Ocore
